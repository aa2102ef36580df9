import Reckon.Proofs.Places
import Reckon.Proofs.Wording

/-!
# The arrow of a report

A report of an error with a position has four rows: the headline, a bar, the line of the source and
the arrow. The two last begin as far to the right, since the bar in front of the arrow keeps clear of
the line's number, and the arrow is shorter by the spaces that the line is shown without. So the head
of the arrow stands under the character at the position; where the source ends there, it stands
behind all that is shown of the line. An error without a position has only the headline.
-/
namespace Reckon
open Text

/-- The text consists of these rows, each with a newline behind it. -/
structure Rows (text : String) (rows : List (List Char)) : Prop where
  toList_eq : text.toList = rows.flatMap (· ++ ['\n'])
  newline : ∀ row ∈ rows, '\n' ∉ row

namespace Report
variable {p : Place} {source : List Char} {position : Nat}

def shown (p : Place) : List Char := dropBlanksEnd (p.text.drop (indent p.text))

/-- The number of characters in front of what is shown of a source line. -/
def gutter (p : Place) : Nat := (toString p.line).length + 3

theorem exists_margin (line : Nat) :
    ∃ front : List Char, front.length = (toString line).length + 2 ∧ '\n' ∉ front ∧ '^' ∉ front ∧
      (margin line).toList = front := by
  refine ⟨List.replicate ((toString line).length + 1) ' ' ++ ['|'], by simp, ?_, ?_, ?_⟩
  · simp [List.mem_replicate]
  · simp [List.mem_replicate]
  · simp [margin]

theorem exists_sourceLine (p : Place) :
    ∃ front : List Char, front.length = gutter p ∧ '\n' ∉ front ∧
      (sourceLine p).toList = front ++ shown p := by
  refine ⟨(toString p.line).toList ++ " | ".toList, ?_, ?_, ?_⟩
  · rw [List.length_append, String.length_toList]
    rfl
  · simpa [OneLine] using oneLine_toString p.line
  · simp [sourceLine, shown]
    rfl

theorem exists_arrow (p : Place) :
    ∃ front : List Char, front.length = gutter p + (p.column - indent p.text) ∧ '\n' ∉ front ∧
      '^' ∉ front ∧ (arrow p).toList = front ++ ['^'] := by
  obtain ⟨front, hlength, hnewline, hhead, hmargin⟩ := exists_margin p.line
  refine ⟨front ++ ' ' :: List.replicate (p.column - indent p.text) '-', ?_, ?_, ?_, ?_⟩
  · simp [gutter, hlength]
    omega
  · simpa [List.mem_replicate] using hnewline
  · simpa [List.mem_replicate] using hhead
  · simp [arrow, hmargin]

theorem mem_of_mem_dropBlanksEnd {c : Char} {text : List Char} (h : c ∈ dropBlanksEnd text) :
    c ∈ text := by
  obtain ⟨blanks, -, htext⟩ := exists_dropBlanksEnd_append_blanks text
  rw [htext]
  exact List.mem_append_left blanks h

theorem dropBlanksEnd_concat {c : Char} {text : List Char} (h : isBlank c) :
    dropBlanksEnd (text ++ [c]) = dropBlanksEnd text := by
  simp [dropBlanksEnd, dropBlanks, h]

theorem newline_not_mem_shown (h : p.Shows source position) : '\n' ∉ shown p := by
  obtain ⟨front, hfront, htext⟩ := h.line
  have hdrop (n : Nat) : '\n' ∉ dropBlanksEnd (front.drop n) := fun hn =>
    hfront (List.mem_of_mem_drop (mem_of_mem_dropBlanksEnd hn))
  rw [shown]
  generalize indent p.text = n
  rcases htext with htext | htext
  · rw [htext]
    exact hdrop n
  · rw [htext, List.drop_append]
    cases n - front.length with
    | zero =>
      rw [List.drop_zero, dropBlanksEnd_concat (by decide)]
      exact hdrop n
    | succ k =>
      rw [List.drop_succ_cons, List.drop_nil, List.append_nil]
      exact hdrop n

theorem exists_spaces_blanks (p : Place) :
    ∃ spaces blanks, spaces.length = indent p.text ∧ (∀ c ∈ spaces, isBlank c) ∧
      (∀ c ∈ blanks, isBlank c) ∧ p.text = spaces ++ (shown p ++ blanks) := by
  have hparts : p.text.takeWhile (· == ' ') ++ p.text.dropWhile (· == ' ') = p.text :=
    List.takeWhile_append_dropWhile
  have hdrop : p.text.drop (indent p.text) = p.text.dropWhile (· == ' ') := by
    have hleft : (p.text.takeWhile (· == ' ') ++ p.text.dropWhile (· == ' ')).drop (indent p.text) =
        p.text.dropWhile (· == ' ') := List.drop_left
    rwa [hparts] at hleft
  obtain ⟨blanks, hblanks, htext⟩ := exists_dropBlanksEnd_append_blanks (p.text.drop (indent p.text))
  refine ⟨p.text.takeWhile (· == ' '), blanks, rfl, ?_, hblanks, ?_⟩
  · intro c hc
    have hspace : (c == ' ') = true := List.all_eq_true.mp List.all_takeWhile c hc
    rw [eq_of_beq hspace]
    decide
  · rw [shown, ← htext, hdrop, hparts]

/-- A character that is not blank is shown, as far to the right as it is behind the spaces. -/
theorem getElem?_shown {c : Char} (h : p.text[p.column]? = some c) (hc : ¬ isBlank c) :
    (shown p)[p.column - indent p.text]? = some c := by
  obtain ⟨spaces, blanks, hlength, hspaces, hblanks, htext⟩ := exists_spaces_blanks p
  rw [htext] at h
  rw [← hlength]
  by_cases hindent : p.column < spaces.length
  · rw [List.getElem?_append_left hindent] at h
    exact absurd (hspaces c (List.mem_of_getElem? h)) hc
  · rw [List.getElem?_append_right (Nat.not_lt.mp hindent)] at h
    by_cases hshown : p.column - spaces.length < (shown p).length
    · rwa [List.getElem?_append_left hshown] at h
    · rw [List.getElem?_append_right (Nat.not_lt.mp hshown)] at h
      exact absurd (hblanks c (List.mem_of_getElem? h)) hc

theorem length_shown_le (p : Place) : (shown p).length ≤ p.text.length - indent p.text := by
  obtain ⟨spaces, blanks, hlength, -, -, htext⟩ := exists_spaces_blanks p
  have hsum := congrArg List.length htext
  rw [List.length_append, List.length_append] at hsum
  omega

/-- A head behind these characters is under the character at the position, or where the source ends
at the position behind the end of the row. -/
structure Aims (front row : List Char) (source : String) (position : Nat) : Prop where
  char : position < source.length →
    ∃ c, source.toList[position]? = some c ∧ ¬ isBlank c ∧ row[front.length]? = some c
  stop : position = source.length → row.length ≤ front.length

theorem aims_of_shows {source : String} {front gutter : List Char}
    (hpoints : Points source.toList position) (hshows : p.Shows source.toList position)
    (hfront : front.length = gutter.length + (p.column - indent p.text)) :
    Aims front (gutter ++ shown p) source position := by
  constructor
  · intro hlt
    rw [← String.length_toList] at hlt
    have hchar := List.getElem?_eq_getElem hlt
    have hblank := hpoints.not_blank _ hchar
    refine ⟨_, hchar, hblank, ?_⟩
    rw [hfront, List.getElem?_append_right (Nat.le_add_right ..), Nat.add_sub_cancel_left]
    exact getElem?_shown (hshows.char _ hchar) hblank
  · intro hend
    rw [← String.length_toList] at hend
    have hshown := length_shown_le p
    rw [hfront, List.length_append, hshows.stop hend]
    omega

/-- The report of a calculation's error. Without a position it is one row. With a position, which
the source has, there are three rows more, and in the last of them the head of an arrow is under the
character at the position in the row above, which is not blank, or behind that row's end if the source
ends at the position. -/
theorem render_aims (source : String) (env : Environment) (err : Error)
    (h : calculate source env = .error err) :
    match err.position? with
    | none => ∃ headline, Rows (render err source) [headline]
    | some position =>
      position ≤ source.length ∧
        ∃ headline bar row front, Rows (render err source) [headline, bar, row, front ++ ['^']] ∧
          '^' ∉ front ∧ Aims front row source position := by
  obtain ⟨text, htext, hheadline⟩ := exists_headline (quoted_not_isBlank h)
  cases hposition : err.position? with
  | none =>
    refine ⟨text.toList, ?_, by simpa [OneLine] using htext⟩
    simp [render, hposition, hheadline]
  | some position =>
    have hpoints := points_of_calculate h position hposition
    obtain ⟨place, hplace, hshows⟩ := exists_placeOf hpoints.le_length
    obtain ⟨bar, -, hbar, -, hmargin⟩ := exists_margin place.line
    obtain ⟨gutter, hgutter, hclear, hline⟩ := exists_sourceLine place
    obtain ⟨front, hlength, hfront, hhead, harrow⟩ := exists_arrow place
    rw [← hgutter] at hlength
    have hle := hpoints.le_length
    rw [String.length_toList] at hle
    refine ⟨hle, text.toList, bar, gutter ++ shown place, front, ⟨?_, ?_⟩, hhead,
      aims_of_shows hpoints hshows hlength⟩
    · simp [render, hposition, hplace, hheadline, excerpt, hmargin, hline, harrow]
    · have hshown := newline_not_mem_shown hshows
      simpa [OneLine, hbar, hclear, hshown, hfront] using htext

/-- The character `#` in a second line that begins with two spaces is at position 8. -/
theorem render_aims_second_line :
    calculate "2 *\n  3 # 4" .empty = .error (.lex (.unexpectedCharacter '#' 8)) ∧
      8 ≤ "2 *\n  3 # 4".length ∧
      ∃ headline bar row front,
        Rows (render (.lex (.unexpectedCharacter '#' 8)) "2 *\n  3 # 4")
          [headline, bar, row, front ++ ['^']] ∧
        '^' ∉ front ∧ Aims front row "2 *\n  3 # 4" 8 := by
  have herror : calculate "2 *\n  3 # 4" .empty = .error (.lex (.unexpectedCharacter '#' 8)) := by
    decide +kernel
  exact ⟨herror, render_aims "2 *\n  3 # 4" .empty _ herror⟩

end Report

end Reckon
