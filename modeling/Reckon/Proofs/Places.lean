import Reckon.Text.Blank
import Reckon.Text.Line

/-!
# Lines and places

A text that is cut after its newlines has no newline in a line but at the line's end. A position in
the text is found in the line that its character is in, as far behind the line's start as the line
starts in front of it; the end of the text is found behind the last line. So the character at a
position is the one in its line's column.
-/
namespace Reckon.Text

section Cuts
variable {α : Type} {isEnd : α → Bool} {list piece : List α}

/-- The list is cut into the pieces: after every element that `isEnd` holds of and nowhere else. What
is left behind the last of them is a piece of its own. -/
inductive Cut (isEnd : α → Bool) : List α → List (List α) → Prop
  | nil : Cut isEnd [] []
  | rest {front : List α} : front ≠ [] → (∀ a ∈ front, ¬ isEnd a) → Cut isEnd front [front]
  | piece {front list : List α} {a : α} {pieces : List (List α)} :
      (∀ b ∈ front, ¬ isEnd b) → isEnd a → Cut isEnd list pieces →
      Cut isEnd (front ++ a :: list) ((front ++ [a]) :: pieces)

theorem cut_cutAfter (isEnd : α → Bool) (list : List α) : Cut isEnd list (cutAfter isEnd list) := by
  induction list with
  | nil => exact .nil
  | cons a list ih =>
    have hnone : ∀ b ∈ ([] : List α), ¬ isEnd b := by simp
    unfold cutAfter
    split
    · rename_i ha
      exact .piece hnone ha ih
    · rename_i ha
      generalize cutAfter isEnd list = pieces at ih ⊢
      cases ih with
      | nil => exact .rest (List.cons_ne_nil a []) (List.forall_mem_cons.mpr ⟨ha, hnone⟩)
      | rest _ hfront =>
        exact .rest (List.cons_ne_nil a list) (List.forall_mem_cons.mpr ⟨ha, hfront⟩)
      | piece hfront hb hpieces =>
        exact .piece (List.forall_mem_cons.mpr ⟨ha, hfront⟩) hb hpieces

theorem Cut.cutAfter_eq {pieces : List (List α)} (h : Cut isEnd list pieces) :
    cutAfter isEnd list = pieces := by
  induction h with
  | nil => rfl
  | @rest front hne hfront =>
    induction front with
    | nil => exact absurd rfl hne
    | cons a front ih =>
      obtain ⟨ha, hfront⟩ := List.forall_mem_cons.mp hfront
      cases front with
      | nil => simp [cutAfter, ha]
      | cons b front => rw [cutAfter, if_neg ha, ih (List.cons_ne_nil b front) hfront]
  | @piece front list b pieces hfront hb _ ih =>
    induction front with
    | nil => rw [List.nil_append, cutAfter, if_pos hb, ih, List.nil_append]
    | cons a front ihfront =>
      obtain ⟨ha, hfront⟩ := List.forall_mem_cons.mp hfront
      rw [List.cons_append, cutAfter, if_neg ha, ihfront hfront, List.cons_append]

theorem exists_front_of_mem_cutAfter (h : piece ∈ cutAfter isEnd list) :
    ∃ front, (∀ a ∈ front, ¬ isEnd a) ∧ (piece = front ∨ ∃ a, isEnd a ∧ piece = front ++ [a]) := by
  have hcut := cut_cutAfter isEnd list
  generalize cutAfter isEnd list = pieces at h hcut
  induction hcut with
  | nil => cases h
  | rest _ hfront =>
    cases List.mem_singleton.mp h
    exact ⟨_, hfront, .inl rfl⟩
  | piece hfront ha _ ih =>
    rcases List.mem_cons.mp h with rfl | h
    · exact ⟨_, hfront, .inr ⟨_, ha, rfl⟩⟩
    · exact ih h

/-- A piece in front of another one ends with an element to cut after. -/
theorem Cut.exists_of_cons {pieces : List (List α)} (h : Cut isEnd list (piece :: pieces))
    (hpieces : pieces ≠ []) :
    ∃ front a rest, piece = front ++ [a] ∧ (∀ b ∈ front, ¬ isEnd b) ∧ isEnd a ∧
      Cut isEnd rest pieces := by
  cases h with
  | rest => exact absurd rfl hpieces
  | piece hfront ha hrest => exact ⟨_, _, _, rfl, hfront, ha, hrest⟩

/-- What stands behind a cut is cut on its own, and may be replaced. -/
theorem Cut.replace {before after more : List (List α)} {list' : List α} {a : α}
    (h : Cut isEnd list (before ++ piece :: after)) (hlast : piece.getLast? = some a)
    (ha : isEnd a) (h' : Cut isEnd list' more) :
    Cut isEnd (before.flatten ++ piece ++ list') (before ++ piece :: more) := by
  induction before generalizing list with
  | nil =>
    cases h with
    | rest _ hfront => exact absurd ha (hfront a (List.mem_of_getLast? hlast))
    | @piece front _ b _ hfront hb _ =>
      have hcut := Cut.piece hfront hb h'
      rwa [List.append_cons] at hcut
  | cons first before ih =>
    obtain ⟨front, b, rest, rfl, hfront, hb, hrest⟩ := Cut.exists_of_cons h (by simp)
    have hcut := Cut.piece hfront hb (ih hrest)
    simpa using hcut

theorem exists_piece {pieces : List (List α)} {position : Nat} (h : position < pieces.flatten.length) :
    ∃ before piece after column, pieces = before ++ piece :: after ∧ column < piece.length ∧
      position = before.flatten.length + column := by
  induction pieces generalizing position with
  | nil => simp at h
  | cons first rest ih =>
    by_cases hfirst : position < first.length
    · exact ⟨[], first, rest, position, rfl, hfirst, by simp⟩
    · rw [List.flatten_cons, List.length_append] at h
      have hrest : position - first.length < rest.flatten.length := by omega
      obtain ⟨before, piece, after, column, rfl, hcolumn, hposition⟩ := ih hrest
      refine ⟨first :: before, piece, after, column, rfl, hcolumn, ?_⟩
      rw [List.flatten_cons, List.length_append]
      omega

end Cuts

section Places
variable {line column position : Nat} {text : List Char} {before after : List (List Char)}

/-- A place is found behind the lines in front of it. The column behind the text is a place of the
last line. -/
theorem placeIn_append (line : Nat) (before : List (List Char))
    (h : column < text.length ∨ after = [] ∧ column = text.length) :
    placeIn line (before ++ text :: after) (before.flatten.length + column) =
      some ⟨line + before.length, text, column⟩ := by
  induction before generalizing line with
  | nil =>
    cases after with
    | nil =>
      have hcolumn : column ≤ text.length := by grind
      simp [placeIn, hcolumn]
    | cons next more =>
      have hcolumn : column < text.length := by grind
      simp [placeIn, hcolumn]
  | cons first rest ih =>
    have hne : ∃ next more, rest ++ text :: after = next :: more := by
      cases rest <;> exact ⟨_, _, rfl⟩
    obtain ⟨next, more, hmore⟩ := hne
    have hbehind : ¬ (first :: rest).flatten.length + column < first.length := by
      rw [List.flatten_cons, List.length_append]
      omega
    have hposition : (first :: rest).flatten.length + column - first.length =
        rest.flatten.length + column := by
      rw [List.flatten_cons, List.length_append]
      omega
    rw [List.cons_append, hmore, placeIn, if_neg hbehind, hposition, ← hmore, ih, List.length_cons,
      Nat.add_assoc, Nat.add_comm 1]
    nofun

theorem placeIn_end (line : Nat) (before : List (List Char)) (text : List Char) :
    placeIn line (before ++ [text]) (before ++ [text]).flatten.length =
      some ⟨line + before.length, text, text.length⟩ := by
  have hlength : (before ++ [text]).flatten.length = before.flatten.length + text.length := by
    simp
  rw [hlength]
  exact placeIn_append line before (.inr ⟨rfl, rfl⟩)

/-- The place is that of the position: its line has the character at the position in the column, or
ends there if the source does. -/
structure Place.Shows (place : Place) (source : List Char) (position : Nat) : Prop where
  line : ∃ front, '\n' ∉ front ∧ (place.text = front ∨ place.text = front ++ ['\n'])
  char : ∀ c ∈ source[position]?, place.text[place.column]? = some c
  stop : position = source.length → place.column = place.text.length

theorem exists_line {text source : List Char} (h : text ∈ lines source) :
    ∃ front, '\n' ∉ front ∧ (text = front ∨ text = front ++ ['\n']) := by
  obtain ⟨front, hfront, htext⟩ := exists_front_of_mem_cutAfter h
  refine ⟨front, fun hn => hfront '\n' hn rfl, ?_⟩
  rcases htext with rfl | ⟨c, hc, rfl⟩
  · exact .inl rfl
  · rw [eq_of_beq hc]
    exact .inr rfl

theorem exists_placeIn {pieces : List (List Char)}
    (hline : ∀ text ∈ pieces, ∃ front, '\n' ∉ front ∧ (text = front ∨ text = front ++ ['\n']))
    (h : position ≤ pieces.flatten.length) :
    ∃ place, placeIn 1 pieces position = some place ∧ place.Shows pieces.flatten position := by
  rcases Nat.lt_or_eq_of_le h with hlt | rfl
  · obtain ⟨before, text, after, column, rfl, hcolumn, rfl⟩ := exists_piece hlt
    refine ⟨_, placeIn_append 1 before (.inl hcolumn), hline text (by simp), ?_, ?_⟩
    · intro c hc
      rw [List.flatten_append, List.flatten_cons,
        List.getElem?_append_right (Nat.le_add_right _ column), Nat.add_sub_cancel_left,
        List.getElem?_append_left hcolumn] at hc
      exact hc
    · intro hstop
      omega
  · have hend : ∀ c ∈ pieces.flatten[pieces.flatten.length]?, False := by
      simp
    rcases List.eq_nil_or_concat pieces with rfl | ⟨before, text, rfl⟩
    · exact ⟨⟨1, [], 0⟩, rfl, ⟨[], by simp, .inl rfl⟩, fun c hc => (hend c hc).elim, fun _ => rfl⟩
    · rw [List.concat_eq_append] at hline hend ⊢
      exact ⟨_, placeIn_end 1 before text, hline text (by simp), fun c hc => (hend c hc).elim,
        fun _ => rfl⟩

/-- Every position of a text has its place. -/
theorem exists_placeOf {source : String} (h : position ≤ source.toList.length) :
    ∃ place, placeOf source position = some place ∧ place.Shows source.toList position := by
  have hflatten : (lines source.toList).flatten = source.toList := flatten_cutAfter _ _
  rw [← hflatten] at h
  have hplace := exists_placeIn (fun text htext => exists_line htext) h
  rwa [hflatten] at hplace

end Places

end Reckon.Text
