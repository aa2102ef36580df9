import Reckon.Session
import Reckon.Proofs.Concatenation
import Reckon.Proofs.History
import Reckon.Proofs.Placement
import Reckon.Proofs.Places

/-!
# The width of arrows

The arrow of a report is at most one column wider than the source is long, so a line of fewer than
`arrowLimit` characters never makes the program break off. A longer one may, and the bound is sharp:
behind a source that can be scanned and stands on one line, a character that no token begins with
makes it break off just where the arrow under the whole of that source, without the spaces that it
begins with, is already as wide as can be drawn.
-/
namespace Reckon
open Text

theorem Text.column_le_of_placeIn {line position : Nat} {pieces : List (List Char)} {place : Place}
    (h : placeIn line pieces position = some place) : place.column ≤ position := by
  induction pieces generalizing line position with
  | nil =>
    simp only [placeIn, Option.ite_none_right_eq_some, Option.some.injEq] at h
    obtain ⟨-, rfl⟩ := h
    exact Nat.zero_le position
  | cons text pieces ih =>
    cases pieces with
    | nil =>
      simp only [placeIn, Option.ite_none_right_eq_some, Option.some.injEq] at h
      obtain ⟨-, rfl⟩ := h
      exact Nat.le_refl position
    | cons next more =>
      rw [placeIn] at h
      · split at h
        · cases h
          exact Nat.le_refl position
        · exact Nat.le_trans (ih h) (Nat.sub_le ..)
      · exact List.cons_ne_nil next more

namespace Report

theorem arrowWidth_le {source : String} {position : Nat} {place : Place}
    (h : placeOf source position = some place) : arrowWidth place ≤ position + 1 := by
  have hcolumn := column_le_of_placeIn h
  rw [arrowWidth]
  omega

theorem drawable_of_length {source : String} {env : Environment} {err : Error}
    (h : calculate source env = .error err) (hlength : source.length < arrowLimit) :
    Drawable err source := by
  intro place hplace
  obtain ⟨position, hposition, hplace⟩ := Option.bind_eq_some_iff.mp hplace
  have hle := (points_of_calculate h position hposition).le_length
  have hwidth := arrowWidth_le hplace
  rw [String.length_toList] at hle
  omega

theorem indent_concat (text : List Char) {c : Char} (hc : c ≠ ' ') :
    indent (text ++ [c]) = indent text := by
  induction text with
  | nil => simp [indent, hc]
  | cons d text ih =>
    rw [indent, indent, List.cons_append, List.takeWhile_cons, List.takeWhile_cons]
    split
    · rw [List.length_cons, List.length_cons]
      exact congrArg (· + 1) ih
    · rfl

end Report

theorem Text.placeOf_one_line {source : String} {position : Nat} (hline : '\n' ∉ source.toList)
    (hne : source.toList ≠ []) (hposition : position ≤ source.toList.length) :
    placeOf source position = some ⟨1, source.toList, position⟩ := by
  have hcut : Cut (· == '\n') source.toList [source.toList] :=
    .rest hne fun c hc hnewline => hline (eq_of_beq hnewline ▸ hc)
  rw [placeOf, lines, hcut.cutAfter_eq, placeIn, if_pos hposition]

namespace Line
variable {front source text : String} {tokens : List Token} {c : Char}

theorem length_source?_le (h : source ∈ (ofText text).source?) : source.length ≤ text.length := by
  unfold ofText at h
  dsimp only at h
  split at h
  · cases h
    exact Nat.le_refl _
  · rename_i equals rest hdrop
    have hle := (List.dropWhile_sublist (l := text.toList) (· != '=')).length_le
    rw [hdrop, List.length_cons, String.length_toList] at hle
    split at h
    · cases h
      rw [← String.length_toList, String.toList_ofList]
      omega
    · cases h

/-- A line that is short enough has an answer or a report. -/
theorem breaksOff_of_length (h : text.length < Report.arrowLimit) :
    (ofText text).breaksOff = false := by
  cases hsource : (ofText text).source? with
  | none => simp [breaksOff, hsource]
  | some source =>
    cases hread : readExpr source with
    | ok tree => simp [breaksOff, hsource, hread]
    | error err =>
      have hlength : source.length < Report.arrowLimit :=
        Nat.lt_of_le_of_lt (length_source?_le hsource) h
      have hdrawable := Report.drawable_of_length (calculate_eq_error hread .empty) hlength
      rw [breaksOff_of_error hsource hread, decide_eq_true hdrawable]
      rfl

theorem not_isNamePart_of_ofStart? (h : Language.ofStart? c = none) : ¬ isNamePart c := by
  unfold Language.ofStart? at h
  split at h
  · cases h
  · split at h
    · cases h
    · rename_i hdigit hname
      exact fun hpart => (isNamePart_iff.mp hpart).elim hname hdigit

theorem tokenize_fault (h : tokenize front = .ok tokens) (hblank : ¬ isBlank c)
    (hstart : Language.ofStart? c = none) (hpoint : c ≠ '.') :
    tokenize (front.push c) = .error (.unexpectedCharacter c front.length) := by
  have hfault : Munch (0 + front.toList.length) [c]
      (.error (.unexpectedCharacter c front.length)) := by
    rw [Nat.zero_add, String.length_toList]
    exact .unexpected hblank hstart
  apply Munch.tokenize_eq
  rw [String.toList_push]
  refine (munch_of_tokenize h).append ?_ hfault
  intro before l run ts _ hhas _ d hd
  cases hd
  exact hhas.not_grown ⟨not_isNamePart_of_ofStart? hstart, hpoint⟩

/-- A character that no token begins with, behind a source that can be scanned. -/
theorem breaksOff_fault_iff (h : tokenize front = .ok tokens) (hline : '\n' ∉ front.toList)
    (hblank : ¬ isBlank c) (hstart : Language.ofStart? c = none) (hpoint : c ≠ '.') :
    (expression (front.push c)).breaksOff ↔
      Report.arrowLimit ≤ front.length - Report.indent front.toList := by
  have hread : readExpr (front.push c) = .error (.lex (.unexpectedCharacter c front.length)) := by
    rw [readExpr, tokenize_fault h hblank hstart hpoint]
    rfl
  have hnewline : c ≠ '\n' := by
    rintro rfl
    exact hblank (by decide)
  have hspace : c ≠ ' ' := by
    rintro rfl
    exact hblank (by decide)
  have hplace : placeOf (front.push c) front.length =
      some ⟨1, front.toList ++ [c], front.length⟩ := by
    rw [placeOf_one_line (by simp [hline, hnewline.symm]) (by simp)
      (by simp [String.length_toList]), String.toList_push]
  have hdrawable : Report.Drawable (.lex (.unexpectedCharacter c front.length)) (front.push c) ↔
      front.length - Report.indent front.toList + 1 ≤ Report.arrowLimit := by
    simp [Report.Drawable, Error.position?, LexError.position, hplace, Report.arrowWidth,
      Report.indent_concat _ hspace]
  rw [breaksOff_of_error rfl hread, Bool.not_eq_true', decide_eq_false_iff_not, hdrawable]
  omega

theorem exists_tokenize_append_blanks {blanks : String} (h : tokenize front = .ok tokens)
    (hblanks : ∀ c ∈ blanks.toList, isBlank c) :
    ∃ tokens', tokenize (front ++ blanks) = .ok tokens' := by
  have hend := separates_blanks (p := 0 + front.toList.length) hblanks [] _ .done
  rw [List.append_nil] at hend
  have hboth := (munch_of_tokenize h).append ?_ hend
  · rw [← String.toList_append] at hboth
    exact ⟨_, hboth.tokenize_eq⟩
  · intro before l run ts _ _ _ c hc hgrown
    exact hgrown.not_isBlank c (by simp) (hblanks c (List.mem_of_mem_head? hc))

/-- A number and, so many spaces behind it, a character that no token begins with. -/
def distantFault (n : Nat) : String := ("1" ++ String.ofList (List.replicate n ' ')).push '#'

theorem breaksOff_distantFault_iff (n : Nat) :
    (ofText (distantFault n)).breaksOff ↔ 65534 ≤ n := by
  have hone : tokenize "1" = .ok [⟨.number, "1", ⟨0, 1⟩⟩, .endAt 1] := by
    apply eq_ok_of_toOption
    decide +kernel
  have hspaces : ∀ c ∈ (String.ofList (List.replicate n ' ')).toList, isBlank c := by
    intro c hc
    rw [String.toList_ofList] at hc
    rw [List.eq_of_mem_replicate hc]
    decide
  obtain ⟨tokens, htokens⟩ := exists_tokenize_append_blanks hone hspaces
  have hassigns : '=' ∉ (distantFault n).toList := by
    simp [distantFault]
  rw [ofText_of_not_mem hassigns, distantFault,
    breaksOff_fault_iff htokens (by simp) (by decide) (by decide) (by decide)]
  have hindent : Report.indent ("1" ++ String.ofList (List.replicate n ' ')).toList = 0 := by
    simp [Report.indent]
  have hlength : ("1" ++ String.ofList (List.replicate n ' ')).length = n + 1 := by
    rw [← String.length_toList]
    simp
  rw [hindent, hlength, Report.arrowLimit]
  omega

end Line

end Reckon
