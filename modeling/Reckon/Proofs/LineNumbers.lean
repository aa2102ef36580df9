import Reckon.Proofs.Places

/-!
# Line numbers and columns

A position in a text is told by the number of its line and a column. Both can be told without the
lines: the number is one more than there are newlines in front of the position, and the column is what
the lines in front of it leave of the position. So a place leads back to the position that it is of.

A line ends with its newline, which belongs to it, so in front of a position there are as many
newlines as there are whole lines. The end of the text belongs to the last line, also where that line
ends with a newline; it is the only position without a character, and behind it there is none.
-/
namespace Reckon.Text

section Cuts
variable {α : Type} {isEnd : α → Bool} {list piece : List α} {pieces before after : List (List α)}

theorem Cut.flatten_eq (h : Cut isEnd list pieces) : pieces.flatten = list := by
  rw [← h.cutAfter_eq, flatten_cutAfter]

/-- Each piece in front of another one has one element to cut after. -/
theorem Cut.countP_before (h : Cut isEnd list (before ++ piece :: after)) :
    before.flatten.countP isEnd = before.length := by
  induction before generalizing list with
  | nil => rfl
  | cons first before ih =>
    obtain ⟨front, a, rest, rfl, hfront, ha, hrest⟩ := Cut.exists_of_cons h (by simp)
    have hnone : front.countP isEnd = 0 := List.countP_eq_zero.mpr hfront
    rw [List.flatten_cons, List.countP_append, List.countP_append, hnone, List.countP_singleton,
      if_pos ha, ih hrest, List.length_cons]
    omega

/-- In front of its last element a piece has none to cut after. -/
theorem Cut.countP_take {column : Nat} (h : Cut isEnd list (before ++ piece :: after))
    (hcolumn : column < piece.length) : (piece.take column).countP isEnd = 0 := by
  have hpiece : piece ∈ cutAfter isEnd list := by
    rw [h.cutAfter_eq]
    simp
  obtain ⟨front, hfront, hends⟩ := exists_front_of_mem_cutAfter hpiece
  have htake : ∀ a ∈ piece.take column, a ∈ front := by
    intro a ha
    rcases hends with rfl | ⟨b, -, rfl⟩
    · exact List.mem_of_mem_take ha
    · rw [List.length_append, List.length_singleton] at hcolumn
      rw [List.take_append_of_le_length (Nat.le_of_lt_succ hcolumn)] at ha
      exact List.mem_of_mem_take ha
  exact List.countP_eq_zero.mpr fun a ha => hfront a (htake a ha)

end Cuts

section Places
variable {source text : List Char} {pieces before after : List (List Char)} {position column : Nat}

theorem placeIn_eq_none (line : Nat) (h : pieces.flatten.length < position) :
    placeIn line pieces position = none := by
  induction pieces generalizing line position with
  | nil => exact if_neg (Nat.ne_of_gt h)
  | cons text more ih =>
    rw [List.flatten_cons, List.length_append] at h
    cases more with
    | nil =>
      rw [placeIn, if_neg]
      omega
    | cons next more =>
      rw [placeIn, if_neg]
      · exact ih (line + 1) (by omega)
      · omega
      · exact List.cons_ne_nil next more

/-- The place is that of the position of a character, in the pieces that the source is cut into. -/
structure Place.Locates (place : Place) (source : List Char) (pieces : List (List Char))
    (position : Nat) : Prop where
  line_eq : place.line = 1 + (source.take position).count '\n'
  piece : pieces[place.line - 1]? = some place.text
  column_lt : place.column < place.text.length
  offset : (pieces.take (place.line - 1)).flatten.length + place.column = position
  char : place.text[place.column]? = source[position]?

theorem locates_of_cut (h : Cut (· == '\n') source (before ++ text :: after))
    (hcolumn : column < text.length) :
    Place.Locates ⟨1 + before.length, text, column⟩ source (before ++ text :: after)
      (before.flatten.length + column) := by
  have hsource := h.flatten_eq
  rw [List.flatten_append, List.flatten_cons] at hsource
  have hfront : source.take (before.flatten.length + column) =
      before.flatten ++ text.take column := by
    rw [← hsource, List.take_length_add_append, List.take_append_of_le_length (Nat.le_of_lt hcolumn)]
  constructor
  · dsimp only
    rw [hfront, List.count, List.countP_append, h.countP_before, h.countP_take hcolumn, Nat.add_zero]
  · simp
  · exact hcolumn
  · simp
  · rw [← hsource, List.getElem?_append_right (Nat.le_add_right _ column), Nat.add_sub_cancel_left,
      List.getElem?_append_left hcolumn]

/-- The place of a position leads back to it. A position in front of the end of a source is in the line
that its character is in, and the end is behind the last line; there are no others. -/
theorem placeOf_locates (source : String) (position : Nat) (pieces : List (List Char))
    (h : Cut (· == '\n') source.toList pieces) :
    (placeOf source position = none ↔ source.length < position) ∧
      (position < source.length → ∃ place, placeOf source position = some place ∧
        place.Locates source.toList pieces position) ∧
      (position = source.length → 0 < source.length →
        ∃ text, pieces.getLast? = some text ∧
          placeOf source position = some ⟨pieces.length, text, text.length⟩) ∧
      (position = source.length → source.length = 0 →
        placeOf source position = some ⟨1, [], 0⟩) := by
  have hplace : placeOf source position = placeIn 1 pieces position := by
    rw [placeOf, lines, h.cutAfter_eq]
  have hlength : pieces.flatten.length = source.length := by
    rw [h.flatten_eq, String.length_toList]
  refine ⟨⟨?past, ?nothing⟩, ?inside, ?stop, ?empty⟩
  case past =>
    intro hnone
    apply Nat.lt_of_not_le
    intro hle
    rw [← String.length_toList] at hle
    obtain ⟨place, hsome, -⟩ := exists_placeOf hle
    rw [hnone] at hsome
    cases hsome
  case nothing =>
    intro hlt
    rw [hplace, placeIn_eq_none 1 (hlength ▸ hlt)]
  case inside =>
    intro hlt
    obtain ⟨before, text, after, column, rfl, hcolumn, rfl⟩ := exists_piece (hlength ▸ hlt)
    rw [hplace, placeIn_append 1 before (.inl hcolumn)]
    exact ⟨_, rfl, locates_of_cut h hcolumn⟩
  case stop =>
    intro hposition hne
    rcases List.eq_nil_or_concat pieces with rfl | ⟨before, text, rfl⟩
    · rw [← hlength] at hne
      exact absurd hne (Nat.lt_irrefl 0)
    · rw [List.concat_eq_append] at hlength hplace ⊢
      rw [hplace, hposition, ← hlength, placeIn_end]
      refine ⟨text, by simp, ?_⟩
      rw [List.length_append, List.length_singleton, Nat.add_comm 1]
  case empty =>
    intro hposition hempty
    have hsource : source = "" := String.length_eq_zero_iff.mp hempty
    rw [hposition, hsource]
    rfl

/-- On two lines, `é` and `+1`, the sign is the first character of the second line, which ends with its
newline at position 5. -/
theorem placeOf_locates_second_line :
    Cut (· == '\n') "é\n+1\n".toList [['é', '\n'], ['+', '1', '\n']] ∧
      (∃ place, placeOf "é\n+1\n" 2 = some place ∧
        place.Locates "é\n+1\n".toList [['é', '\n'], ['+', '1', '\n']] 2) ∧
      placeOf "é\n+1\n" 5 = some ⟨2, ['+', '1', '\n'], 3⟩ ∧ placeOf "é\n+1\n" 6 = none := by
  have hpieces : cutAfter (· == '\n') "é\n+1\n".toList = [['é', '\n'], ['+', '1', '\n']] := by
    decide
  have hcut : Cut (· == '\n') "é\n+1\n".toList [['é', '\n'], ['+', '1', '\n']] := by
    rw [← hpieces]
    exact cut_cutAfter _ _
  obtain ⟨-, hinside, -⟩ := placeOf_locates "é\n+1\n" 2 _ hcut
  obtain ⟨-, -, hstop, -⟩ := placeOf_locates "é\n+1\n" 5 _ hcut
  obtain ⟨hnone, -⟩ := placeOf_locates "é\n+1\n" 6 _ hcut
  obtain ⟨text, htext, hplace⟩ := hstop (by decide) (by decide)
  cases htext
  exact ⟨hcut, hinside (by decide), hplace, hnone.mpr (by decide)⟩

end Places

end Reckon.Text
