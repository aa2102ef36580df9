/-!
# Lines

A text is cut after every newline, so that each line but the last ends with one, no line is empty,
and the lines put together are the text again. A position in the text is a column of one of the
lines; the position at the end of the text is the column behind the last line.
-/
namespace Reckon.Text

/-- The pieces of a list, cut after every element that `isEnd` holds of. -/
def cutAfter {α : Type} (isEnd : α → Bool) : List α → List (List α)
  | [] => []
  | a :: rest =>
    if isEnd a then [a] :: cutAfter isEnd rest
    else match cutAfter isEnd rest with
      | [] => [[a]]
      | piece :: more => (a :: piece) :: more

/-- The lines of a text, each with its newline. -/
def lines (text : List Char) : List (List Char) := cutAfter (· == '\n') text

/-- A column of a line. -/
structure Place where
  /-- The line's number, counted from one. -/
  line : Nat
  /-- The line's text, with its newline. -/
  text : List Char
  /-- The number of characters in front of the place. -/
  column : Nat
deriving DecidableEq, Repr

/-- The place of a position in the lines that begin at the line numbered `line`. -/
def placeIn (line : Nat) : List (List Char) → Nat → Option Place
  | [], position => if position = 0 then some ⟨line, [], 0⟩ else none
  | [text], position => if position ≤ text.length then some ⟨line, text, position⟩ else none
  | text :: more, position =>
    if position < text.length then some ⟨line, text, position⟩
    else placeIn (line + 1) more (position - text.length)

def placeOf (text : String) (position : Nat) : Option Place :=
  placeIn 1 (lines text.toList) position

theorem flatten_cutAfter {α : Type} (isEnd : α → Bool) (list : List α) :
    (cutAfter isEnd list).flatten = list := by
  induction list with
  | nil => rfl
  | cons a rest ih =>
    unfold cutAfter
    split
    · rw [List.flatten_cons, ih]
      rfl
    · split
      · rename_i h
        rw [h] at ih
        rw [← ih]
        rfl
      · rename_i h
        rw [h] at ih
        rw [← ih]
        rfl

end Reckon.Text
