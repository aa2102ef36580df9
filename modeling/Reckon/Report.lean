import Reckon.Error
import Reckon.Text.Blank
import Reckon.Text.Line

/-!
# Reports

A report shows an error to the user. Its first line has the error's name and the tip. Where the
error has a position in the source, three more lines show the source line it is in, behind the
line's number, and under it an arrow with its head below the faulty character:

```text
Error: UnexpectedCharacter (Remove the character `#`, it is not part of any token)
  |
1 | 3 + #
  | ----^
```

Spaces that the source line begins with are left out, and the arrow is shorter by as many.

The text is defined for arrows of any width, but one wider than `arrowLimit` cannot be drawn: then
there is no report, and the program that asks for it breaks off.
-/
namespace Reckon.Report
open Text

/-- What is wrong and what can be done about it. -/
def headline (e : Error) : String :=
  match e.tip? with
  | none => s!"Error: {e.name}\n"
  | some tip => s!"Error: {e.name} ({tip})\n"

theorem headline_of_none {e : Error} (h : e.tip? = none) :
    headline e = "Error: " ++ e.name ++ "\n" := by
  unfold headline
  rw [h]
  rfl

theorem headline_of_some {e : Error} {tip : String} (h : e.tip? = some tip) :
    headline e = "Error: " ++ e.name ++ " (" ++ tip ++ ")\n" := by
  unfold headline
  rw [h]
  rfl

/-- The bar that stands in front of a line without a number, as far right as the one behind the
number `line`. -/
def margin (line : Nat) : String :=
  String.ofList (List.replicate ((toString line).length + 1) ' ') ++ "|"

/-- The spaces that a line begins with. -/
def indent (text : List Char) : Nat := (text.takeWhile (· == ' ')).length

def sourceLine (p : Place) : String :=
  s!"{p.line} | " ++ String.ofList (dropBlanksEnd (p.text.drop (indent p.text)))

/-- The columns that the arrow to a place takes up, its head included. -/
def arrowWidth (p : Place) : Nat := p.column - indent p.text + 1

/-- The width of the widest arrow that can be drawn. Widths are handed to the formatter as 16 bits. -/
def arrowLimit : Nat := 65535

/-- The arrow to a place. Where it is wider than `arrowLimit`, this is what it would look like. -/
def arrow (p : Place) : String :=
  margin p.line ++ " " ++ String.ofList (List.replicate (p.column - indent p.text) '-') ++ "^"

def excerpt (p : Place) : String :=
  margin p.line ++ "\n" ++ sourceLine p ++ "\n" ++ arrow p ++ "\n"

/-- What the report of an error in a source reads, if it can be drawn. -/
def render (e : Error) (source : String) : String :=
  match e.position?.bind (placeOf source) with
  | none => headline e
  | some place => headline e ++ excerpt place

/-- The arrow of the report, if it has one, is not too wide to be drawn. -/
def Drawable (e : Error) (source : String) : Prop :=
  ∀ place ∈ e.position?.bind (placeOf source), arrowWidth place ≤ arrowLimit

instance (e : Error) (source : String) : Decidable (Drawable e source) :=
  inferInstanceAs (Decidable (∀ place ∈ e.position?.bind (placeOf source), _))

/-- The report of an error in a source. There is none where drawing it breaks the program off. -/
def render? (e : Error) (source : String) : Option String :=
  if Drawable e source then some (render e source) else none

theorem drawable_of_no_position {e : Error} (h : e.position? = none) (source : String) :
    Drawable e source := by
  simp [Drawable, h]

end Reckon.Report
