import Reckon.Vocabulary
import Reckon.Token

/-!
# Token classes

A token class is a set of texts, together with texts that are worth reading on for because they
can still grow into one of the set. Numbers are digits with an optional decimal part, and a point
with no digit behind it is unfinished. Functions and constants are names as well, which has two
consequences. Their classes need no unfinished texts, since every text on the way to one is a name.
And a text may be complete in two classes; then the kind is decided by the sets and not by the order
of the classes, function before constant before name.
-/
namespace Reckon
open Text

/-- How well a text fits a token class. -/
inductive Fit where
  /-- The text is not in the class, which gives no reason to read on. -/
  | rejected
  /-- The text is not in the class, but a longer text that begins with it may be. -/
  | unfinished
  | complete
deriving DecidableEq, Repr

/-- A kind of token and the texts that are of that kind. -/
structure TokenClass where
  kind : TokenKind
  fit : List Char → Fit

namespace TokenClass

/-- The fit of a class that no text is halfway into. -/
def completeIf (holds : Bool) : Fit := if holds then .complete else .rejected

/-- Numbers: digits, then perhaps a point and digits. -/
def numberFit (text : List Char) : Fit :=
  if (text.takeWhile Char.isDigit).isEmpty then .rejected
  else match text.dropWhile Char.isDigit with
    | [] => .complete
    | ['.'] => .unfinished
    | '.' :: places => completeIf (places.all Char.isDigit)
    | _ => .rejected

def identifierFit (text : List Char) : Fit := completeIf (isName text)

/-- The operators, each of one character. -/
def operatorFit : List Char → Fit
  | [c] => completeIf (['+', '-', '*', '/', '^'].contains c)
  | _ => .rejected

def functionFit (text : List Char) : Fit :=
  completeIf (isName text && Vocabulary.isFunctionName (String.ofList text))

def constantFit (text : List Char) : Fit :=
  completeIf (isName text && (Vocabulary.constant? (String.ofList text)).isSome)

/-- The fit of a class of one character. -/
def singleFit (c : Char) (text : List Char) : Fit := completeIf (text == [c])

/-- The classes that a source is scanned with. -/
def all : List TokenClass :=
  [⟨.number, numberFit⟩, ⟨.identifier, identifierFit⟩, ⟨.operator, operatorFit⟩,
    ⟨.function, functionFit⟩, ⟨.constant, constantFit⟩,
    ⟨.lparen, singleFit '('⟩, ⟨.rparen, singleFit ')'⟩, ⟨.comma, singleFit ','⟩]

/-- Whether the text is a token or can grow into one. -/
def accepts (classes : List TokenClass) (text : List Char) : Bool :=
  classes.any fun c => c.fit text != .rejected

/-- The kinds that the text is complete in, in the order of the classes. -/
def completeKinds (classes : List TokenClass) (text : List Char) : List TokenKind :=
  (classes.filter fun c => c.fit text == .complete).map kind

/-- The kind of a finished text. -/
def classify (classes : List TokenClass) (text : List Char) : Option TokenKind :=
  let kinds := completeKinds classes text
  if kinds.contains .function then some .function
  else if kinds.contains .constant then some .constant
  else kinds.head?

@[simp] theorem completeIf_eq_complete {b : Bool} : completeIf b = .complete ↔ b := by
  cases b <;> simp [completeIf]

@[simp] theorem completeIf_eq_rejected {b : Bool} : completeIf b = .rejected ↔ b = false := by
  cases b <;> simp [completeIf]

theorem accepts_iff {classes : List TokenClass} {text : List Char} :
    accepts classes text ↔ ∃ c ∈ classes, c.fit text ≠ .rejected := by
  simp [accepts]

theorem accepts_eq_false_iff {classes : List TokenClass} {text : List Char} :
    accepts classes text = false ↔ ∀ c ∈ classes, c.fit text = .rejected := by
  simp [accepts]

end TokenClass

end Reckon
