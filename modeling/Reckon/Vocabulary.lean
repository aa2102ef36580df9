import Reckon.Text.Letter

/-!
# The vocabulary

Three tables say what can be computed: functions of one argument, functions of two arguments, and
constants. Operators are entries of the first two whose names are not words. Scanning, parsing and
evaluation consult the same tables, so a name is a function everywhere or nowhere.

Entries are found by their exact names. Whether a word names a function or a constant is decided in
lower case, so the tables' words are reached from either letter case.
-/
namespace Reckon.Vocabulary
open Text

/-- The smaller of two numbers; a number that is none gives way to the other argument. -/
def minimum (a b : Float) : Float :=
  if a.isNaN then b else if b.isNaN then a else if b < a then b else a

/-- The greater of two numbers; a number that is none gives way to the other argument. -/
def maximum (a b : Float) : Float :=
  if a.isNaN then b else if b.isNaN then a else if a < b then b else a

def unaryTable : List (String × (Float → Float)) :=
  [("-", fun x => -x),
    ("sin", Float.sin), ("cos", Float.cos), ("tan", Float.tan),
    ("sec", fun x => 1 / x.cos), ("csc", fun x => 1 / x.sin), ("cot", fun x => 1 / x.tan),
    ("asin", Float.asin), ("acos", Float.acos), ("atan", Float.atan),
    ("sqrt", Float.sqrt), ("ln", Float.log), ("log", Float.log10),
    ("abs", Float.abs), ("exp", Float.exp)]

/-- The functions of two arguments. A divisor of zero is refused before division is applied. -/
def binaryTable : List (String × (Float → Float → Float)) :=
  [("+", fun a b => a + b), ("-", fun a b => a - b), ("*", fun a b => a * b),
    ("/", fun a b => a / b), ("^", Float.pow),
    ("pow", Float.pow), ("min", minimum), ("max", maximum)]

/-- The constants: the binary64 numbers nearest to π and to e. -/
def constantTable : List (String × Float) :=
  [("pi", Float.ofBits 0x400921fb54442d18), ("e", Float.ofBits 0x4005bf0a8b145769)]

def unary? (name : String) : Option (Float → Float) := unaryTable.lookup name

def binary? (name : String) : Option (Float → Float → Float) := binaryTable.lookup name

/-- The names that are called with arguments in parentheses: the words among the entries. -/
def functionNames : List String :=
  (unaryTable.map Prod.fst ++ binaryTable.map Prod.fst).filter fun name =>
    name.toList.all Char.isAlpha

/-- Whether the word names a function, in either letter case. -/
def isFunctionName (word : String) : Bool := functionNames.contains (lower word)

def constant? (word : String) : Option Float := constantTable.lookup (lower word)

inductive Callable where
  | unary (function : Float → Float)
  | binary (function : Float → Float → Float)

def Callable.arity : Callable → Nat
  | .unary _ => 1
  | .binary _ => 2

/-- The function of this exact name; of two entries the one of one argument. -/
def callable? (name : String) : Option Callable :=
  if functionNames.contains name then
    match unary? name with
    | some function => some (.unary function)
    | none => (binary? name).map .binary
  else none

end Reckon.Vocabulary
