import Reckon.Decimal

/-!
# The text of numbers

A number is written with the fewest digits that read back to it, in positional notation whatever
its size, with no point when it is whole. Reading is more generous: digits with an optional point
on either side, an optional exponent, an optional sign, and the words for the infinities and for
the number that is none, in any letter case. Both directions are exact; nothing is rounded twice.
-/
namespace Reckon.Text.Number
open Binary64

/-- The rank of the number that is none. -/
def notANumber : Nat := infinity + binade / 2

/-- A decimal without an exponent. A point stands before the last `-exponent` digits, with at least
one digit in front of it. -/
def positional (d : Decimal) : List Char :=
  let digits := Nat.toDigits 10 d.coefficient
  match d.exponent with
  | .ofNat zeros => digits ++ List.replicate zeros '0'
  | .negSucc n =>
    let padded := List.replicate (n + 2 - digits.length) '0' ++ digits
    let whole := padded.length - (n + 1)
    padded.take whole ++ '.' :: padded.drop whole

def magnitude (rank : Nat) : List Char :=
  if rank = infinity then ['i', 'n', 'f'] else positional (Decimal.shortest rank)

def render (x : Float) : String :=
  if infinity < rank x then "NaN"
  else if isNegative x then String.ofList ('-' :: magnitude (rank x))
  else String.ofList (magnitude (rank x))

/-- A natural number in decimal digits, of which there is at least one. -/
def natural? (text : List Char) : Option Nat :=
  if text.isEmpty then none
  else if text.all Char.isDigit then some (Nat.ofDigitChars 10 text 0)
  else none

def integer? : List Char → Option Int
  | '-' :: digits => (natural? digits).map fun n => -n
  | '+' :: digits => (natural? digits).map fun n => n
  | digits => (natural? digits).map fun n => n

/-- The exponent that a numeral ends with, if it has one. -/
def exponent? : List Char → Option Int
  | [] => some 0
  | c :: rest => if c = 'e' || c = 'E' then integer? rest else none

/-- The digits after the point, if a point comes next, and what follows them. -/
def fraction : List Char → List Char × List Char
  | '.' :: rest => (rest.takeWhile Char.isDigit, rest.dropWhile Char.isDigit)
  | rest => ([], rest)

def decimal? (text : List Char) : Option Decimal :=
  let whole := text.takeWhile Char.isDigit
  let (places, rest) := fraction (text.dropWhile Char.isDigit)
  if whole.isEmpty && places.isEmpty then none
  else (exponent? rest).map fun exponent =>
    ⟨Nat.ofDigitChars 10 (whole ++ places) 0, exponent - places.length⟩

/-- The rank of what is written without a sign. -/
def rank? (text : List Char) : Option Nat :=
  let word := text.map Char.toLower
  if word = ['i', 'n', 'f'] || word = ['i', 'n', 'f', 'i', 'n', 'i', 't', 'y'] then some infinity
  else if word = ['n', 'a', 'n'] then some notANumber
  else (decimal? text).map Decimal.nearestRank

/-- The number that a text stands for, correctly rounded. -/
def read? (text : String) : Option Float :=
  match text.toList with
  | '-' :: rest => (rank? rest).map (ofRank true)
  | '+' :: rest => (rank? rest).map (ofRank false)
  | rest => (rank? rest).map (ofRank false)

end Reckon.Text.Number
