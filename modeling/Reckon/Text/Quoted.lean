import Reckon.Text.ExtendingMark
import Reckon.Text.Unprintable

/-!
# Quoted text

Error messages show the text and the characters they are about between quotation marks. A backslash
escapes the backslash itself, the quotation mark in use and the four control characters with a
letter of their own. A character that would be invisible, or would attach itself to its neighbour,
is shown by its code point. The rule looks at one character at a time, so quoting a text is quoting
its characters one after another.
-/
namespace Reckon.Text.Quoted

/-- A code point in lower-case hexadecimal, between braces. -/
def codePoint (c : Char) : List Char :=
  ['\\', 'u', '\x7b'] ++ Nat.toDigits 16 c.toNat ++ ['\x7d']

/-- What is written for one character between the quotation marks `mark`. -/
def escape (mark c : Char) : List Char :=
  if c = '\x00' then ['\\', '0']
  else if c = '\t' then ['\\', 't']
  else if c = '\r' then ['\\', 'r']
  else if c = '\n' then ['\\', 'n']
  else if c = '\\' || c = mark then ['\\', c]
  else if isExtendingMark c || isUnprintable c then codePoint c
  else [c]

def between (mark : Char) (text : List Char) : String :=
  String.ofList (mark :: text.flatMap (escape mark) ++ [mark])

def ofString (text : String) : String := between '"' text.toList

def ofChar (c : Char) : String := between '\'' [c]

end Reckon.Text.Quoted
