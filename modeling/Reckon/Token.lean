/-!
# Tokens

A token is a piece of the source: what kind of piece it is, its text, and the characters it covers.
Positions count characters from the start of the source. A token of a fixed spelling is shown by its
kind alone.
-/
namespace Reckon

/-- The characters from `start` up to, and without, `stop`. -/
structure Span where
  start : Nat
  stop : Nat
deriving DecidableEq, Repr

inductive TokenKind where
  | number
  | identifier
  | operator
  | function
  | constant
  | lparen
  | rparen
  | comma
  /-- The end of the source. -/
  | eof
deriving DecidableEq, Repr

/-- What a kind of token is called in messages. -/
def TokenKind.name : TokenKind → String
  | .number => "Number"
  | .identifier => "Identifier"
  | .operator => "Operator"
  | .function => "Function"
  | .constant => "Constant"
  | .lparen => "LParen"
  | .rparen => "RParen"
  | .comma => "Comma"
  | .eof => "EOF"

structure Token where
  kind : TokenKind
  lexeme : String
  span : Span
deriving DecidableEq, Repr

namespace Token

/-- Whether the text says more than the kind does. -/
def showsLexeme (t : Token) : Bool :=
  match t.kind with
  | .number | .identifier | .operator | .function | .constant => true
  | .lparen | .rparen | .comma | .eof => false

def isOperator (t : Token) (operator : String) : Bool :=
  t.kind == .operator && t.lexeme == operator

/-- How a token is shown in a listing. -/
def render (t : Token) : String :=
  if t.showsLexeme then t.kind.name ++ "(" ++ t.lexeme ++ ")" else t.kind.name

def listing (tokens : List Token) : String := " ".intercalate (tokens.map render)

/-- The token that stands at the end of a source. -/
def endAt (position : Nat) : Token := ⟨.eof, "", ⟨position, position⟩⟩

theorem isOperator_iff {t : Token} {operator : String} :
    t.isOperator operator ↔ t.kind = .operator ∧ t.lexeme = operator := by
  simp [isOperator]

end Token

end Reckon
