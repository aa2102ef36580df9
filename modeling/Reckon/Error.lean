import Reckon.Text.Quoted
import Reckon.Token

/-!
# Errors

What can go wrong, by the stage that finds it: the text has no tokens, the tokens are no expression,
or the expression has no value. An error is its cause and, where there is one, the position of the
fault; its name, its message and the tip that a user is given are functions of that.

Values of expressions do not know where they were written, so no evaluation error has a position.
-/
namespace Reckon
open Text

inductive LexError where
  /-- No token begins with the character. -/
  | unexpectedCharacter (character : Char) (position : Nat)
  /-- The text begins a token but is not one. -/
  | invalidToken (lexeme : String) (position : Nat)
  | tokenTooLong (limit : Nat) (position : Nat)
deriving DecidableEq, Repr

inductive ParseError where
  | unexpectedToken (found : TokenKind) (lexeme : String) (position : Nat)
  | unexpectedEnd (position : Nat)
  /-- The token follows a complete expression. -/
  | trailingInput (found : TokenKind) (lexeme : String) (position : Nat)
  | nestingTooDeep (limit : Nat) (position : Nat)
  /-- A number token that is no numeral. -/
  | unreadableNumber (lexeme : String) (position : Nat)
deriving DecidableEq, Repr

inductive EvalError where
  | undefinedVariable (name : String)
  | unknownOperator (operator : String)
  | unknownFunction (name : String)
  | arityMismatch (name : String) (expected received : Nat)
  | divisionByZero
deriving DecidableEq, Repr

inductive Error where
  | lex (cause : LexError)
  | parse (cause : ParseError)
  | eval (cause : EvalError)
deriving DecidableEq, Repr

namespace LexError

def position : LexError → Nat
  | unexpectedCharacter _ p | invalidToken _ p | tokenTooLong _ p => p

def name : LexError → String
  | unexpectedCharacter .. => "UnexpectedCharacter"
  | invalidToken .. => "InvalidToken"
  | tokenTooLong .. => "TokenTooLong"

def message : LexError → String
  | unexpectedCharacter c p => s!"unexpected character {Quoted.ofChar c} at {p}"
  | invalidToken text p => s!"invalid token {Quoted.ofString text} at {p}"
  | tokenTooLong limit p => s!"token longer than {limit} characters at {p}"

def tip : LexError → String
  | unexpectedCharacter c _ => s!"Remove the character `{c}`, it is not part of any token"
  | invalidToken text _ =>
    s!"`{text}` is not a complete token, is a digit missing after the decimal point?"
  | tokenTooLong limit _ => s!"Numbers and names are limited to {limit} characters"

end LexError

namespace ParseError

def position : ParseError → Nat
  | unexpectedToken _ _ p | unexpectedEnd p | trailingInput _ _ p | nestingTooDeep _ p
  | unreadableNumber _ p => p

def name : ParseError → String
  | unexpectedToken .. => "UnexpectedToken"
  | unexpectedEnd .. => "UnexpectedEnd"
  | trailingInput .. => "TrailingInput"
  | nestingTooDeep .. => "NestingTooDeep"
  | unreadableNumber .. => "NumberParseError"

def message : ParseError → String
  | unexpectedToken kind text p =>
    s!"unexpected token {kind.name} {Quoted.ofString text} at {p}"
  | unexpectedEnd p => s!"unexpected end of input at {p}"
  | trailingInput kind text p => s!"trailing input {kind.name} {Quoted.ofString text} at {p}"
  | nestingTooDeep limit p => s!"expression nested deeper than {limit} levels at {p}"
  | unreadableNumber text _ => s!"error parsing number: {Quoted.ofString text}"

def tip? : ParseError → Option String
  | unexpectedToken kind text _ =>
    if text.isEmpty then some s!"Unexpected {kind.name}"
    else some s!"Unexpected {kind.name} `{text}`"
  | unexpectedEnd _ => some "The expression ended early, is an operand or `)` missing?"
  | trailingInput _ text _ =>
    some s!"Unexpected `{text}` after a complete expression, is an operator missing?"
  | nestingTooDeep limit _ =>
    some s!"The expression nests deeper than {limit} levels, split it into smaller assignments"
  | unreadableNumber .. => none

end ParseError

namespace EvalError

def name : EvalError → String
  | undefinedVariable _ => "UndefinedVariable"
  | unknownOperator _ => "UnknownOperator"
  | unknownFunction _ => "UnknownFunction"
  | arityMismatch .. => "ArityMismatch"
  | divisionByZero => "DivisionByZero"

def message : EvalError → String
  | undefinedVariable x => s!"undefined variable {Quoted.ofString x}"
  | unknownOperator op => s!"unknown operator {Quoted.ofString op}"
  | unknownFunction f => s!"unknown function {Quoted.ofString f}"
  | arityMismatch f expected received =>
    s!"function {Quoted.ofString f} expects {expected} arguments, received {received}"
  | divisionByZero => "division by zero"

def tip? : EvalError → Option String
  | undefinedVariable x => some s!"Variable `{x}` is not defined, assign it with `{x} = ...`"
  | unknownOperator op => some s!"Operator `{op}` is not supported"
  | unknownFunction f => some s!"Function `{f}` is not defined"
  | arityMismatch f expected received =>
    let plural := if expected = 1 then "" else "s"
    some s!"`{f}` expects {expected} argument{plural}, received {received}"
  | divisionByZero => none

end EvalError

namespace Error

def name : Error → String
  | lex e => e.name
  | parse e => e.name
  | eval e => e.name

def message : Error → String
  | lex e => e.message
  | parse e => e.message
  | eval e => e.message

/-- Where the fault is, for those errors that know it. -/
def position? : Error → Option Nat
  | lex e => some e.position
  | parse e => some e.position
  | eval _ => none

/-- Advice on mending the fault, if there is any. -/
def tip? : Error → Option String
  | lex e => some e.tip
  | parse e => e.tip?
  | eval e => e.tip?

end Error

section Stages
variable {ε ε' α : Type}

@[simp] theorem mapError_ok (f : ε → ε') (a : α) : (Except.ok a).mapError f = .ok a := rfl

@[simp] theorem mapError_error (f : ε → ε') (e : ε) :
    (Except.error e : Except ε α).mapError f = .error (f e) := rfl

theorem eq_ok_of_toOption {answer : Except ε α} {a : α} (h : answer.toOption = some a) :
    answer = .ok a := by
  cases answer with
  | error err => cases h
  | ok b =>
    cases h
    rfl

end Stages

end Reckon
