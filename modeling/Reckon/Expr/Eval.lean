import Reckon.Vocabulary
import Reckon.Environment
import Reckon.Error
import Reckon.Expr

/-!
# Evaluating expressions

An expression is evaluated from the leaves up and from left to right, and the first failure is the
result. So an operand's failure comes before any complaint about the operator above it, and the
arguments of a call are evaluated before the function is looked up and before they are counted.
-/
namespace Reckon.Expr

/-- The value of an operator in front of an operand. -/
def applyUnary (operator : String) (x : Float) : Except EvalError Float :=
  match Vocabulary.unary? operator with
  | some function => .ok (function x)
  | none => .error (.unknownOperator operator)

/-- The value of an operator between two operands. Zero of either sign divides nothing. -/
def applyBinary (operator : String) (x y : Float) : Except EvalError Float :=
  match Vocabulary.binary? operator with
  | some function =>
    if operator = "/" ∧ y == 0 then .error .divisionByZero else .ok (function x y)
  | none => .error (.unknownOperator operator)

def applyCall (name : String) (values : List Float) : Except EvalError Float :=
  match Vocabulary.callable? name with
  | none => .error (.unknownFunction name)
  | some function =>
    match function, values with
    | .unary f, [x] => .ok (f x)
    | .binary f, [x, y] => .ok (f x y)
    | _, _ => .error (.arityMismatch name function.arity values.length)

mutual

def eval (env : Environment) : Expr → Except EvalError Float
  | number x => .ok x
  | var name =>
    match env.get? name with
    | some x => .ok x
    | none => .error (.undefinedVariable name)
  | unary op e => do
    let x ← e.eval env
    applyUnary op x
  | binary op l r => do
    let x ← l.eval env
    let y ← r.eval env
    applyBinary op x y
  | call name args => do
    let values ← evalAll env args
    applyCall name values

def evalAll (env : Environment) : List Expr → Except EvalError (List Float)
  | [] => .ok []
  | e :: rest => do
    let x ← e.eval env
    let xs ← evalAll env rest
    return x :: xs

end

end Reckon.Expr
