/-!
# Expressions

An expression is a tree whose leaves are numbers and variables. Operators and functions are kept by
name; what a name computes, and how many arguments a function takes, is looked up when the tree is
evaluated. Constants do not occur: they are numbers by the time a tree is built.
-/
namespace Reckon

inductive Expr where
  | number (value : Float)
  | var (name : String)
  | unary (operator : String) (operand : Expr)
  | binary (operator : String) (left right : Expr)
  | call (name : String) (arguments : List Expr)
deriving Repr

namespace Expr

/-- The parts directly below, from left to right. -/
def children : Expr → List Expr
  | number _ | var _ => []
  | unary _ e => [e]
  | binary _ l r => [l, r]
  | call _ args => args

mutual

def decEq : (a b : Expr) → Decidable (a = b)
  | number x, number y => decidable_of_iff (x = y) (by simp)
  | var x, var y => decidable_of_iff (x = y) (by simp)
  | unary op e, unary op' e' =>
    match decEq e e' with
    | isTrue he => decidable_of_iff (op = op') (by simp [he])
    | isFalse he => isFalse (by simp [he])
  | binary op l r, binary op' l' r' =>
    match decEq l l', decEq r r' with
    | isTrue hl, isTrue hr => decidable_of_iff (op = op') (by simp [hl, hr])
    | isFalse hl, _ => isFalse (by simp [hl])
    | _, isFalse hr => isFalse (by simp [hr])
  | call f args, call f' args' =>
    match decEqAll args args' with
    | isTrue ha => decidable_of_iff (f = f') (by simp [ha])
    | isFalse ha => isFalse (by simp [ha])
  | number _, var _ | number _, unary _ _ | number _, binary _ _ _ | number _, call _ _
  | var _, number _ | var _, unary _ _ | var _, binary _ _ _ | var _, call _ _
  | unary _ _, number _ | unary _ _, var _ | unary _ _, binary _ _ _ | unary _ _, call _ _
  | binary _ _ _, number _ | binary _ _ _, var _ | binary _ _ _, unary _ _
  | binary _ _ _, call _ _
  | call _ _, number _ | call _ _, var _ | call _ _, unary _ _ | call _ _, binary _ _ _ =>
    isFalse (by simp)

def decEqAll : (as bs : List Expr) → Decidable (as = bs)
  | [], [] => isTrue rfl
  | a :: as, b :: bs =>
    match decEq a b, decEqAll as bs with
    | isTrue ha, isTrue has => isTrue (by rw [ha, has])
    | isFalse ha, _ => isFalse (by simp [ha])
    | _, isFalse has => isFalse (by simp [has])
  | [], _ :: _ | _ :: _, [] => isFalse (by simp)

end

instance : DecidableEq Expr := decEq

end Expr

end Reckon
