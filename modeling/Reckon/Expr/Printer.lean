import Reckon.Expr
import Reckon.Text.Number

/-!
# Printing expressions

An expression is printed in infix notation with parentheses around every operation, so that the
text shows the tree and neither precedence nor associativity is needed to read it.
-/
namespace Reckon.Expr
open Text

mutual

/-- The fully parenthesised text of an expression. -/
def render : Expr → String
  | number x => Number.render x
  | var x => x
  | unary op e => "(" ++ op ++ e.render ++ ")"
  | binary op l r => "(" ++ l.render ++ " " ++ op ++ " " ++ r.render ++ ")"
  | call f args => f ++ "(" ++ ", ".intercalate (renderAll args) ++ ")"

def renderAll : List Expr → List String
  | [] => []
  | e :: rest => e.render :: renderAll rest

end

theorem renderAll_eq_map (args : List Expr) : renderAll args = args.map render := by
  induction args with
  | nil => rfl
  | cons e rest ih => rw [renderAll, ih, List.map_cons]

end Reckon.Expr
