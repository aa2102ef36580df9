import Reckon.Expr.Eval
import Reckon.Expr.Parser
import Reckon.Expr.Printer
import Reckon.Token.Scanner

/-!
# Calculations

A calculation goes from a source to a value: the source is scanned into tokens, the tokens are
parsed into an expression, and the expression is evaluated. The first stage that fails decides the
error. What the earlier stages found can be shown as well.
-/
namespace Reckon

/-- The expression that a source spells. -/
def readExpr (source : String) : Except Error Expr := do
  let tokens ← (tokenize source).mapError .lex
  (Expr.parse tokens).mapError .parse

/-- The value of the expression that a source spells. -/
def calculate (source : String) (env : Environment) : Except Error Float := do
  let tree ← readExpr source
  (tree.eval env).mapError .eval

section Stages
variable {source : String} {tokens : List Token} {tree : Expr}

theorem readExpr_eq_parse (h : tokenize source = .ok tokens) :
    readExpr source = (Expr.parse tokens).mapError .parse := by
  rw [readExpr, h]
  rfl

theorem readExpr_eq_ok_iff :
    readExpr source = .ok tree ↔
      ∃ tokens, tokenize source = .ok tokens ∧ Expr.parse tokens = .ok tree := by
  cases htokens : tokenize source with
  | error cause =>
    rw [readExpr, htokens]
    exact ⟨nofun, nofun⟩
  | ok tokens =>
    rw [readExpr_eq_parse htokens]
    cases hparse : Expr.parse tokens <;> simp [hparse]

theorem calculate_eq_eval (h : readExpr source = .ok tree) (env : Environment) :
    calculate source env = (tree.eval env).mapError .eval := by
  rw [calculate, h]
  rfl

theorem calculate_eq_error {err : Error} (h : readExpr source = .error err) (env : Environment) :
    calculate source env = .error err := by
  rw [calculate, h]
  rfl

theorem calculate_eq_ok_iff {env : Environment} {x : Float} :
    calculate source env = .ok x ↔ ∃ tree, readExpr source = .ok tree ∧ tree.eval env = .ok x := by
  rw [calculate]
  cases hread : readExpr source with
  | error err => exact ⟨nofun, nofun⟩
  | ok tree => cases heval : tree.eval env <;> simp [bind, Except.bind, heval]

/-- A calculation fails with the error of the first stage that fails. -/
theorem calculate_eq_error_iff {env : Environment} {err : Error} :
    calculate source env = .error err ↔
      (∃ cause, tokenize source = .error cause ∧ err = .lex cause) ∨
      (∃ tokens cause, tokenize source = .ok tokens ∧ Expr.parse tokens = .error cause ∧
        err = .parse cause) ∨
      ∃ tokens tree cause, tokenize source = .ok tokens ∧ Expr.parse tokens = .ok tree ∧
        tree.eval env = .error cause ∧ err = .eval cause := by
  cases htokens : tokenize source with
  | error cause =>
    rw [calculate, readExpr, htokens]
    simp [bind, Except.bind, eq_comm]
  | ok tokens =>
    rw [calculate, readExpr_eq_parse htokens]
    cases hparse : Expr.parse tokens with
    | error cause => simp [bind, Except.bind, hparse, eq_comm]
    | ok tree =>
      cases heval : tree.eval env <;>
        simp [bind, Except.bind, hparse, heval, eq_comm]

end Stages

/-- The tokens and the expression of a source, a line for each that there is. -/
def stages (source : String) : List String :=
  match tokenize source with
  | .error _ => []
  | .ok tokens =>
    ("Tokens: " ++ Token.listing tokens) ::
      match Expr.parse tokens with
      | .error _ => []
      | .ok tree => ["AST: " ++ tree.render]

end Reckon
