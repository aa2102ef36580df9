import Reckon.Proofs.Variables

/-!
# What a result depends on

The value of a source, or its error, can depend on the environment only through the variables of its
tree. A node of a tree that is no variable looks up operators and functions, which no environment
changes, and constants are numbers before any environment is looked at. The variables of a tree are
names among the tokens of its source.

So two environments that agree on the names of a source give it the same result. Whatever else they
bind makes no difference, and neither does a binding that no source can name.
-/
namespace Reckon
open Text

/-- The texts of the names among the tokens of a source. -/
def namesIn (source : String) : List String :=
  match tokenize source with
  | .error _ => []
  | .ok tokens => (tokens.filter fun t => t.kind == .identifier).map Token.lexeme

namespace Expr
variable {env env' : Environment} {x : String}

mutual

/-- Environments that agree on the variables of an expression give it the same value or the same
error. -/
theorem eval_congr (e : Expr) (h : ∀ x, var x ∈ e.postorder → env.get? x = env'.get? x) :
    e.eval env = e.eval env' := by
  match e with
  | number x => rw [eval, eval]
  | var x => rw [eval, eval, h x (by simp [postorder])]
  | unary op e => rw [eval, eval, eval_congr e fun x hx => h x (by simp [postorder, hx])]
  | binary op l r =>
    rw [eval, eval, eval_congr l fun x hx => h x (by simp [postorder, hx]),
      eval_congr r fun x hx => h x (by simp [postorder, hx])]
  | call name args => rw [eval, eval, evalAll_congr args fun x hx => h x (by simp [postorder, hx])]

theorem evalAll_congr (es : List Expr)
    (h : ∀ x, var x ∈ postorderAll es → env.get? x = env'.get? x) :
    evalAll env es = evalAll env' es := by
  match es with
  | [] => rw [evalAll, evalAll]
  | e :: rest =>
    rw [evalAll, evalAll, eval_congr e fun x hx => h x (by simp [postorderAll, hx]),
      evalAll_congr rest fun x hx => h x (by simp [postorderAll, hx])]

end

/-- A variable that evaluation misses is one of the expression, and is not bound. -/
theorem unbound_of_eval {e : Expr} (h : e.eval env = .error (.undefinedVariable x)) :
    var x ∈ e.postorder ∧ env.get? x = none := by
  obtain ⟨node, hnode, values, hfault⟩ := exists_fault_of_eval h
  cases node with
  | var y =>
    simp only [fault?, Option.ite_none_right_eq_some, Option.some.injEq,
      EvalError.undefinedVariable.injEq] at hfault
    obtain ⟨hunbound, rfl⟩ := hfault
    exact ⟨hnode, Option.isNone_iff_eq_none.mp hunbound⟩
  | number | unary | binary | call =>
    rw [fault?] at hfault
    grind

end Expr

section Sources
variable {source x : String} {tokens : List Token} {tree : Expr} {env env' : Environment}

theorem mem_namesIn_iff (h : tokenize source = .ok tokens) :
    x ∈ namesIn source ↔ ∃ t ∈ tokens, t.kind = .identifier ∧ t.lexeme = x := by
  simp [namesIn, h, and_assoc]

theorem mem_namesIn_of_readExpr (h : readExpr source = .ok tree) (hx : .var x ∈ tree.postorder) :
    x ∈ namesIn source := by
  obtain ⟨tokens, htokens, hparse⟩ := readExpr_eq_ok_iff.mp h
  exact (mem_namesIn_iff htokens).mpr (Expr.named_of_parse hparse _ hx)

theorem isVariable_of_mem_namesIn (h : x ∈ namesIn source) : IsVariable x := by
  cases htokens : tokenize source with
  | error cause => simp [namesIn, htokens] at h
  | ok tokens =>
    obtain ⟨t, ht, hkind, rfl⟩ := (mem_namesIn_iff htokens).mp h
    exact isVariable_of_tokenize htokens t ht hkind

theorem calculate_congr (h : ∀ x ∈ namesIn source, env.get? x = env'.get? x) :
    calculate source env = calculate source env' := by
  cases hread : readExpr source with
  | error err => rw [calculate, calculate, hread]; rfl
  | ok tree =>
    rw [calculate_eq_eval hread, calculate_eq_eval hread,
      tree.eval_congr fun x hx => h x (mem_namesIn_of_readExpr hread hx)]

theorem unbound_of_calculate (h : calculate source env = .error (.eval (.undefinedVariable x))) :
    x ∈ namesIn source ∧ env.get? x = none := by
  rcases calculate_eq_error_iff.mp h with ⟨cause, -, herr⟩ | ⟨tokens, cause, -, -, herr⟩ |
    ⟨tokens, tree, cause, htokens, hparse, heval, herr⟩
  · cases herr
  · cases herr
  · cases herr
    obtain ⟨hx, hunbound⟩ := Expr.unbound_of_eval heval
    exact ⟨mem_namesIn_of_readExpr (readExpr_eq_ok_iff.mpr ⟨tokens, htokens, hparse⟩) hx, hunbound⟩

/-- A result depends on nothing but what the names of the source are bound to. In particular it does
not depend on what is bound to a text that is not spelled like a variable, the names of functions and
constants in either letter case among them. A variable that is missed is a name of the source that is
not bound. -/
theorem calculate_depends_on_names (source : String) (env : Environment) :
    (∀ env', (∀ x ∈ namesIn source, env.get? x = env'.get? x) →
      calculate source env = calculate source env') ∧
    (∀ env', (∀ x, IsVariable x → env.get? x = env'.get? x) →
      calculate source env = calculate source env') ∧
    ∀ x, calculate source env = .error (.eval (.undefinedVariable x)) →
      x ∈ namesIn source ∧ env.get? x = none := by
  refine ⟨fun env' h => calculate_congr h, ?_, fun x h => unbound_of_calculate h⟩
  intro env' h
  exact calculate_congr fun x hx => h x (isVariable_of_mem_namesIn hx)

/-- The value of `x*x` is the same where the name of the sine is bound too; without `x` it is that name
which is missed. -/
theorem calculate_depends_on_names_square :
    calculate "x*x" (Environment.empty.set "x" 3) =
        calculate "x*x" ((Environment.empty.set "x" 3).set "Sin" 1) ∧
      calculate "x*x" (Environment.empty.set "y" 2) = .error (.eval (.undefinedVariable "x")) ∧
      "x" ∈ namesIn "x*x" ∧ (Environment.empty.set "y" 2).get? "x" = none := by
  obtain ⟨-, hother, -⟩ := calculate_depends_on_names "x*x" (Environment.empty.set "x" 3)
  obtain ⟨-, -, hmissed⟩ := calculate_depends_on_names "x*x" (Environment.empty.set "y" 2)
  have herror : calculate "x*x" (Environment.empty.set "y" 2) =
      .error (.eval (.undefinedVariable "x")) := by decide +kernel
  refine ⟨hother _ ?_, herror, hmissed "x" herror⟩
  intro x hx
  have hname : Vocabulary.isFunctionName "Sin" := by decide +kernel
  have hne : x ≠ "Sin" := by
    rintro rfl
    exact hx.function hname
  rw [Environment.get?_set _ "Sin", if_neg hne]

end Sources

end Reckon
