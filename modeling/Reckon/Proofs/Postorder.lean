import Reckon.Expr.Eval

/-!
# Evaluation node by node

An expression can be evaluated without going down into it. Its nodes are taken in post-order, so
that each comes behind its children (`postorder_eq`), and the values that are still to be used are
kept on a stack. A node first checks itself against the tables; if nothing is wrong it takes the values
of its children from the stack and puts its own value there. The run stops at the first node that
something is wrong with.

The recursive evaluator does the same: a run over the nodes of an expression leaves the value of the
expression on top of whatever the stack held before, or stops for the reason for which evaluation
fails. A run could also stop for want of values, and does so for no expression.
-/
namespace Reckon
open Vocabulary

/-- The function that a word calls: an entry of either table whose name consists of letters. -/
def Vocabulary.function? (name : String) : Option Callable :=
  if name.toList.all Char.isAlpha then
    ((unaryTable.lookup name).map .unary).or ((binaryTable.lookup name).map .binary)
  else none

namespace Expr

mutual

/-- The nodes of an expression, each behind its children. -/
def postorder : Expr → List Expr
  | number x => [number x]
  | var name => [var name]
  | unary op e => e.postorder ++ [unary op e]
  | binary op l r => l.postorder ++ r.postorder ++ [binary op l r]
  | call name args => postorderAll args ++ [call name args]

def postorderAll : List Expr → List Expr
  | [] => []
  | e :: rest => e.postorder ++ postorderAll rest

end

theorem postorderAll_eq_flatMap (es : List Expr) : postorderAll es = es.flatMap postorder := by
  induction es with
  | nil => rfl
  | cons e rest ih => rw [postorderAll, ih, List.flatMap_cons]

theorem postorder_eq (e : Expr) : e.postorder = e.children.flatMap postorder ++ [e] := by
  cases e <;> simp [postorder, children, postorderAll_eq_flatMap]

/-- What is wrong with a node whose children have these values. -/
def fault? (env : Environment) (node : Expr) (values : List Float) : Option EvalError :=
  match node with
  | number _ => none
  | var name => if (env.get? name).isNone then some (.undefinedVariable name) else none
  | unary op _ => if (unaryTable.lookup op).isNone then some (.unknownOperator op) else none
  | binary op _ _ =>
    if (binaryTable.lookup op).isNone then some (.unknownOperator op)
    else if op = "/" ∧ values.getLast?.any (· == 0) then some .divisionByZero
    else none
  | call name args =>
    match function? name with
    | none => some (.unknownFunction name)
    | some function =>
      if function.arity = args.length then none
      else some (.arityMismatch name function.arity args.length)

/-- The value of a node whose children have these values, as far as the tables tell. -/
def compute? (env : Environment) (node : Expr) (values : List Float) : Option Float :=
  match node, values with
  | number x, [] => some x
  | var name, [] => env.get? name
  | unary op _, [x] => (unaryTable.lookup op).map fun function => function x
  | binary op _ _, [x, y] => (binaryTable.lookup op).map fun function => function x y
  | call name _, [x] =>
    match function? name with
    | some (.unary function) => some (function x)
    | _ => none
  | call name _, [x, y] =>
    match function? name with
    | some (.binary function) => some (function x y)
    | _ => none
  | _, _ => none

end Expr

inductive Stop where
  | fault (cause : EvalError)
  /-- The values on the stack are not those that the node needs. -/
  | stuck
deriving DecidableEq, Repr

namespace Expr

/-- The values that a node finds on a stack, the one of its first child first. -/
def operands (node : Expr) (stack : List Float) : List Float :=
  (stack.take node.children.length).reverse

/-- The value of a node whose children have these values, if nothing is wrong with the node. -/
def answer (env : Environment) (node : Expr) (values : List Float) : Except Stop Float :=
  match node.fault? env values with
  | some err => .error (.fault err)
  | none =>
    match node.compute? env values with
    | some x => .ok x
    | none => .error .stuck

/-- A node puts its value in the place of those of its children. -/
def act (env : Environment) (node : Expr) (stack : List Float) : Except Stop (List Float) :=
  (node.answer env (node.operands stack)).map fun x => x :: stack.drop node.children.length

/-- Nodes act one after another, up to the first that stops. -/
def runNodes (env : Environment) (nodes : List Expr) (stack : List Float) :
    Except Stop (List Float) :=
  nodes.foldlM (fun stack node => node.act env stack) stack

end Expr

theorem Vocabulary.lookup_isSome_iff_mem_keys {α : Type} {table : List (String × α)}
    {name : String} : (table.lookup name).isSome ↔ name ∈ table.map Prod.fst := by
  rw [List.lookup_isSome_iff, List.mem_map]
  constructor
  · rintro ⟨entry, hentry, hname⟩
    exact ⟨entry, hentry, (beq_iff_eq.mp hname).symm⟩
  · rintro ⟨entry, hentry, rfl⟩
    exact ⟨entry, hentry, beq_self_eq_true _⟩

theorem Vocabulary.mem_functionNames_iff {name : String} :
    name ∈ functionNames ↔
      name.toList.all Char.isAlpha ∧
        ((unaryTable.lookup name).isSome ∨ (binaryTable.lookup name).isSome) := by
  rw [functionNames, List.mem_filter, List.mem_append, lookup_isSome_iff_mem_keys,
    lookup_isSome_iff_mem_keys, and_comm]

/-- The names are looked up as the entries that they were taken from. -/
theorem Vocabulary.callable?_eq_function? (name : String) : callable? name = function? name := by
  rw [callable?, function?, List.contains_eq_mem, unary?, binary?]
  by_cases halpha : name.toList.all Char.isAlpha
  · cases hunary : unaryTable.lookup name <;> cases hbinary : binaryTable.lookup name <;>
      simp [mem_functionNames_iff, halpha, hunary, hbinary]
  · have hname : name ∉ functionNames := fun h => halpha (mem_functionNames_iff.mp h).1
    simp [halpha, hname]

namespace Expr
variable {env : Environment} {stack : List Float}

theorem runNodes_cons (node : Expr) (nodes : List Expr) :
    runNodes env (node :: nodes) stack = (node.act env stack).bind (runNodes env nodes) := rfl

theorem runNodes_append (nodes more : List Expr) :
    runNodes env (nodes ++ more) stack = (runNodes env nodes stack).bind (runNodes env more) :=
  List.foldlM_append

theorem runNodes_singleton (node : Expr) : runNodes env [node] stack = node.act env stack := by
  rw [runNodes_cons]
  cases node.act env stack <;> rfl

section Answers

theorem answer_var (name : String) :
    (var name).answer env [] = ((var name).eval env).mapError .fault := by
  rw [eval]
  cases hx : env.get? name <;> simp [answer, fault?, compute?, hx]

theorem answer_unary (op : String) (e : Expr) (x : Float) :
    (unary op e).answer env [x] = (applyUnary op x).mapError .fault := by
  rw [applyUnary, unary?]
  cases hf : unaryTable.lookup op <;> simp [answer, fault?, compute?, hf]

theorem answer_binary (op : String) (l r : Expr) (x y : Float) :
    (binary op l r).answer env [x, y] = (applyBinary op x y).mapError .fault := by
  rw [applyBinary, binary?]
  cases hf : binaryTable.lookup op with
  | none => simp [answer, fault?, hf]
  | some function =>
    by_cases hzero : op = "/" ∧ y == 0
    · obtain ⟨rfl, hy⟩ := hzero
      simp [answer, fault?, hf, hy]
    · simp [answer, fault?, compute?, hf, hzero]

theorem answer_call (name : String) {args : List Expr} {values : List Float}
    (hlength : args.length = values.length) :
    (call name args).answer env values = (applyCall name values).mapError .fault := by
  rw [answer, applyCall, callable?_eq_function?, fault?, hlength]
  cases hf : function? name with
  | none => rfl
  | some function =>
    match function, values with
    | .unary f, [] | .unary f, _ :: _ :: _ | .binary f, [] | .binary f, [_]
    | .binary f, _ :: _ :: _ :: _ => simp [Callable.arity]
    | .unary f, [x] | .binary f, [x, y] => simp [Callable.arity, compute?, hf]

end Answers

theorem act_append (node : Expr) (values : List Float)
    (hlength : node.children.length = values.length) (stack : List Float) :
    node.act env (values.reverse ++ stack) = (node.answer env values).map (· :: stack) := by
  have hoperands : node.operands (values.reverse ++ stack) = values := by
    rw [operands, hlength, ← List.length_reverse, List.take_left, List.reverse_reverse]
  rw [act, hoperands, hlength, ← List.length_reverse, List.drop_left]

theorem length_of_evalAll {es : List Expr} {values : List Float}
    (h : evalAll env es = .ok values) : es.length = values.length := by
  induction es generalizing values with
  | nil =>
    cases h
    rfl
  | cons e rest ih =>
    rw [evalAll] at h
    cases he : e.eval env <;> rw [he] at h
    · cases h
    · cases hrest : evalAll env rest <;> rw [hrest] at h
      · cases h
      · cases h
        rw [List.length_cons, List.length_cons, ih hrest]

mutual

/-- The nodes of an expression put its value on the stack, or stop at its error. -/
theorem runNodes_postorder (env : Environment) (e : Expr) (stack : List Float) :
    runNodes env e.postorder stack = ((e.eval env).mapError .fault).map (· :: stack) := by
  match e with
  | number x => rfl
  | var name =>
    rw [postorder, runNodes_singleton, ← answer_var]
    exact act_append _ [] rfl stack
  | unary op e =>
    rw [postorder, runNodes_append, runNodes_postorder env e, eval]
    cases e.eval env with
    | error err => rfl
    | ok x =>
      refine (runNodes_singleton _).trans ?_
      exact (act_append _ [x] rfl stack).trans (by rw [answer_unary]; rfl)
  | binary op l r =>
    rw [postorder, runNodes_append, runNodes_append, runNodes_postorder env l, eval]
    cases l.eval env with
    | error err => rfl
    | ok x =>
      refine (congrArg (Except.bind · _) (runNodes_postorder env r (x :: stack))).trans ?_
      cases r.eval env with
      | error err => rfl
      | ok y =>
        refine (runNodes_singleton _).trans ?_
        exact (act_append _ [x, y] rfl stack).trans (by rw [answer_binary]; rfl)
  | call name args =>
    rw [postorder, runNodes_append, runNodes_postorderAll env args, eval]
    cases hvalues : evalAll env args with
    | error err => rfl
    | ok values =>
      refine (runNodes_singleton _).trans ?_
      have hlength : args.length = values.length := length_of_evalAll hvalues
      exact (act_append (call name args) values hlength stack).trans
        (by rw [answer_call name hlength]; rfl)

theorem runNodes_postorderAll (env : Environment) (es : List Expr) (stack : List Float) :
    runNodes env (postorderAll es) stack =
      ((evalAll env es).mapError .fault).map fun values => values.reverse ++ stack := by
  match es with
  | [] => rfl
  | e :: rest =>
    rw [postorderAll, runNodes_append, runNodes_postorder env e, evalAll]
    cases e.eval env with
    | error err => rfl
    | ok x =>
      refine (runNodes_postorderAll env rest (x :: stack)).trans ?_
      cases evalAll env rest with
      | error err => rfl
      | ok xs =>
        have hvalues : xs.reverse ++ x :: stack = (x :: xs).reverse ++ stack := by simp
        exact congrArg Except.ok hvalues

end

theorem answer_eq_fault_iff {node : Expr} {values : List Float} {err : EvalError} :
    node.answer env values = .error (.fault err) ↔ node.fault? env values = some err := by
  rw [answer]
  cases node.fault? env values with
  | some err' => simp
  | none => cases node.compute? env values <;> simp

/-- A run stops with an error at the first node that something is wrong with. -/
theorem runNodes_eq_fault_iff {nodes : List Expr} {err : EvalError} :
    runNodes env nodes stack = .error (.fault err) ↔
      ∃ before node after left, nodes = before ++ node :: after ∧
        runNodes env before stack = .ok left ∧ node.fault? env (node.operands left) = some err := by
  constructor
  · intro h
    induction nodes generalizing stack with
    | nil => cases h
    | cons first rest ih =>
      rw [runNodes_cons, act] at h
      cases hfirst : first.answer env (first.operands stack) with
      | error stop =>
        rw [hfirst] at h
        cases h
        exact ⟨[], first, rest, stack, rfl, rfl, answer_eq_fault_iff.mp hfirst⟩
      | ok x =>
        rw [hfirst] at h
        obtain ⟨before, node, after, left, rfl, hrun, hfault⟩ := ih h
        refine ⟨first :: before, node, after, left, rfl, ?_, hfault⟩
        rw [runNodes_cons, act, hfirst]
        exact hrun
  · rintro ⟨before, node, after, left, rfl, hrun, hfault⟩
    rw [runNodes_append, hrun]
    change runNodes env (node :: after) left = _
    rw [runNodes_cons, act, answer_eq_fault_iff.mpr hfault]
    rfl

theorem exists_fault_of_eval {e : Expr} {err : EvalError} (h : e.eval env = .error err) :
    ∃ node ∈ e.postorder, ∃ values, node.fault? env values = some err := by
  have hrun := runNodes_postorder env e []
  rw [h] at hrun
  obtain ⟨before, node, after, left, hnodes, -, hfault⟩ := runNodes_eq_fault_iff.mp hrun
  exact ⟨node, by simp [hnodes], _, hfault⟩

/-- Evaluation is a run over the nodes in post-order. The value is the only one that the run leaves
on the stack, and an error is that of the first node that something is wrong with. -/
theorem eval_eq_runNodes_postorder (env : Environment) (e : Expr) :
    (∀ x, e.eval env = .ok x ↔ runNodes env e.postorder [] = .ok [x]) ∧
      ∀ err, e.eval env = .error err ↔
        ∃ before node after stack, e.postorder = before ++ node :: after ∧
          runNodes env before [] = .ok stack ∧
          node.fault? env (node.operands stack) = some err := by
  have hrun := runNodes_postorder env e []
  constructor
  · intro x
    rw [hrun]
    cases e.eval env <;> simp [Except.map]
  · intro err
    rw [← runNodes_eq_fault_iff, hrun]
    cases e.eval env <;> simp [Except.map]

end Expr

end Reckon
