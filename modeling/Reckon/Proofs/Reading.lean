import Reckon.Expr.Parser

/-!
# Readings

What the parser does, said once. A task is something the parser can be in the middle of. `Reads`
has a rule for each way a task can succeed and `Fails` one for each way it can fail, the cursor that
is left behind included. Every task at every cursor has a reading or a failure, and the functions of
the parser compute just that. A success never depends on a failure, since the parser looks one token
ahead and takes nothing back; so statements about accepted tokens need the rules of `Reads` alone.

The link of a chain and the argument of a call are tasks of their own, with what has been read so
far in the task. Reading arguments includes the closing parenthesis and builds the call.
-/
namespace Reckon
open Text

def Token.Among (t : Token) (operators : List String) : Prop :=
  t.kind = .operator ∧ t.lexeme ∈ operators

instance (t : Token) (operators : List String) : Decidable (t.Among operators) :=
  inferInstanceAs (Decidable (_ ∧ _))

theorem any_isOperator {t : Token} {operators : List String} :
    operators.any t.isOperator ↔ t.Among operators := by
  simp only [List.any_eq_true, Token.isOperator_iff, Token.Among]
  constructor
  · rintro ⟨op, hop, hk, rfl⟩
    exact ⟨hk, hop⟩
  · rintro ⟨hk, hop⟩
    exact ⟨_, hop, hk, rfl⟩

inductive Task where
  | chain (k : Chain)
  | operand (k : Chain)
  | links (k : Chain) (left : Expr) (levels : Nat)
  | power
  | factor
  | number
  | constant
  | negation
  | grouping
  | call
  | arguments (name : String) (args : List Expr)

/-- What a token that opens a level leads to. -/
def Token.opens? (t : Token) : Option Task :=
  match t.kind with
  | .function => some .call
  | .lparen => some .grouping
  | .operator => if t.lexeme = "-" then some .negation else none
  | _ => none

/-- The tokens that a factor can begin with. -/
def Token.StartsFactor (t : Token) : Prop :=
  t.kind ∈ [TokenKind.number, .identifier, .constant] ∨ t.opens?.isSome

/-- Reading the task at the first cursor gives the expression and ends at the second. -/
inductive Reads : Task → Cursor → Expr → Cursor → Prop
  | number {p ts : List Token} {d : Nat} {t : Token} {x : Float} :
      t.kind ≠ .eof → Number.read? t.lexeme = some x →
      Reads .number ⟨p, t :: ts, d⟩ (.number x) ⟨t :: p, ts, d⟩
  | constant {p ts : List Token} {d : Nat} {t : Token} {x : Float} :
      t.kind ≠ .eof → Vocabulary.constant? t.lexeme = some x →
      Reads .constant ⟨p, t :: ts, d⟩ (.number x) ⟨t :: p, ts, d⟩
  | negation {p ts : List Token} {d : Nat} {t : Token} {e : Expr} {c : Cursor} :
      t.kind ≠ .eof → Reads .factor ⟨t :: p, ts, d⟩ e c →
      Reads .negation ⟨p, t :: ts, d⟩ (.unary t.lexeme e) c
  | grouping {p p' ts ts' : List Token} {d d' : Nat} {l r : Token} {e : Expr} :
      l.kind = .lparen → Reads (.chain .sum) ⟨l :: p, ts, d⟩ e ⟨p', r :: ts', d'⟩ →
      r.kind = .rparen → Reads .grouping ⟨p, l :: ts, d⟩ e ⟨r :: p', ts', d'⟩
  | call {p ts : List Token} {d : Nat} {f l : Token} {first e : Expr} {c c' : Cursor} :
      f.kind = .function → l.kind = .lparen → Reads (.chain .sum) ⟨l :: f :: p, ts, d⟩ first c →
      Reads (.arguments f.lexeme [first]) c e c' → Reads .call ⟨p, f :: l :: ts, d⟩ e c'
  | argument {p ts : List Token} {d : Nat} {t : Token} {name : String} {args : List Expr}
      {next e : Expr} {c c' : Cursor} :
      t.kind = .comma → Reads (.chain .sum) ⟨t :: p, ts, d⟩ next c →
      Reads (.arguments name (next :: args)) c e c' →
      Reads (.arguments name args) ⟨p, t :: ts, d⟩ e c'
  | close {p ts : List Token} {d : Nat} {t : Token} {name : String} {args : List Expr} :
      t.kind = .rparen →
      Reads (.arguments name args) ⟨p, t :: ts, d⟩ (.call name args.reverse) ⟨t :: p, ts, d⟩
  | ofNumber {c c' : Cursor} {e : Expr} :
      c.kind = .number → Reads .number c e c' → Reads .factor c e c'
  | ofConstant {c c' : Cursor} {e : Expr} :
      c.kind = .constant → Reads .constant c e c' → Reads .factor c e c'
  | name {p ts : List Token} {d : Nat} {t : Token} :
      t.kind = .identifier → Reads .factor ⟨p, t :: ts, d⟩ (.var t.lexeme) ⟨t :: p, ts, d⟩
  | enclosed {p ts : List Token} {d : Nat} {t : Token} {task : Task} {e : Expr} {c : Cursor} :
      t.opens? = some task → d < depthLimit → Reads task ⟨p, t :: ts, d + 1⟩ e c →
      Reads .factor ⟨p, t :: ts, d⟩ e (c.leave 1)
  | base {c c' : Cursor} {e : Expr} :
      Reads .factor c e c' → c'.operator? ["^"] = none → Reads .power c e c'
  | raised {p ts : List Token} {d : Nat} {t : Token} {base e : Expr} {c c' : Cursor} :
      Reads .factor c base ⟨p, t :: ts, d⟩ → t.Among ["^"] → d < depthLimit →
      Reads .power ⟨t :: p, ts, d + 1⟩ e c' →
      Reads .power c (.binary t.lexeme base e) (c'.leave 1)
  | term {c c' : Cursor} {e : Expr} :
      Reads (.chain .product) c e c' → Reads (.operand .sum) c e c'
  | ofPower {c c' : Cursor} {e : Expr} :
      Reads .power c e c' → Reads (.operand .product) c e c'
  | chain {k : Chain} {left e : Expr} {c c' c'' : Cursor} :
      Reads (.operand k) c left c' → Reads (.links k left 0) c' e c'' → Reads (.chain k) c e c''
  | done {k : Chain} {left : Expr} {n : Nat} {c : Cursor} :
      c.operator? k.operators = none → Reads (.links k left n) c left (c.leave n)
  | link {p ts : List Token} {d n : Nat} {t : Token} {k : Chain} {left right e : Expr}
      {c c' : Cursor} :
      t.Among k.operators → d < depthLimit → Reads (.operand k) ⟨t :: p, ts, d + 1⟩ right c →
      Reads (.links k (.binary t.lexeme left right) (n + 1)) c e c' →
      Reads (.links k left n) ⟨p, t :: ts, d⟩ e c'

/-- Reading the task at the first cursor fails, and the failure is found at the second. -/
inductive Fails : Task → Cursor → ParseError → Cursor → Prop
  | ended {task : Task} {c : Cursor} :
      task = .number ∨ task = .constant ∨ task = .negation → c.kind = .eof →
      Fails task c (.unexpectedEnd c.position) c
  | unreadable {p ts : List Token} {d : Nat} {t : Token} :
      t.kind ≠ .eof → Number.read? t.lexeme = none →
      Fails .number ⟨p, t :: ts, d⟩ (.unreadableNumber t.lexeme t.span.start) ⟨t :: p, ts, d⟩
  | unknown {p ts : List Token} {d : Nat} {t : Token} :
      t.kind ≠ .eof → Vocabulary.constant? t.lexeme = none →
      Fails .constant ⟨p, t :: ts, d⟩ (Cursor.unexpected ⟨p, t :: ts, d⟩) ⟨t :: p, ts, d⟩
  | negation {p ts : List Token} {d : Nat} {t : Token} {err : ParseError} {c : Cursor} :
      t.kind ≠ .eof → Fails .factor ⟨t :: p, ts, d⟩ err c →
      Fails .negation ⟨p, t :: ts, d⟩ err c
  | unopened {c : Cursor} : c.kind ≠ .lparen → Fails .grouping c c.unexpected c
  | grouping {p ts : List Token} {d : Nat} {l : Token} {err : ParseError} {c : Cursor} :
      l.kind = .lparen → Fails (.chain .sum) ⟨l :: p, ts, d⟩ err c →
      Fails .grouping ⟨p, l :: ts, d⟩ err c
  | unclosed {p ts : List Token} {d : Nat} {l : Token} {e : Expr} {c : Cursor} :
      l.kind = .lparen → Reads (.chain .sum) ⟨l :: p, ts, d⟩ e c → c.kind ≠ .rparen →
      Fails .grouping ⟨p, l :: ts, d⟩ c.unexpected c
  | unnamed {c : Cursor} : c.kind ≠ .function → Fails .call c c.unexpected c
  | bare {p ts : List Token} {d : Nat} {f : Token} :
      f.kind = .function → Cursor.kind ⟨f :: p, ts, d⟩ ≠ .lparen →
      Fails .call ⟨p, f :: ts, d⟩ (Cursor.unexpected ⟨f :: p, ts, d⟩) ⟨f :: p, ts, d⟩
  | first {p ts : List Token} {d : Nat} {f l : Token} {err : ParseError} {c : Cursor} :
      f.kind = .function → l.kind = .lparen → Fails (.chain .sum) ⟨l :: f :: p, ts, d⟩ err c →
      Fails .call ⟨p, f :: l :: ts, d⟩ err c
  | call {p ts : List Token} {d : Nat} {f l : Token} {e : Expr} {err : ParseError}
      {c c' : Cursor} :
      f.kind = .function → l.kind = .lparen → Reads (.chain .sum) ⟨l :: f :: p, ts, d⟩ e c →
      Fails (.arguments f.lexeme [e]) c err c' → Fails .call ⟨p, f :: l :: ts, d⟩ err c'
  | argument {p ts : List Token} {d : Nat} {t : Token} {name : String} {args : List Expr}
      {err : ParseError} {c : Cursor} :
      t.kind = .comma → Fails (.chain .sum) ⟨t :: p, ts, d⟩ err c →
      Fails (.arguments name args) ⟨p, t :: ts, d⟩ err c
  | arguments {p ts : List Token} {d : Nat} {t : Token} {name : String} {args : List Expr}
      {e : Expr} {err : ParseError} {c c' : Cursor} :
      t.kind = .comma → Reads (.chain .sum) ⟨t :: p, ts, d⟩ e c →
      Fails (.arguments name (e :: args)) c err c' →
      Fails (.arguments name args) ⟨p, t :: ts, d⟩ err c'
  | unfinished {name : String} {args : List Expr} {c : Cursor} :
      c.kind ≠ .comma → c.kind ≠ .rparen → Fails (.arguments name args) c c.unexpected c
  | ofNumber {c c' : Cursor} {err : ParseError} :
      c.kind = .number → Fails .number c err c' → Fails .factor c err c'
  | ofConstant {c c' : Cursor} {err : ParseError} :
      c.kind = .constant → Fails .constant c err c' → Fails .factor c err c'
  | noFactor {c : Cursor} :
      (∀ t ∈ c.current?, ¬ t.StartsFactor) → Fails .factor c c.unexpected c
  | full {p ts : List Token} {d : Nat} {t : Token} {task : Task} :
      t.opens? = some task → depthLimit ≤ d →
      Fails .factor ⟨p, t :: ts, d⟩ (.nestingTooDeep depthLimit t.span.start) ⟨p, t :: ts, d⟩
  | enclosed {p ts : List Token} {d : Nat} {t : Token} {task : Task} {err : ParseError}
      {c : Cursor} :
      t.opens? = some task → d < depthLimit → Fails task ⟨p, t :: ts, d + 1⟩ err c →
      Fails .factor ⟨p, t :: ts, d⟩ err (c.leave 1)
  | base {c c' : Cursor} {err : ParseError} : Fails .factor c err c' → Fails .power c err c'
  | powerFull {p ts : List Token} {d : Nat} {t : Token} {base : Expr} {c : Cursor} :
      Reads .factor c base ⟨p, t :: ts, d⟩ → t.Among ["^"] → depthLimit ≤ d →
      Fails .power c (.nestingTooDeep depthLimit (Cursor.position ⟨t :: p, ts, d⟩)) ⟨t :: p, ts, d⟩
  | exponent {p ts : List Token} {d : Nat} {t : Token} {base : Expr} {err : ParseError}
      {c c' : Cursor} :
      Reads .factor c base ⟨p, t :: ts, d⟩ → t.Among ["^"] → d < depthLimit →
      Fails .power ⟨t :: p, ts, d + 1⟩ err c' → Fails .power c err (c'.leave 1)
  | term {c c' : Cursor} {err : ParseError} :
      Fails (.chain .product) c err c' → Fails (.operand .sum) c err c'
  | ofPower {c c' : Cursor} {err : ParseError} :
      Fails .power c err c' → Fails (.operand .product) c err c'
  | chain {k : Chain} {err : ParseError} {c c' : Cursor} :
      Fails (.operand k) c err c' → Fails (.chain k) c err c'
  | links {k : Chain} {left : Expr} {err : ParseError} {c c' c'' : Cursor} :
      Reads (.operand k) c left c' → Fails (.links k left 0) c' err c'' →
      Fails (.chain k) c err c''
  | linkFull {p ts : List Token} {d n : Nat} {t : Token} {k : Chain} {left : Expr} :
      t.Among k.operators → depthLimit ≤ d →
      Fails (.links k left n) ⟨p, t :: ts, d⟩ (.nestingTooDeep depthLimit t.span.start)
        ⟨p, t :: ts, d⟩
  | operand {p ts : List Token} {d n : Nat} {t : Token} {k : Chain} {left : Expr}
      {err : ParseError} {c : Cursor} :
      t.Among k.operators → d < depthLimit → Fails (.operand k) ⟨t :: p, ts, d + 1⟩ err c →
      Fails (.links k left n) ⟨p, t :: ts, d⟩ err c
  | link {p ts : List Token} {d n : Nat} {t : Token} {k : Chain} {left right : Expr}
      {err : ParseError} {c c' : Cursor} :
      t.Among k.operators → d < depthLimit → Reads (.operand k) ⟨t :: p, ts, d + 1⟩ right c →
      Fails (.links k (.binary t.lexeme left right) (n + 1)) c err c' →
      Fails (.links k left n) ⟨p, t :: ts, d⟩ err c'

def Task.run : Task → Cursor → Except ParseError Expr × Cursor
  | chain k, c => (Expr.parseChain k c).result
  | operand k, c => (Expr.parseOperand k c).result
  | links k left levels, c => (Expr.parseLinks k left levels c).result
  | power, c => (Expr.parsePower c).result
  | factor, c => (Expr.parseFactor c).result
  | number, c => (Expr.parseNumber c).result
  | constant, c => (Expr.parseConstant c).result
  | negation, c => (Expr.parseNegation c).result
  | grouping, c => (Expr.parseGrouping c).result
  | call, c => (Expr.parseCall c).result
  | arguments name args, c =>
    ((Expr.parseArguments args c).andAlso fun args after _ =>
      (after.expect .rparen).map fun _ => .call name args.reverse).result

section Steps
variable {p ts : List Token} {d : Nat} {t : Token} {ops : List String} {c c' : Cursor}

theorem Token.opens?_eq_some_iff {task : Task} :
    t.opens? = some task ↔
      task = .call ∧ t.kind = .function ∨ task = .grouping ∧ t.kind = .lparen ∨
        task = .negation ∧ t.Among ["-"] := by
  obtain ⟨kind, lexeme, span⟩ := t
  cases kind <;> simp [Token.opens?, Token.Among, eq_comm, and_comm]

theorem Cursor.operator?_of_among (h : t.Among ops) :
    Cursor.operator? ops ⟨p, t :: ts, d⟩ = some t.lexeme := by
  simp [Cursor.operator?, any_isOperator.mpr h]

theorem Cursor.operator?_eq_none_iff :
    c.operator? ops = none ↔ ∀ t ∈ c.current?, ¬ t.Among ops := by
  obtain ⟨p, _ | ⟨t, ts⟩, d⟩ := c
  · simp [operator?, current?]
  · have hany : ops.any t.isOperator ↔ t.Among ops := any_isOperator
    cases h : ops.any t.isOperator <;> simp_all [operator?, current?]

theorem Token.Among.ne_eof (h : t.Among ops) : t.kind ≠ .eof := by
  rw [h.1]
  decide

theorem Cursor.expect_of_eq {kind : TokenKind} (h : t.kind = kind) (hk : kind ≠ .eof) :
    (Cursor.expect kind ⟨p, t :: ts, d⟩).result = (.ok t, ⟨t :: p, ts, d⟩) := by
  have hkind : Cursor.kind ⟨p, t :: ts, d⟩ = kind := h
  rw [Cursor.expect, if_pos hkind]
  exact advance_of_ne_eof (h ▸ hk)

theorem Cursor.result_nested (inside : Unit → Outcome c.ahead.length Expr) :
    (c.nested inside).result =
      if c.depth < depthLimit then ((inside ()).result.1, (inside ()).result.2.leave 1)
      else (.error (.nestingTooDeep depthLimit c.position), c) := by
  rw [nested, ifRoom]
  split
  · rw [Outcome.result_leave]
  · rfl

theorem Cursor.expect_of_ne {kind : TokenKind} (h : c.kind ≠ kind) :
    (c.expect kind).result = (.error c.unexpected, c) := by
  rw [expect, if_neg h]
  rfl

theorem Task.run_factor_of_opens {task : Task} (ht : t.opens? = some task) :
    Task.factor.run ⟨p, t :: ts, d⟩ =
      if d < depthLimit then
        ((task.run ⟨p, t :: ts, d + 1⟩).1, (task.run ⟨p, t :: ts, d + 1⟩).2.leave 1)
      else (.error (.nestingTooDeep depthLimit t.span.start), ⟨p, t :: ts, d⟩) := by
  have nested (inside : Unit → Outcome (t :: ts).length Expr) :=
    Cursor.result_nested (c := ⟨p, t :: ts, d⟩) inside
  rw [Task.run, Expr.parseFactor]
  obtain ⟨kind, lexeme, span⟩ := t
  cases kind <;> simp only [Token.opens?, reduceCtorEq] at ht
  case operator =>
    split at ht
    · rename_i hop
      cases ht
      have hminus : (Cursor.operator? ["-"] ⟨p, ⟨.operator, lexeme, span⟩ :: ts, d⟩).isSome := by
        rw [Cursor.operator?_of_among ⟨rfl, by simp [hop]⟩]
        rfl
      simp only [Cursor.kind, hminus, if_true]
      exact nested _
    · simp at ht
  case function =>
    cases ht
    exact nested _
  case lparen =>
    cases ht
    exact nested _

theorem Task.run_factor_of_not_starts (h : ∀ t ∈ c.current?, ¬ t.StartsFactor) :
    Task.factor.run c = (.error c.unexpected, c) := by
  obtain ⟨p, _ | ⟨⟨kind, lexeme, span⟩, ts⟩, d⟩ := c
  · rw [Task.run, Expr.parseFactor]
    rfl
  · have hstart := h _ rfl
    rw [Task.run, Expr.parseFactor]
    cases kind <;> simp only [Token.StartsFactor, Token.opens?] at hstart
    case operator =>
      have hminus : ¬ (Token.mk .operator lexeme span).Among ["-"] := by
        intro ha
        have hop : lexeme = "-" := by simpa using ha.2
        simp [hop] at hstart
      have hnone : Cursor.operator? ["-"] ⟨p, ⟨.operator, lexeme, span⟩ :: ts, d⟩ = none :=
        Cursor.operator?_eq_none_iff.mpr (by simpa [Cursor.current?] using hminus)
      simp only [Cursor.kind, hnone]
      rfl
    all_goals first | rfl | simp at hstart

theorem Task.run_power_of_among {base : Expr} (h : Task.factor.run c = (.ok base, ⟨p, t :: ts, d⟩))
    (ht : t.Among ["^"]) :
    Task.power.run c =
      if d < depthLimit then
        ((Task.power.run ⟨t :: p, ts, d + 1⟩).1.map (.binary t.lexeme base),
          (Task.power.run ⟨t :: p, ts, d + 1⟩).2.leave 1)
      else (.error (.nestingTooDeep depthLimit (Cursor.position ⟨t :: p, ts, d⟩)),
        ⟨t :: p, ts, d⟩) := by
  have nested := Cursor.result_nested (c := ⟨t :: p, ts, d⟩)
    fun _ => Expr.parsePower ⟨t :: p, ts, d + 1⟩
  rw [Task.run, Expr.parsePower, Outcome.result_andThen_of_ok h, Cursor.operator?_of_among ht]
  simp only [Outcome.result_weaken]
  rw [Outcome.result_andAlso_of_ok (Cursor.advance_of_ne_eof ht.ne_eof), Outcome.result_map]
  refine (congrArg (fun r => (r.1.map (Expr.binary t.lexeme base), r.2)) nested).trans ?_
  dsimp only
  split <;> rfl

theorem Task.run_links_of_among {k : Chain} {left : Expr} {n : Nat} (ht : t.Among k.operators) :
    (Task.links k left n).run ⟨p, t :: ts, d⟩ =
      if d < depthLimit then
        ((Expr.parseOperand k ⟨t :: p, ts, d + 1⟩).andThen fun right after _ =>
          Expr.parseLinks k (.binary t.lexeme left right) (n + 1) after).result
      else (.error (.nestingTooDeep depthLimit t.span.start), ⟨p, t :: ts, d⟩) := by
  have hadvance : (Cursor.deeper ⟨p, t :: ts, d⟩).advance.result = (.ok t, ⟨t :: p, ts, d + 1⟩) :=
    Cursor.advance_of_ne_eof ht.ne_eof
  rw [Task.run, Expr.parseLinks, Cursor.operator?_of_among ht]
  dsimp only [Cursor.ifRoom]
  split
  · exact (Outcome.result_weaken _ _).trans (Outcome.result_andAlso_of_ok hadvance)
  · rfl

end Steps

theorem Reads.run_eq {task : Task} {c c' : Cursor} {e : Expr} (h : Reads task c e c') :
    task.run c = (.ok e, c') := by
  induction h with
  | number hk hx =>
    rw [Task.run, Expr.parseNumber, Outcome.result_andThen_of_ok (Cursor.advance_of_ne_eof hk)]
    simp [hx]
  | constant hk hx =>
    rw [Task.run, Expr.parseConstant, Outcome.result_andThen_of_ok (Cursor.advance_of_ne_eof hk)]
    simp [hx]
  | negation hk _ ih =>
    rw [Task.run] at ih
    rw [Task.run, Expr.parseNegation, Outcome.result_andAlso_of_ok (Cursor.advance_of_ne_eof hk),
      Outcome.result_map, ih]
    rfl
  | grouping hl _ hr ih =>
    rw [Task.run, Expr.parseGrouping, Outcome.result_andAlso_of_ok (Cursor.expect_of_eq hl nofun),
      Outcome.result_andAlso_of_ok ih, Outcome.result_map, Cursor.expect_of_eq hr nofun]
    rfl
  | call hf hl _ _ ih ih' =>
    rw [Task.run, Expr.parseCall, Outcome.result_andAlso_of_ok (Cursor.expect_of_eq hf nofun),
      Outcome.result_andAlso_of_ok (Cursor.expect_of_eq hl nofun), Outcome.andThen_of_ok ih,
      Outcome.result_andAlso_weaken]
    exact ih'
  | @argument p ts d t name args next e c c' hk _ _ ih ih' =>
    have hcomma : Cursor.kind ⟨p, t :: ts, d⟩ = .comma := hk
    have hne : t.kind ≠ .eof := by rw [hk]; nofun
    rw [Task.run, Expr.parseArguments, if_pos hcomma, Outcome.result_andAlso_weaken,
      Outcome.andAlso_of_ok (Cursor.advance_of_ne_eof hne), Outcome.result_andAlso_weaken,
      Outcome.andThen_of_ok ih, Outcome.result_andAlso_weaken]
    exact ih'
  | @close p ts d t name args hk =>
    have hcomma : Cursor.kind ⟨p, t :: ts, d⟩ ≠ .comma := fun h => by
      cases hk.symm.trans h
    rw [Task.run, Expr.parseArguments, if_neg hcomma]
    rw [Outcome.result_andAlso_of_ok (Outcome.result_ok _ _ _), Outcome.result_map,
      Cursor.expect_of_eq hk nofun]
    rfl
  | ofNumber hk _ ih =>
    rw [Task.run, Expr.parseFactor, hk]
    exact ih
  | ofConstant hk _ ih =>
    rw [Task.run, Expr.parseFactor, hk]
    exact ih
  | @name p ts d t hk =>
    have hkind : Cursor.kind ⟨p, t :: ts, d⟩ = .identifier := hk
    rw [Task.run, Expr.parseFactor, hkind]
    simp only [Outcome.result_map]
    rw [Cursor.advance_of_ne_eof (by rw [hk]; nofun)]
    rfl
  | enclosed ht hd _ ih => rw [Task.run_factor_of_opens ht, if_pos hd, ih]
  | base _ hn ih =>
    rw [Task.run, Expr.parsePower, Outcome.result_andThen_of_ok ih, hn]
    rfl
  | raised _ ht hd _ ih ih' =>
    rw [Task.run_power_of_among ih ht, if_pos hd, ih']
    rfl
  | term _ ih =>
    rw [Task.run, Expr.parseOperand]
    exact ih
  | ofPower _ ih =>
    rw [Task.run, Expr.parseOperand]
    exact ih
  | chain _ _ ih ih' =>
    rw [Task.run, Expr.parseChain, Outcome.result_andThen_of_ok ih]
    exact ih'
  | done hn =>
    rw [Task.run, Expr.parseLinks, hn]
    rfl
  | link ht hd _ _ ih ih' =>
    rw [Task.run_links_of_among ht, if_pos hd, Outcome.result_andThen_of_ok ih]
    exact ih'

theorem Fails.run_eq {task : Task} {c c' : Cursor} {err : ParseError} (h : Fails task c err c') :
    task.run c = (.error err, c') := by
  induction h with
  | ended ht hk =>
    have ended := Cursor.advance_of_eof hk
    rcases ht with rfl | rfl | rfl
    · rw [Task.run, Expr.parseNumber, Outcome.andThen_of_error ended, Outcome.result_error]
    · rw [Task.run, Expr.parseConstant, Outcome.andThen_of_error ended, Outcome.result_error]
    · rw [Task.run, Expr.parseNegation, Outcome.andAlso_of_error ended, Outcome.result_error]
  | unreadable hk hx =>
    rw [Task.run, Expr.parseNumber, Outcome.result_andThen_of_ok (Cursor.advance_of_ne_eof hk)]
    simp [hx]
  | unknown hk hx =>
    rw [Task.run, Expr.parseConstant, Outcome.result_andThen_of_ok (Cursor.advance_of_ne_eof hk)]
    simp [hx]
  | negation hk _ ih =>
    rw [Task.run] at ih
    rw [Task.run, Expr.parseNegation, Outcome.result_andAlso_of_ok (Cursor.advance_of_ne_eof hk),
      Outcome.result_map, ih]
    rfl
  | unopened hk =>
    rw [Task.run, Expr.parseGrouping, Outcome.andAlso_of_error (Cursor.expect_of_ne hk),
      Outcome.result_error]
  | grouping hl _ ih =>
    rw [Task.run, Expr.parseGrouping, Outcome.result_andAlso_of_ok (Cursor.expect_of_eq hl nofun),
      Outcome.andAlso_of_error ih, Outcome.result_error]
  | unclosed hl hr hk =>
    rw [Task.run, Expr.parseGrouping, Outcome.result_andAlso_of_ok (Cursor.expect_of_eq hl nofun),
      Outcome.result_andAlso_of_ok hr.run_eq, Outcome.result_map, Cursor.expect_of_ne hk]
    rfl
  | unnamed hk =>
    rw [Task.run, Expr.parseCall, Outcome.andAlso_of_error (Cursor.expect_of_ne hk),
      Outcome.result_error]
  | bare hf hk =>
    rw [Task.run, Expr.parseCall, Outcome.result_andAlso_of_ok (Cursor.expect_of_eq hf nofun),
      Outcome.andAlso_of_error (Cursor.expect_of_ne hk), Outcome.result_error]
  | first hf hl _ ih =>
    rw [Task.run, Expr.parseCall, Outcome.result_andAlso_of_ok (Cursor.expect_of_eq hf nofun),
      Outcome.result_andAlso_of_ok (Cursor.expect_of_eq hl nofun), Outcome.andThen_of_error ih]
    rfl
  | call hf hl hr _ ih =>
    rw [Task.run, Expr.parseCall, Outcome.result_andAlso_of_ok (Cursor.expect_of_eq hf nofun),
      Outcome.result_andAlso_of_ok (Cursor.expect_of_eq hl nofun), Outcome.andThen_of_ok hr.run_eq,
      Outcome.result_andAlso_weaken]
    exact ih
  | @argument p ts d t name args err c hk _ ih =>
    have hcomma : Cursor.kind ⟨p, t :: ts, d⟩ = .comma := hk
    have hne : t.kind ≠ .eof := by rw [hk]; nofun
    rw [Task.run, Expr.parseArguments, if_pos hcomma, Outcome.result_andAlso_weaken,
      Outcome.andAlso_of_ok (Cursor.advance_of_ne_eof hne), Outcome.result_andAlso_weaken,
      Outcome.andThen_of_error ih]
    rfl
  | @arguments p ts d t name args e err c c' hk hr _ ih =>
    have hcomma : Cursor.kind ⟨p, t :: ts, d⟩ = .comma := hk
    have hne : t.kind ≠ .eof := by rw [hk]; nofun
    rw [Task.run, Expr.parseArguments, if_pos hcomma, Outcome.result_andAlso_weaken,
      Outcome.andAlso_of_ok (Cursor.advance_of_ne_eof hne), Outcome.result_andAlso_weaken,
      Outcome.andThen_of_ok hr.run_eq, Outcome.result_andAlso_weaken]
    exact ih
  | unfinished hcomma hk =>
    rw [Task.run, Expr.parseArguments, if_neg hcomma,
      Outcome.result_andAlso_of_ok (Outcome.result_ok _ _ _), Outcome.result_map,
      Cursor.expect_of_ne hk]
    rfl
  | ofNumber hk _ ih =>
    rw [Task.run, Expr.parseFactor, hk]
    exact ih
  | ofConstant hk _ ih =>
    rw [Task.run, Expr.parseFactor, hk]
    exact ih
  | @noFactor c h => exact Task.run_factor_of_not_starts h
  | full ht hd => rw [Task.run_factor_of_opens ht, if_neg (Nat.not_lt.mpr hd)]
  | enclosed ht hd _ ih => rw [Task.run_factor_of_opens ht, if_pos hd, ih]
  | base _ ih => rw [Task.run, Expr.parsePower, Outcome.andThen_of_error ih, Outcome.result_error]
  | powerFull hr ht hd =>
    rw [Task.run_power_of_among hr.run_eq ht, if_neg (Nat.not_lt.mpr hd)]
  | exponent hr ht hd _ ih =>
    rw [Task.run_power_of_among hr.run_eq ht, if_pos hd, ih]
    rfl
  | term _ ih =>
    rw [Task.run, Expr.parseOperand]
    exact ih
  | ofPower _ ih =>
    rw [Task.run, Expr.parseOperand]
    exact ih
  | chain _ ih => rw [Task.run, Expr.parseChain, Outcome.andThen_of_error ih, Outcome.result_error]
  | links hr _ ih =>
    rw [Task.run, Expr.parseChain, Outcome.result_andThen_of_ok hr.run_eq]
    exact ih
  | linkFull ht hd => rw [Task.run_links_of_among ht, if_neg (Nat.not_lt.mpr hd)]
  | operand ht hd _ ih =>
    rw [Task.run_links_of_among ht, if_pos hd, Outcome.andThen_of_error ih, Outcome.result_error]
  | link ht hd hr _ ih =>
    rw [Task.run_links_of_among ht, if_pos hd, Outcome.result_andThen_of_ok hr.run_eq]
    exact ih

/-- The fewest tokens that a reading of the task passes. -/
def Task.least : Task → Nat
  | links .. => 0
  | _ => 1

theorem Reads.length_ahead {task : Task} {c c' : Cursor} {e : Expr} (h : Reads task c e c') :
    c'.ahead.length + task.least ≤ c.ahead.length := by
  induction h with
  | number | constant | name | close => exact Nat.le_refl _
  | @enclosed p ts d t task e c ht _ _ ih =>
    have hleast : task.least = 1 := by
      rcases Token.opens?_eq_some_iff.mp ht with ⟨rfl, -⟩ | ⟨rfl, -⟩ | ⟨rfl, -⟩ <;> rfl
    rwa [hleast] at ih
  | _ => simp_all only [Task.least, Cursor.ahead_leave, List.length_cons] <;> omega

def Task.Settled (task : Task) (c : Cursor) : Prop :=
  (∃ e c', Reads task c e c') ∨ ∃ err c', Fails task c err c'

section Settled
variable {c : Cursor}

theorem Task.settled_number : Task.number.Settled c := by
  obtain ⟨p, _ | ⟨t, ts⟩, d⟩ := c
  · exact .inr ⟨_, _, .ended (.inl rfl) rfl⟩
  · by_cases hk : t.kind = .eof
    · exact .inr ⟨_, _, .ended (.inl rfl) hk⟩
    · cases hx : Number.read? t.lexeme with
      | none => exact .inr ⟨_, _, .unreadable hk hx⟩
      | some x => exact .inl ⟨_, _, .number hk hx⟩

theorem Task.settled_constant : Task.constant.Settled c := by
  obtain ⟨p, _ | ⟨t, ts⟩, d⟩ := c
  · exact .inr ⟨_, _, .ended (.inr (.inl rfl)) rfl⟩
  · by_cases hk : t.kind = .eof
    · exact .inr ⟨_, _, .ended (.inr (.inl rfl)) hk⟩
    · cases hx : Vocabulary.constant? t.lexeme with
      | none => exact .inr ⟨_, _, .unknown hk hx⟩
      | some x => exact .inl ⟨_, _, .constant hk hx⟩

theorem Task.settled_negation
    (ih : ∀ next : Cursor, next.ahead.length < c.ahead.length → Task.factor.Settled next) :
    Task.negation.Settled c := by
  obtain ⟨p, _ | ⟨t, ts⟩, d⟩ := c
  · exact .inr ⟨_, _, .ended (.inr (.inr rfl)) rfl⟩
  · by_cases hk : t.kind = .eof
    · exact .inr ⟨_, _, .ended (.inr (.inr rfl)) hk⟩
    · rcases ih ⟨t :: p, ts, d⟩ (Nat.lt_succ_self _) with ⟨e, c', h⟩ | ⟨err, c', h⟩
      · exact .inl ⟨_, _, .negation hk h⟩
      · exact .inr ⟨_, _, .negation hk h⟩

theorem Task.settled_grouping
    (ih : ∀ next : Cursor, next.ahead.length < c.ahead.length → (Task.chain .sum).Settled next) :
    Task.grouping.Settled c := by
  by_cases hl : c.kind = .lparen
  · obtain ⟨p, _ | ⟨l, ts⟩, d⟩ := c
    · cases hl
    · rcases ih ⟨l :: p, ts, d⟩ (Nat.lt_succ_self _) with ⟨e, c', h⟩ | ⟨err, c', h⟩
      · by_cases hr : c'.kind = .rparen
        · obtain ⟨p', _ | ⟨r, ts'⟩, d'⟩ := c'
          · cases hr
          · exact .inl ⟨_, _, .grouping hl h hr⟩
        · exact .inr ⟨_, _, .unclosed hl h hr⟩
      · exact .inr ⟨_, _, .grouping hl h⟩
  · exact .inr ⟨_, _, .unopened hl⟩

theorem Task.settled_arguments {name : String} {args : List Expr}
    (ih : ∀ next : Cursor, next.ahead.length < c.ahead.length →
      (Task.chain .sum).Settled next ∧ ∀ args, (Task.arguments name args).Settled next) :
    (Task.arguments name args).Settled c := by
  by_cases hcomma : c.kind = .comma
  · obtain ⟨p, _ | ⟨t, ts⟩, d⟩ := c
    · cases hcomma
    · have hlt : ts.length < (t :: ts).length := Nat.lt_succ_self _
      rcases (ih ⟨t :: p, ts, d⟩ hlt).1 with ⟨e, c', h⟩ | ⟨err, c', h⟩
      · have hle := h.length_ahead
        rcases (ih c' (by simp only [least] at hle ⊢; omega)).2 (e :: args) with
          ⟨e', c'', h'⟩ | ⟨err, c'', h'⟩
        · exact .inl ⟨_, _, .argument hcomma h h'⟩
        · exact .inr ⟨_, _, .arguments hcomma h h'⟩
      · exact .inr ⟨_, _, .argument hcomma h⟩
  · by_cases hr : c.kind = .rparen
    · obtain ⟨p, _ | ⟨t, ts⟩, d⟩ := c
      · cases hr
      · exact .inl ⟨_, _, .close hr⟩
    · exact .inr ⟨_, _, .unfinished hcomma hr⟩

theorem Task.settled_call
    (ih : ∀ next : Cursor, next.ahead.length < c.ahead.length →
      (Task.chain .sum).Settled next ∧ ∀ name args, (Task.arguments name args).Settled next) :
    Task.call.Settled c := by
  by_cases hf : c.kind = .function
  · obtain ⟨p, _ | ⟨f, ts⟩, d⟩ := c
    · cases hf
    · by_cases hl : Cursor.kind ⟨f :: p, ts, d⟩ = .lparen
      · obtain _ | ⟨l, ts⟩ := ts
        · cases hl
        · have hlt : ts.length < (f :: l :: ts).length := by simp only [List.length_cons]; omega
          rcases (ih ⟨l :: f :: p, ts, d⟩ hlt).1 with ⟨e, c', h⟩ | ⟨err, c', h⟩
          · have hle := h.length_ahead
            rcases (ih c' (by simp only [least] at hle ⊢; omega)).2 f.lexeme [e] with
              ⟨e', c'', h'⟩ | ⟨err, c'', h'⟩
            · exact .inl ⟨_, _, .call hf hl h h'⟩
            · exact .inr ⟨_, _, .call hf hl h h'⟩
          · exact .inr ⟨_, _, .first hf hl h⟩
      · exact .inr ⟨_, _, .bare hf hl⟩
  · exact .inr ⟨_, _, .unnamed hf⟩

theorem Task.settled_factor
    (ih : ∀ task, task ∈ [Task.call, .grouping, .negation] → task.Settled c.deeper) :
    Task.factor.Settled c := by
  by_cases hs : ∃ t ∈ c.current?, t.StartsFactor
  · obtain ⟨p, _ | ⟨t, ts⟩, d⟩ := c
    · simp [Cursor.current?] at hs
    · have hstart : t.StartsFactor := by simpa [Cursor.current?] using hs
      rcases hstart with hk | ho
      · simp only [List.mem_cons, List.not_mem_nil, or_false] at hk
        rcases hk with hk | hk | hk
        · rcases settled_number (c := ⟨p, t :: ts, d⟩) with ⟨e, c', h⟩ | ⟨err, c', h⟩
          · exact .inl ⟨_, _, .ofNumber hk h⟩
          · exact .inr ⟨_, _, .ofNumber hk h⟩
        · exact .inl ⟨_, _, .name hk⟩
        · rcases settled_constant (c := ⟨p, t :: ts, d⟩) with ⟨e, c', h⟩ | ⟨err, c', h⟩
          · exact .inl ⟨_, _, .ofConstant hk h⟩
          · exact .inr ⟨_, _, .ofConstant hk h⟩
      · obtain ⟨task, ht⟩ := Option.isSome_iff_exists.mp ho
        have hmem : task ∈ [Task.call, .grouping, .negation] := by
          rcases Token.opens?_eq_some_iff.mp ht with ⟨rfl, -⟩ | ⟨rfl, -⟩ | ⟨rfl, -⟩ <;> simp
        by_cases hd : d < depthLimit
        · rcases ih task hmem with ⟨e, c', h⟩ | ⟨err, c', h⟩
          · exact .inl ⟨_, _, .enclosed ht hd h⟩
          · exact .inr ⟨_, _, .enclosed ht hd h⟩
        · exact .inr ⟨_, _, .full ht (Nat.not_lt.mp hd)⟩
  · exact .inr ⟨_, _, .noFactor fun t ht hst => hs ⟨t, ht, hst⟩⟩

theorem Task.settled_power (hfactor : Task.factor.Settled c)
    (ih : ∀ next : Cursor, next.ahead.length < c.ahead.length → Task.power.Settled next) :
    Task.power.Settled c := by
  rcases hfactor with ⟨base, c', h⟩ | ⟨err, c', h⟩
  · by_cases hop : c'.operator? ["^"] = none
    · exact .inl ⟨_, _, .base h hop⟩
    · rw [Cursor.operator?_eq_none_iff] at hop
      obtain ⟨p, _ | ⟨t, ts⟩, d⟩ := c'
      · simp [Cursor.current?] at hop
      · have ht : t.Among ["^"] := by simpa [Cursor.current?] using hop
        have hle := h.length_ahead
        by_cases hd : d < depthLimit
        · rcases ih ⟨t :: p, ts, d + 1⟩ (by simp only [List.length_cons] at hle ⊢; omega) with
            ⟨e, c'', h'⟩ | ⟨err, c'', h'⟩
          · exact .inl ⟨_, _, .raised h ht hd h'⟩
          · exact .inr ⟨_, _, .exponent h ht hd h'⟩
        · exact .inr ⟨_, _, .powerFull h ht (Nat.not_lt.mp hd)⟩
  · exact .inr ⟨_, _, .base h⟩

theorem Task.settled_links {k : Chain} {left : Expr} {n : Nat}
    (ih : ∀ next : Cursor, next.ahead.length < c.ahead.length →
      (Task.operand k).Settled next ∧ ∀ left n, (Task.links k left n).Settled next) :
    (Task.links k left n).Settled c := by
  by_cases hop : c.operator? k.operators = none
  · exact .inl ⟨_, _, .done hop⟩
  · rw [Cursor.operator?_eq_none_iff] at hop
    obtain ⟨p, _ | ⟨t, ts⟩, d⟩ := c
    · simp [Cursor.current?] at hop
    · have ht : t.Among k.operators := by simpa [Cursor.current?] using hop
      by_cases hd : d < depthLimit
      · rcases (ih ⟨t :: p, ts, d + 1⟩ (Nat.lt_succ_self _)).1 with ⟨e, c', h⟩ | ⟨err, c', h⟩
        · have hle := h.length_ahead
          rcases (ih c' (by simp only [least] at hle ⊢; simp only [List.length_cons]; omega)).2
            (.binary t.lexeme left e) (n + 1) with ⟨e', c'', h'⟩ | ⟨err, c'', h'⟩
          · exact .inl ⟨_, _, .link ht hd h h'⟩
          · exact .inr ⟨_, _, .link ht hd h h'⟩
        · exact .inr ⟨_, _, .operand ht hd h⟩
      · exact .inr ⟨_, _, .linkFull ht (Nat.not_lt.mp hd)⟩

end Settled

/-- Tasks call one another with less ahead or, with as much ahead, further down the grammar. -/
def Task.measure (task : Task) (c : Cursor) : Nat :=
  8 * c.ahead.length + match task with
    | chain k => k.level + 1
    | operand k => k.level
    | power => 3
    | factor => 2
    | negation | grouping | call => 1
    | links .. | number | constant | arguments .. => 0

theorem Task.measure_lt {task task' : Task} {c c' : Cursor}
    (h : c'.ahead.length < c.ahead.length) : task'.measure c' < task.measure c := by
  have hlevel (k : Chain) := k.level_le
  cases task' <;> simp only [measure] <;> grind

theorem Task.settled (task : Task) (c : Cursor) : task.Settled c := by
  match task with
  | .number => exact settled_number
  | .constant => exact settled_constant
  | .negation => exact settled_negation fun next hlt => settled .factor next
  | .grouping => exact settled_grouping fun next hlt => settled (.chain .sum) next
  | .call =>
    exact settled_call fun next hlt =>
      ⟨settled (.chain .sum) next, fun name args => settled (.arguments name args) next⟩
  | .arguments name args =>
    exact settled_arguments fun next hlt =>
      ⟨settled (.chain .sum) next, fun args => settled (.arguments name args) next⟩
  | .factor => exact settled_factor fun task ht => settled task c.deeper
  | .power => exact settled_power (settled .factor c) fun next hlt => settled .power next
  | .operand .sum =>
    rcases settled (.chain .product) c with ⟨e, c', h⟩ | ⟨err, c', h⟩
    · exact .inl ⟨e, c', .term h⟩
    · exact .inr ⟨err, c', .term h⟩
  | .operand .product =>
    rcases settled .power c with ⟨e, c', h⟩ | ⟨err, c', h⟩
    · exact .inl ⟨e, c', .ofPower h⟩
    · exact .inr ⟨err, c', .ofPower h⟩
  | .chain k =>
    rcases settled (.operand k) c with ⟨left, c', h⟩ | ⟨err, c', h⟩
    · have hle := h.length_ahead
      rcases settled (.links k left 0) c' with ⟨e, c'', h'⟩ | ⟨err, c'', h'⟩
      · exact .inl ⟨e, c'', .chain h h'⟩
      · exact .inr ⟨err, c'', .links h h'⟩
    · exact .inr ⟨err, c', .chain h⟩
  | .links k left n =>
    exact settled_links fun next hlt =>
      ⟨settled (.operand k) next, fun left n => settled (.links k left n) next⟩
termination_by task.measure c
decreasing_by
  all_goals first
    | exact measure_lt (by assumption)
    | grind [measure, Cursor.ahead_deeper, Chain.level]

theorem Task.run_eq_ok_iff {task : Task} {c c' : Cursor} {e : Expr} :
    task.run c = (.ok e, c') ↔ Reads task c e c' := by
  constructor
  · intro h
    rcases task.settled c with ⟨e', c'', hr⟩ | ⟨err, c'', hf⟩
    · cases hr.run_eq.symm.trans h
      exact hr
    · cases hf.run_eq.symm.trans h
  · exact Reads.run_eq

theorem Task.run_eq_error_iff {task : Task} {c c' : Cursor} {err : ParseError} :
    task.run c = (.error err, c') ↔ Fails task c err c' := by
  constructor
  · intro h
    rcases task.settled c with ⟨e, c'', hr⟩ | ⟨err', c'', hf⟩
    · cases hr.run_eq.symm.trans h
    · cases hf.run_eq.symm.trans h
      exact hf
  · exact Fails.run_eq

end Reckon
