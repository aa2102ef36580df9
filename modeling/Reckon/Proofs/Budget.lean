import Reckon.Proofs.Levels
import Reckon.Proofs.Acceptance

/-!
# Budgets

The functions of the parser call one another in cycles, and every cycle passes through a factor. Here
the parser is written once more, with a budget: the number of factors that may be open inside one
another. A factor that is asked for when the budget is spent is not read at all, and neither is anything
around it. The parser with a budget also counts the tokens that it takes.

A factor that opens another one has entered a level before, so a budget of one factor more than there
are levels to enter is never spent, and then the parser with a budget does what the parser does. The
levels of a chain that is still open are not left meanwhile: what stands behind a link is read at a depth
that counts the link.
-/
namespace Reckon

theorem Cursor.length_ahead_lt_succ (c : Cursor) : c.ahead.length < c.ahead.length + 1 :=
  Nat.lt_succ_self _

theorem Cursor.length_ahead_le {c : Cursor} {n : Nat} (h : c.ahead.length < n) :
    c.ahead.length ≤ n :=
  Nat.le_of_lt h

/-- What comes of a run on a budget, with `size` tokens ahead. -/
inductive Metered (size : Nat) (α : Type) where
  /-- The budget did not suffice. -/
  | spent
  /-- The run has come to its outcome and has taken so many tokens. -/
  | done (outcome : Outcome size α) (taken : Nat)

namespace Metered
variable {α β : Type} {m n : Nat}

def map (f : α → β) : Metered n α → Metered n β
  | spent => spent
  | done r taken => done (r.map f) taken

def weaken (h : m ≤ n) : Metered m α → Metered n α
  | spent => spent
  | done r taken => done (r.weaken h) taken

def behind (before : Nat) : Metered n α → Metered n α
  | spent => spent
  | done r taken => done r (before + taken)

/-- Goes on after a success with something that may take no token. -/
def andThen (r : Metered n α)
    (next : α → (after : Cursor) → after.ahead.length < n → Metered (after.ahead.length + 1) β) :
    Metered n β :=
  match r with
  | spent => spent
  | done (.ok a after h) taken => ((next a after h).weaken h).behind taken
  | done (.error e after) taken => done (.error e after) taken

/-- Goes on after a success with something that takes a token too. -/
def andAlso (r : Metered n α)
    (next : α → (after : Cursor) → after.ahead.length < n → Metered after.ahead.length β) :
    Metered n β :=
  match r with
  | spent => spent
  | done (.ok a after h) taken => ((next a after h).weaken (Cursor.length_ahead_le h)).behind taken
  | done (.error e after) taken => done (.error e after) taken

def leave : Metered n α → Metered n α
  | spent => spent
  | done r taken => done r.leave taken

/-- Takes one token if this is a success, and else none. -/
def ofToken : Outcome n Token → Metered n Token
  | .ok t after h => done (.ok t after h) 1
  | .error e after => done (.error e after) 0

/-- Fails at the current token if no level is left to enter. -/
def ifRoom (c : Cursor) (inside : Unit → Metered n α) : Metered n α :=
  if c.depth < depthLimit then inside ()
  else done (.error (.nestingTooDeep depthLimit c.position) c) 0

def nested (c : Cursor) (inside : Unit → Metered c.ahead.length α) : Metered c.ahead.length α :=
  ifRoom c fun _ => (inside ()).leave

end Metered

namespace Expr
open Text Metered

def meterNumber (c : Cursor) : Metered c.ahead.length Expr :=
  (ofToken c.advance).andThen fun t after _ =>
    match Number.read? t.lexeme with
    | some x => .done (.ok (.number x) after after.length_ahead_lt_succ) 0
    | none => .done (.error (.unreadableNumber t.lexeme t.span.start) after) 0

def meterConstant (c : Cursor) : Metered c.ahead.length Expr :=
  (ofToken c.advance).andThen fun t after _ =>
    match Vocabulary.constant? t.lexeme with
    | some x => .done (.ok (.number x) after after.length_ahead_lt_succ) 0
    | none => .done (.error c.unexpected after) 0

/-- The rest of a chain, whose operands are read like this. -/
def meterLinks (operand : (c : Cursor) → Metered c.ahead.length Expr) (k : Chain) (left : Expr)
    (levels : Nat) (c : Cursor) : Metered (c.ahead.length + 1) Expr :=
  match c.operator? k.operators with
  | none => .done (.ok left (c.leave levels) c.length_ahead_lt_succ) 0
  | some op =>
    ifRoom c fun _ =>
      ((ofToken c.deeper.advance).andAlso fun _ next hn =>
        (operand next).andThen fun right after ha =>
          meterLinks operand k (.binary op left right) (levels + 1) after).weaken (Nat.le_succ _)
termination_by c.ahead.length
decreasing_by
  rw [Cursor.ahead_deeper] at hn
  omega

def meterChain (operand : (c : Cursor) → Metered c.ahead.length Expr) (k : Chain) (c : Cursor) :
    Metered c.ahead.length Expr :=
  (operand c).andThen fun left after _ => meterLinks operand k left 0 after

section Factor
variable (factor : (c : Cursor) → Metered c.ahead.length Expr)

def meterPower (c : Cursor) : Metered c.ahead.length Expr :=
  (factor c).andThen fun base after _ =>
    match after.operator? ["^"] with
    | none => .done (.ok base after after.length_ahead_lt_succ) 0
    | some op =>
      ((ofToken after.advance).andAlso fun _ next _ =>
        (nested next fun _ => meterPower next.deeper).map (.binary op base)).weaken (Nat.le_succ _)
termination_by c.ahead.length
decreasing_by
  rw [Cursor.ahead_deeper]
  omega

def meterOperand (k : Chain) (c : Cursor) : Metered c.ahead.length Expr :=
  match k with
  | .sum => meterChain (meterPower factor) .product c
  | .product => meterPower factor c

def meterExpression (c : Cursor) : Metered c.ahead.length Expr :=
  meterChain (meterOperand factor .sum) .sum c

def meterNegation (c : Cursor) : Metered c.ahead.length Expr :=
  (ofToken c.advance).andAlso fun t next _ => (factor next).map (.unary t.lexeme)

def meterGrouping (c : Cursor) : Metered c.ahead.length Expr :=
  (ofToken (c.expect .lparen)).andAlso fun _ next _ =>
    (meterExpression factor next).andAlso fun e after _ =>
      (ofToken (after.expect .rparen)).map fun _ => e

def meterArguments (args : List Expr) (c : Cursor) : Metered (c.ahead.length + 1) (List Expr) :=
  if c.kind = .comma then
    ((ofToken c.advance).andAlso fun _ next _ =>
      (meterExpression factor next).andThen fun e after _ =>
        meterArguments (e :: args) after).weaken (Nat.le_succ _)
  else .done (.ok args c c.length_ahead_lt_succ) 0
termination_by c.ahead.length

def meterCall (c : Cursor) : Metered c.ahead.length Expr :=
  (ofToken (c.expect .function)).andAlso fun f next _ =>
    (ofToken (next.expect .lparen)).andAlso fun _ next _ =>
      ((meterExpression factor next).andThen fun first after _ =>
        meterArguments factor [first] after).andAlso
          fun args after _ =>
            (ofToken (after.expect .rparen)).map fun _ => .call f.lexeme args.reverse

def meterFactor (c : Cursor) : Metered c.ahead.length Expr :=
  match c.kind with
  | .number => meterNumber c
  | .identifier => (ofToken c.advance).map fun t => .var t.lexeme
  | .constant => meterConstant c
  | .function => nested c fun _ => meterCall factor c.deeper
  | .lparen => nested c fun _ => meterGrouping factor c.deeper
  | .operator =>
    if (c.operator? ["-"]).isSome then nested c fun _ => meterNegation factor c.deeper
    else .done (.error c.unexpected c) 0
  | .rparen | .comma | .eof => .done (.error c.unexpected c) 0

end Factor

/-- A factor, on a budget: there may be so many factors open inside one another. -/
def factorWithin : Nat → (c : Cursor) → Metered c.ahead.length Expr
  | 0, _ => .spent
  | budget + 1, c => meterFactor (factorWithin budget) c

end Expr

/-- Reads one part of the grammar on a budget of factors. -/
def Production.within (budget : Nat) (p : Production) (c : Cursor) : Metered c.ahead.length Expr :=
  match p with
  | expression => Expr.meterExpression (Expr.factorWithin budget) c
  | term => Expr.meterOperand (Expr.factorWithin budget) .sum c
  | power => Expr.meterPower (Expr.factorWithin budget) c
  | factor => Expr.factorWithin budget c
  | number => Expr.meterNumber c
  | constant => Expr.meterConstant c
  | negation => Expr.meterNegation (Expr.factorWithin budget) c
  | grouping => Expr.meterGrouping (Expr.factorWithin budget) c
  | call => Expr.meterCall (Expr.factorWithin budget) c

section Agreement
open Metered
variable {α β : Type} {m n : Nat} {c c' : Cursor} {e : Expr}

/-- What keeps to a chain or a part of the grammar ends at the depth that it began at. -/
theorem Task.depth_eq (task : Task) (h : task.run c = (.ok e, c')) (hopened : task.opened = 0) :
    c'.depth = c.depth := by
  rw [(Task.run_eq_ok_iff.mp h).depth_eq, hopened, Nat.sub_zero]

/-- The run has come to this outcome, and has taken as many tokens as there are fewer in front of the
end of the source than at the cursor. -/
def Metered.Agrees (c : Cursor) (r : Metered n α) (outcome : Outcome n α) : Prop :=
  ∃ taken, r = .done outcome taken ∧
    taken + (Expr.body outcome.result.2.ahead).length = (Expr.body c.ahead).length

namespace Metered.Agrees
variable {r : Metered n α} {outcome : Outcome n α}

theorem done (outcome : Outcome n α) (h : outcome.result.2.ahead = c.ahead) :
    (Metered.done outcome 0).Agrees c outcome :=
  ⟨0, rfl, by rw [h, Nat.zero_add]⟩

theorem map (h : r.Agrees c outcome) (f : α → β) : (r.map f).Agrees c (outcome.map f) := by
  obtain ⟨taken, rfl, htaken⟩ := h
  exact ⟨taken, rfl, by rwa [Outcome.result_map]⟩

theorem weaken {r : Metered m α} {outcome : Outcome m α} (h : r.Agrees c outcome) (hm : m ≤ n) :
    (r.weaken hm).Agrees c (outcome.weaken hm) := by
  obtain ⟨taken, rfl, htaken⟩ := h
  exact ⟨taken, rfl, by rwa [Outcome.result_weaken]⟩

theorem leave (h : r.Agrees c outcome) : r.leave.Agrees c outcome.leave := by
  obtain ⟨taken, rfl, htaken⟩ := h
  exact ⟨taken, rfl, by rwa [Outcome.result_leave]⟩

theorem behind {before : Nat} {after : Cursor} (h : r.Agrees after outcome)
    (hbefore : before + (Expr.body after.ahead).length = (Expr.body c.ahead).length) :
    (r.behind before).Agrees c outcome := by
  obtain ⟨taken, rfl, htaken⟩ := h
  exact ⟨before + taken, rfl, by rw [Nat.add_assoc, htaken, hbefore]⟩

theorem andThen
    {next : α → (after : Cursor) → after.ahead.length < n → Outcome (after.ahead.length + 1) β}
    {meter : α → (after : Cursor) → after.ahead.length < n → Metered (after.ahead.length + 1) β}
    (h : r.Agrees c outcome)
    (hnext : ∀ a after hn, outcome.result = (.ok a, after) →
      (meter a after hn).Agrees after (next a after hn)) :
    (r.andThen meter).Agrees c (outcome.andThen next) := by
  obtain ⟨taken, rfl, htaken⟩ := h
  cases outcome with
  | ok a after hn => exact ((hnext a after hn rfl).weaken hn).behind htaken
  | error err after => exact ⟨taken, rfl, htaken⟩

theorem andAlso
    {next : α → (after : Cursor) → after.ahead.length < n → Outcome after.ahead.length β}
    {meter : α → (after : Cursor) → after.ahead.length < n → Metered after.ahead.length β}
    (h : r.Agrees c outcome)
    (hnext : ∀ a after hn, outcome.result = (.ok a, after) →
      (meter a after hn).Agrees after (next a after hn)) :
    (r.andAlso meter).Agrees c (outcome.andAlso next) := by
  obtain ⟨taken, rfl, htaken⟩ := h
  cases outcome with
  | ok a after hn => exact ((hnext a after hn rfl).weaken (Nat.le_of_lt hn)).behind htaken
  | error err after => exact ⟨taken, rfl, htaken⟩

theorem ifRoom {meter : Unit → Metered n α} {inside : Unit → Outcome n α}
    (h : c.depth < depthLimit → (meter ()).Agrees c (inside ())) :
    (Metered.ifRoom c meter).Agrees c (c.ifRoom inside) := by
  unfold Metered.ifRoom Cursor.ifRoom
  by_cases hroom : c.depth < depthLimit
  · rw [if_pos hroom, if_pos hroom]
    exact h hroom
  · rw [if_neg hroom, if_neg hroom]
    exact .done _ rfl

theorem nested {meter : Unit → Metered c.ahead.length α}
    {inside : Unit → Outcome c.ahead.length α}
    (h : c.depth < depthLimit → (meter ()).Agrees c.deeper (inside ())) :
    (Metered.nested c meter).Agrees c (c.nested inside) :=
  .ifRoom fun hroom => leave (h hroom)

theorem advance (c : Cursor) : (ofToken c.advance).Agrees c c.advance := by
  by_cases hk : c.kind = .eof
  · have hstay : c.advance = .error (.unexpectedEnd c.position) c :=
      Outcome.ext_result (Cursor.advance_of_eof hk)
    rw [hstay]
    exact .done _ rfl
  · obtain ⟨p, _ | ⟨t, ts⟩, d⟩ := c
    · exact absurd rfl hk
    · have hpass : Cursor.advance ⟨p, t :: ts, d⟩ = .ok t ⟨t :: p, ts, d⟩ (Nat.lt_succ_self _) :=
        Outcome.ext_result (Cursor.advance_of_ne_eof hk)
      rw [hpass]
      refine ⟨1, rfl, ?_⟩
      rw [Outcome.result_ok, Expr.body_cons hk]
      exact Nat.add_comm ..

theorem expect (kind : TokenKind) (c : Cursor) :
    (ofToken (c.expect kind)).Agrees c (c.expect kind) := by
  unfold Cursor.expect
  split
  · exact advance c
  · exact .done _ rfl

end Metered.Agrees

theorem Cursor.depth_of_advance {t : Token} (h : c.advance.result = (.ok t, c')) :
    c'.depth = c.depth := by
  rw [← c.depth_advance, h]

theorem Cursor.depth_of_expect {kind : TokenKind} {t : Token}
    (h : (c.expect kind).result = (.ok t, c')) : c'.depth = c.depth := by
  rw [← c.depth_expect kind, h]

namespace Expr

theorem meterNumber_agrees (c : Cursor) : (meterNumber c).Agrees c (parseNumber c) := by
  rw [meterNumber, parseNumber]
  refine (Agrees.advance c).andThen fun t after _ _ => ?_
  cases Text.Number.read? t.lexeme <;> exact .done _ rfl

theorem meterConstant_agrees (c : Cursor) : (meterConstant c).Agrees c (parseConstant c) := by
  rw [meterConstant, parseConstant]
  refine (Agrees.advance c).andThen fun t after _ _ => ?_
  cases Vocabulary.constant? t.lexeme <;> exact .done _ rfl

variable {d : Nat}

/-- Links enter levels and leave none, so their operands are no less deep. -/
theorem meterLinks_agrees {operand : (c : Cursor) → Metered c.ahead.length Expr} {k : Chain}
    (hoperand : ∀ c : Cursor, d ≤ c.depth → (operand c).Agrees c (parseOperand k c))
    (left : Expr) (levels : Nat) (hc : d ≤ c.depth) :
    (meterLinks operand k left levels c).Agrees c (parseLinks k left levels c) := by
  induction left, levels, c using meterLinks.induct k with
  | case1 left levels c hnone =>
    rw [meterLinks, parseLinks, hnone]
    exact .done _ rfl
  | case2 left levels c op hop ih =>
    rw [meterLinks, parseLinks, hop]
    refine .ifRoom fun _ => .weaken ?_ _
    refine (Agrees.advance c.deeper).andAlso fun t next hnext hadvance => ?_
    have hdeeper : d ≤ next.depth := by
      rw [Cursor.depth_of_advance hadvance]
      exact Nat.le_succ_of_le hc
    refine (hoperand next hdeeper).andThen fun right after hafter hright => ?_
    have hdepth : after.depth = next.depth := Task.depth_eq (.operand k) hright rfl
    exact ih next hnext right after hafter (hdepth ▸ hdeeper)

theorem meterChain_agrees {operand : (c : Cursor) → Metered c.ahead.length Expr} {k : Chain}
    (hoperand : ∀ c : Cursor, d ≤ c.depth → (operand c).Agrees c (parseOperand k c))
    (hc : d ≤ c.depth) : (meterChain operand k c).Agrees c (parseChain k c) := by
  rw [meterChain, parseChain]
  refine (hoperand c hc).andThen fun left after _ hleft => ?_
  have hdepth : after.depth = c.depth := Task.depth_eq (.operand k) hleft rfl
  exact meterLinks_agrees hoperand left 0 (hdepth ▸ hc)

section Factor
variable {factor : (c : Cursor) → Metered c.ahead.length Expr}
  (hfactor : ∀ c : Cursor, d ≤ c.depth → (factor c).Agrees c (parseFactor c))
include hfactor

theorem meterPower_agrees (hc : d ≤ c.depth) :
    (meterPower factor c).Agrees c (parsePower c) := by
  induction c using meterPower.induct with
  | case1 c ih =>
    rw [meterPower, parsePower]
    refine (hfactor c hc).andThen fun base after hafter hbase => ?_
    have hdepth : after.depth = c.depth := Task.depth_eq .factor hbase rfl
    cases after.operator? ["^"] with
    | none => exact .done _ rfl
    | some op =>
      refine .weaken ?_ _
      refine (Agrees.advance after).andAlso fun t next hnext hadvance => ?_
      have hnextDepth : d ≤ next.depth := by rwa [Cursor.depth_of_advance hadvance, hdepth]
      exact .map (.nested fun _ => ih after hafter next hnext (Nat.le_succ_of_le hnextDepth)) _

theorem meterOperand_agrees (k : Chain) (hc : d ≤ c.depth) :
    (meterOperand factor k c).Agrees c (parseOperand k c) := by
  have hpower (c : Cursor) (hc : d ≤ c.depth) :
      (meterPower factor c).Agrees c (parseOperand .product c) := by
    rw [parseOperand]
    exact meterPower_agrees hfactor hc
  cases k with
  | product => exact hpower c hc
  | sum =>
    rw [meterOperand, parseOperand]
    exact meterChain_agrees hpower hc

theorem meterExpression_agrees (hc : d ≤ c.depth) :
    (meterExpression factor c).Agrees c (parseChain .sum c) :=
  meterChain_agrees (fun _ => meterOperand_agrees hfactor .sum) hc

theorem meterNegation_agrees (hc : d ≤ c.depth) :
    (meterNegation factor c).Agrees c (parseNegation c) := by
  rw [meterNegation, parseNegation]
  refine (Agrees.advance c).andAlso fun t next _ hadvance => .map (hfactor next ?_) _
  rwa [Cursor.depth_of_advance hadvance]

theorem meterGrouping_agrees (hc : d ≤ c.depth) :
    (meterGrouping factor c).Agrees c (parseGrouping c) := by
  rw [meterGrouping, parseGrouping]
  refine (Agrees.expect .lparen c).andAlso fun _ next _ hnext => ?_
  have hdepth := Cursor.depth_of_expect hnext
  refine (meterExpression_agrees hfactor (hdepth ▸ hc)).andAlso fun e after _ _ => ?_
  exact (Agrees.expect .rparen after).map _

theorem meterArguments_agrees (args : List Expr) (hc : d ≤ c.depth) :
    (meterArguments factor args c).Agrees c (parseArguments args c) := by
  induction args, c using meterArguments.induct with
  | case1 args c hcomma ih =>
    rw [meterArguments, parseArguments, if_pos hcomma, if_pos hcomma]
    refine .weaken ?_ _
    refine (Agrees.advance c).andAlso fun t next hnext hadvance => ?_
    have hdeep : d ≤ next.depth := by rwa [Cursor.depth_of_advance hadvance]
    refine (meterExpression_agrees hfactor hdeep).andThen fun e after hafter he => ?_
    have hdepth : after.depth = next.depth := Task.depth_eq (.chain .sum) he rfl
    exact ih next hnext e after hafter (hdepth ▸ hdeep)
  | case2 args c hcomma =>
    rw [meterArguments, parseArguments, if_neg hcomma, if_neg hcomma]
    exact .done _ rfl

theorem meterCall_agrees (hc : d ≤ c.depth) : (meterCall factor c).Agrees c (parseCall c) := by
  rw [meterCall, parseCall]
  refine (Agrees.expect .function c).andAlso fun f name _ hname => ?_
  refine (Agrees.expect .lparen name).andAlso fun _ next _ hnext => ?_
  have hdeep : d ≤ next.depth := by
    rwa [Cursor.depth_of_expect hnext, Cursor.depth_of_expect hname]
  refine Agrees.andAlso ?_ fun args after _ _ => (Agrees.expect .rparen after).map _
  refine (meterExpression_agrees hfactor hdeep).andThen fun first after _ hfirst => ?_
  have hdepth : after.depth = next.depth := Task.depth_eq (.chain .sum) hfirst rfl
  exact meterArguments_agrees hfactor [first] (hdepth ▸ hdeep)

end Factor

/-- A factor opens others one level deeper only, and none at all if no level is left. -/
theorem meterFactor_agrees {factor : (c : Cursor) → Metered c.ahead.length Expr}
    (hfactor : c.depth < depthLimit →
      ∀ inner : Cursor, c.depth < inner.depth → (factor inner).Agrees inner (parseFactor inner)) :
    (meterFactor factor c).Agrees c (parseFactor c) := by
  rw [meterFactor, parseFactor]
  cases c.kind with
  | number => exact meterNumber_agrees c
  | identifier => exact (Agrees.advance c).map _
  | constant => exact meterConstant_agrees c
  | function => exact .nested fun hroom => meterCall_agrees (hfactor hroom) (Nat.le_refl _)
  | lparen => exact .nested fun hroom => meterGrouping_agrees (hfactor hroom) (Nat.le_refl _)
  | operator =>
    dsimp only
    split
    · exact .nested fun hroom => meterNegation_agrees (hfactor hroom) (Nat.le_refl _)
    · exact .done _ rfl
  | rparen | comma | eof => exact .done _ rfl

/-- With one factor more than there are levels to enter, the budget suffices. -/
theorem factorWithin_agrees {budget : Nat} (h : depthLimit ≤ c.depth + budget) :
    (factorWithin (budget + 1) c).Agrees c (parseFactor c) := by
  induction budget generalizing c with
  | zero => exact meterFactor_agrees fun hroom => absurd hroom (Nat.not_lt.mpr h)
  | succ budget ih =>
    refine meterFactor_agrees fun _ inner hinner => ih ?_
    omega

end Expr

theorem Production.within_agrees (p : Production) {budget : Nat}
    (h : depthLimit ≤ c.depth + budget) : (p.within (budget + 1) c).Agrees c (p.parse c) := by
  have hfactor (inner : Cursor) (hinner : c.depth ≤ inner.depth) :
      (Expr.factorWithin (budget + 1) inner).Agrees inner (Expr.parseFactor inner) :=
    Expr.factorWithin_agrees (by omega)
  cases p with
  | expression => exact Expr.meterExpression_agrees hfactor (Nat.le_refl _)
  | term =>
    have hterm := Expr.meterOperand_agrees hfactor .sum (Nat.le_refl c.depth)
    rw [Expr.parseOperand] at hterm
    exact hterm
  | power => exact Expr.meterPower_agrees hfactor (Nat.le_refl _)
  | factor => exact hfactor c (Nat.le_refl _)
  | number => exact Expr.meterNumber_agrees c
  | constant => exact Expr.meterConstant_agrees c
  | negation => exact Expr.meterNegation_agrees hfactor (Nat.le_refl _)
  | grouping => exact Expr.meterGrouping_agrees hfactor (Nat.le_refl _)
  | call => exact Expr.meterCall_agrees hfactor (Nat.le_refl _)

end Agreement

section Loops
variable {α β γ : Type} {n : Nat} {c : Cursor}

theorem Outcome.result_andAlso_andThen {r : Outcome n α}
    {next : α → (after : Cursor) → after.ahead.length < n → Outcome after.ahead.length β}
    {again : β → (after : Cursor) → Outcome (after.ahead.length + 1) γ} :
    ((r.andAlso next).andThen fun b after _ => again b after).result =
      (r.andAlso fun a after h => (next a after h).andThen fun b after _ => again b after).result := by
  cases r with
  | error e after => rfl
  | ok a after h =>
    simp only [andAlso, result_weaken]
    cases next a after h with
    | error e after => rfl
    | ok b after h =>
      dsimp only [weaken, andThen]
      cases again b after <;> rfl

theorem Outcome.andThen_map (f : α → β) (r : Outcome n α)
    (next : β → (after : Cursor) → Outcome (after.ahead.length + 1) γ) :
    ((r.map f).andThen fun b after _ => next b after) =
      r.andThen fun a after _ => next (f a) after := by
  cases r <;> rfl

theorem Cursor.result_ifRoom_andThen {inside : Unit → Outcome n α}
    {next : α → (after : Cursor) → after.ahead.length < n → Outcome (after.ahead.length + 1) β} :
    ((c.ifRoom inside).andThen next).result =
      (c.ifRoom fun _ => (inside ()).andThen next).result := by
  unfold ifRoom
  split <;> rfl

theorem Cursor.result_ifRoom_congr {m : Nat} {inside : Unit → Outcome m α}
    {inside' : Unit → Outcome n α} (h : (inside ()).result = (inside' ()).result) :
    (c.ifRoom inside).result = (c.ifRoom inside').result := by
  unfold ifRoom
  split
  · exact h
  · rfl

theorem Cursor.kind_ne_eof_of_operator? {ops : List String} {op : String}
    (h : c.operator? ops = some op) : c.kind ≠ .eof := by
  obtain ⟨p, _ | ⟨t, ts⟩, d⟩ := c
  · cases h
  · simp only [operator?] at h
    split at h
    · rename_i hany
      exact (any_isOperator.mp hany).ne_eof
    · cases h

theorem Production.length_body_le (p : Production) (c : Cursor) :
    (Expr.body (p.parse c).result.2.ahead).length ≤ (Expr.body c.ahead).length := by
  obtain ⟨taken, -, htaken⟩ := p.within_agrees (Nat.le_add_left depthLimit c.depth)
  omega

theorem Cursor.length_body_andAlso_lt
    {next : Token → (after : Cursor) → after.ahead.length < c.ahead.length →
      Outcome after.ahead.length α}
    (hc : c.kind ≠ .eof)
    (hnext : ∀ t after h,
      (Expr.body (next t after h).result.2.ahead).length ≤ (Expr.body after.ahead).length) :
    (Expr.body (c.advance.andAlso next).result.2.ahead).length < (Expr.body c.ahead).length := by
  obtain ⟨p, _ | ⟨t, ts⟩, d⟩ := c
  · exact absurd rfl hc
  · rw [Outcome.result_andAlso_of_ok (advance_of_ne_eof hc), Expr.body_cons hc]
    exact Nat.lt_succ_of_le (hnext ..)

/-- A turn of a loop has taken a token in front of the end of the source. Only if it fails it may have
taken none: then there was no level for it to enter. -/
structure Cursor.Turn (c : Cursor) (r : Except ParseError Expr × Cursor) : Prop where
  of_ok : ∀ e, r.1 = .ok e → (Expr.body r.2.ahead).length < (Expr.body c.ahead).length
  of_error : ∀ err, r.1 = .error err →
    (Expr.body r.2.ahead).length < (Expr.body c.ahead).length ∨
      depthLimit ≤ c.depth ∧ err = .nestingTooDeep depthLimit c.position ∧ r.2 = c

theorem Cursor.Turn.of_lt {r : Except ParseError Expr × Cursor}
    (h : (Expr.body r.2.ahead).length < (Expr.body c.ahead).length) : c.Turn r :=
  ⟨fun _ _ => h, fun _ _ => .inl h⟩

theorem Cursor.Turn.ifRoom {inside : Unit → Outcome n Expr}
    (h : c.depth < depthLimit → c.Turn (inside ()).result) : c.Turn (c.ifRoom inside).result := by
  unfold Cursor.ifRoom
  split
  · rename_i hroom
    exact h hroom
  · rename_i hfull
    refine ⟨nofun, ?_⟩
    rintro err ⟨⟩
    exact .inr ⟨Nat.le_of_not_lt hfull, rfl, rfl⟩

namespace Expr

/-- One turn of the loop over the links of a chain: a level, an operator and an operand. -/
def linkTurn? (k : Chain) (left : Expr) (c : Cursor) : Option (Outcome c.ahead.length Expr) :=
  (c.operator? k.operators).map fun op =>
    c.ifRoom fun _ =>
      c.deeper.advance.andAlso fun _ next _ => (parseOperand k next).map (.binary op left)

/-- One turn of the loop over the arguments of a call: a comma and an argument. -/
def argumentTurn? (c : Cursor) : Option (Outcome c.ahead.length Expr) :=
  if c.kind = .comma then some (c.advance.andAlso fun _ next _ => parseChain .sum next) else none

theorem length_body_parseOperand_le (k : Chain) (c : Cursor) :
    (body (parseOperand k c).result.2.ahead).length ≤ (body c.ahead).length := by
  cases k with
  | sum =>
    rw [parseOperand]
    exact Production.term.length_body_le c
  | product =>
    rw [parseOperand]
    exact Production.power.length_body_le c

theorem result_parseLinks (k : Chain) (left : Expr) (levels : Nat) (c : Cursor) :
    (parseLinks k left levels c).result =
      (linkTurn? k left c).elim (.ok left, c.leave levels) fun turn =>
        (turn.andThen fun e after _ => parseLinks k e (levels + 1) after).result := by
  rw [parseLinks, linkTurn?]
  cases c.operator? k.operators with
  | none => rfl
  | some op =>
    refine Eq.trans (Cursor.result_ifRoom_congr ?_) Cursor.result_ifRoom_andThen.symm
    refine (Outcome.result_weaken _ _).trans (Eq.trans ?_ Outcome.result_andAlso_andThen.symm)
    simp only [Outcome.andThen_map]
    rfl

theorem turn_of_linkTurn? {k : Chain} {left : Expr} {turn : Outcome c.ahead.length Expr}
    (h : linkTurn? k left c = some turn) : c.Turn turn.result := by
  obtain ⟨op, hop, rfl⟩ := Option.map_eq_some_iff.mp h
  have hc : c.deeper.kind ≠ .eof := Cursor.kind_ne_eof_of_operator? hop
  refine .ifRoom fun _ => .of_lt ?_
  refine Cursor.length_body_andAlso_lt hc fun _ after _ => ?_
  rw [Outcome.result_map]
  exact length_body_parseOperand_le k after

theorem result_parseArguments (args : List Expr) (c : Cursor) :
    (parseArguments args c).result =
      (argumentTurn? c).elim (.ok args, c) fun turn =>
        (turn.andThen fun e after _ => parseArguments (e :: args) after).result := by
  rw [parseArguments, argumentTurn?]
  split
  · rw [Outcome.result_weaken]
    exact Outcome.result_andAlso_andThen.symm
  · rfl

theorem turn_of_argumentTurn? {turn : Outcome c.ahead.length Expr}
    (h : argumentTurn? c = some turn) : c.Turn turn.result := by
  unfold argumentTurn? at h
  split at h
  · rename_i hcomma
    cases h
    refine .of_lt (Cursor.length_body_andAlso_lt (hcomma ▸ nofun) fun _ after _ => ?_)
    exact Production.expression.length_body_le after
  · cases h

theorem meterExpression_of_spent {factor : (c : Cursor) → Metered c.ahead.length Expr}
    (h : factor c = .spent) : meterExpression factor c = .spent := by
  have hpower : meterPower factor c = .spent := by
    rw [meterPower, h]
    rfl
  rw [meterExpression, meterChain, meterOperand, meterChain, hpower]
  rfl

/-- A budget is spent by as many groups inside one another, if there are levels for them. -/
theorem factorWithin_eq_spent {t : Token} (ht : t.kind = .lparen) (p ts : List Token) {d n : Nat}
    (h : d + n ≤ depthLimit) :
    factorWithin n ⟨p, List.replicate n t ++ ts, d⟩ = .spent := by
  induction n generalizing p d with
  | zero => rfl
  | succ n ih =>
    have hroom : d < depthLimit := by omega
    have hdeeper : d + 1 + n ≤ depthLimit := by omega
    have hinner := meterExpression_of_spent (ih (t :: p) hdeeper)
    have hparen : Cursor.expect .lparen ⟨p, t :: (List.replicate n t ++ ts), d + 1⟩ =
        .ok t ⟨t :: p, List.replicate n t ++ ts, d + 1⟩ (Nat.lt_succ_self _) :=
      Outcome.ext_result (Cursor.expect_of_eq ht nofun)
    have hgroup :
        meterGrouping (factorWithin n) ⟨p, t :: (List.replicate n t ++ ts), d + 1⟩ = .spent := by
      rw [meterGrouping, hparen]
      simp only [Metered.ofToken, Metered.andAlso, hinner]
      rfl
    have hnested : Metered.nested ⟨p, t :: (List.replicate n t ++ ts), d⟩
        (fun _ => meterGrouping (factorWithin n) ⟨p, t :: (List.replicate n t ++ ts), d + 1⟩) =
          .spent := by
      rw [Metered.nested, Metered.ifRoom, if_pos hroom, hgroup]
      rfl
    have hkind : Cursor.kind ⟨p, t :: (List.replicate n t ++ ts), d⟩ = .lparen := ht
    rw [List.replicate_succ, List.cons_append, factorWithin, meterFactor, hkind]
    exact hnested

end Expr

/-- However many tokens there are and however deep the cursor is, each part of the grammar is read with
no more factors open inside one another than there are levels left, and one more: on that budget it comes
to what it comes to without. It takes no more tokens than there are in front of the end of the source.
Chains and arguments are loops, and every turn of a loop takes a token. -/
theorem Production.within_limit (c : Cursor) :
    (∀ p : Production, ∃ taken,
      p.within (depthLimit - c.depth + 1) c = .done (p.parse c) taken ∧
        taken ≤ (Expr.body c.ahead).length) ∧
    (∀ k left levels,
      ((Expr.parseLinks k left levels c).result =
        (Expr.linkTurn? k left c).elim (.ok left, c.leave levels) fun turn =>
          (turn.andThen fun e after _ => Expr.parseLinks k e (levels + 1) after).result) ∧
      ∀ turn ∈ Expr.linkTurn? k left c, c.Turn turn.result) ∧
    ∀ args,
      ((Expr.parseArguments args c).result =
        (Expr.argumentTurn? c).elim (.ok args, c) fun turn =>
          (turn.andThen fun e after _ => Expr.parseArguments (e :: args) after).result) ∧
      ∀ turn ∈ Expr.argumentTurn? c, c.Turn turn.result := by
  refine ⟨fun p => ?_, fun k left levels => ?_, fun args => ?_⟩
  · have hlevels : depthLimit ≤ c.depth + (depthLimit - c.depth) := by omega
    obtain ⟨taken, hdone, htaken⟩ := p.within_agrees hlevels
    exact ⟨taken, hdone, by omega⟩
  · exact ⟨Expr.result_parseLinks k left levels c, fun _ hturn => Expr.turn_of_linkTurn? hturn⟩
  · exact ⟨Expr.result_parseArguments args c, fun _ hturn => Expr.turn_of_argumentTurn? hturn⟩

/-- In front of the first token of `(x)`, with one level left. -/
def Cursor.ofLastGroup : Cursor :=
  ⟨[], [⟨.lparen, "(", ⟨0, 1⟩⟩, ⟨.identifier, "x", ⟨1, 2⟩⟩, ⟨.rparen, ")", ⟨2, 3⟩⟩], 255⟩

/-- Behind the first token of `x+1`. -/
def Cursor.ofSecondTerm : Cursor :=
  ⟨[⟨.identifier, "x", ⟨0, 1⟩⟩], [⟨.operator, "+", ⟨1, 2⟩⟩, ⟨.number, "1", ⟨2, 3⟩⟩], 0⟩

/-- The last group that there is a level for is read with two factors open, and not with one. The sum
has a turn. -/
theorem Production.within_limit_last_group :
    factor.within 1 Cursor.ofLastGroup = .spent ∧
      (∃ taken, factor.within 2 Cursor.ofLastGroup = .done (factor.parse Cursor.ofLastGroup) taken ∧
        taken ≤ 3) ∧
      ∃ turn, Expr.linkTurn? .sum (.var "x") Cursor.ofSecondTerm = some turn ∧
        Cursor.ofSecondTerm.Turn turn.result := by
  refine ⟨?_, (within_limit Cursor.ofLastGroup).1 factor, ?_⟩
  · exact Expr.factorWithin_eq_spent (t := ⟨.lparen, "(", ⟨0, 1⟩⟩) (n := 1) rfl [] _ (by decide)
  · obtain ⟨turn, hturn⟩ : ∃ turn, Expr.linkTurn? .sum (.var "x") Cursor.ofSecondTerm = some turn :=
      Option.isSome_iff_exists.mp (by decide +kernel)
    obtain ⟨-, hlinks, -⟩ := within_limit Cursor.ofSecondTerm
    exact ⟨turn, hturn, (hlinks .sum (.var "x") 0).2 turn hturn⟩

end Loops

end Reckon
