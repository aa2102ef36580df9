import Reckon.Proofs.Lookahead

/-!
# Keeping count of levels

Whatever part of the grammar a parser is asked for, and whatever it has been asked for before, it
comes back in order. Its tokens are those that it was given, it has not gone back, and it has not gone
past the end of the source nor below the limit on levels.

A success has left all the levels that it entered, so the count of levels is what it was before. A
failure is found somewhere inside a phrase and leaves the parser there. What enters one level, a
group for instance, leaves that level also when it fails, but a chain that fails keeps the levels of
its links. So the count of levels may have grown, and it has not fallen: a level that was entered
before is not left.
-/
namespace Reckon

/-- The levels that the task has entered before it begins, all of which it leaves. -/
def Task.opened : Task → Nat
  | links _ _ levels => levels
  | _ => 0

theorem Task.opened_of_opens? {t : Token} {task : Task} (h : t.opens? = some task) :
    task.opened = 0 := by
  rcases Token.opens?_eq_some_iff.mp h with ⟨rfl, -⟩ | ⟨rfl, -⟩ | ⟨rfl, -⟩ <;> rfl

section Readings
variable {task : Task} {c c' : Cursor} {e : Expr} {err : ParseError}

/-- A reading leaves the levels that it enters. -/
theorem Reads.depth_eq (h : Reads task c e c') : c'.depth = c.depth - task.opened := by
  induction h with
  | number | constant | name | close | done => rfl
  | enclosed ht _ _ ih =>
    rw [Task.opened_of_opens? ht] at ih
    simp only [Cursor.leave, Task.opened, ih]
    omega
  | raised _ _ _ _ ih ih' =>
    simp only [Cursor.leave, Task.opened] at ih ih' ⊢
    omega
  | negation _ _ ih | grouping _ _ _ ih | ofNumber _ _ ih | ofConstant _ _ ih | base _ _ ih
  | term _ ih | ofPower _ ih => exact ih
  | call _ _ _ _ ih ih' | argument _ _ _ ih ih' | chain _ _ ih ih' | link _ _ _ _ ih ih' =>
    simp only [Task.opened] at ih ih' ⊢
    omega

/-- A failure leaves no level that was entered before it, and keeps to the limit. -/
theorem Fails.depth_bounds (h : Fails task c err c') :
    c.depth ≤ c'.depth ∧ c'.depth ≤ max c.depth depthLimit := by
  induction h with
  | ended | unreadable | unknown | unopened | unnamed | bare | unfinished | noFactor | full
  | linkFull => exact ⟨Nat.le_refl _, Nat.le_max_left ..⟩
  | unclosed _ hr _ | powerFull hr _ _ =>
    have hdepth := hr.depth_eq
    simp only [Task.opened] at hdepth ⊢
    omega
  | enclosed _ _ _ ih | operand _ _ _ ih =>
    simp only [Cursor.leave] at ih ⊢
    omega
  | exponent hr _ _ _ ih =>
    have hdepth := hr.depth_eq
    simp only [Cursor.leave, Task.opened] at hdepth ih ⊢
    omega
  | call _ _ hr _ ih | arguments _ hr _ ih | links hr _ ih | link _ _ hr _ ih =>
    have hdepth := hr.depth_eq
    simp only [Task.opened] at hdepth ⊢
    omega
  | negation _ _ ih | grouping _ _ ih | first _ _ _ ih | argument _ _ ih | ofNumber _ _ ih
  | ofConstant _ _ ih | base _ ih | term _ ih | ofPower _ ih | chain _ ih => exact ih

def Clear (ts : List Token) : Prop := ∀ t ∈ ts, t.kind ≠ .eof

theorem Clear.cons {t : Token} {ts : List Token} (h : Clear ts) (ht : t.kind ≠ .eof) :
    Clear (t :: ts) :=
  List.forall_mem_cons.mpr ⟨ht, h⟩

theorem Clear.cons_of_eq {t : Token} {ts : List Token} {kind : TokenKind} (h : Clear ts)
    (ht : t.kind = kind) (hkind : kind ≠ .eof) : Clear (t :: ts) :=
  h.cons (ht ▸ hkind)

theorem Reads.clear (h : Reads task c e c') (hc : Clear c.passed) : Clear c'.passed := by
  induction h with
  | number hk _ | constant hk _ => exact hc.cons hk
  | name hk | close hk => exact hc.cons_of_eq hk nofun
  | negation hk _ ih => exact ih (hc.cons hk)
  | grouping hl _ hr ih => exact (ih (hc.cons_of_eq hl nofun)).cons_of_eq hr nofun
  | call hf hl _ _ ih ih' => exact ih' (ih ((hc.cons_of_eq hf nofun).cons_of_eq hl nofun))
  | argument hk _ _ ih ih' => exact ih' (ih (hc.cons_of_eq hk nofun))
  | ofNumber _ _ ih | ofConstant _ _ ih | enclosed _ _ _ ih | base _ _ ih | term _ ih
  | ofPower _ ih => exact ih hc
  | raised _ ht _ _ ih ih' => exact ih' ((ih hc).cons ht.ne_eof)
  | chain _ _ ih ih' => exact ih' (ih hc)
  | done => exact hc
  | link ht _ _ _ ih ih' => exact ih' (ih (hc.cons ht.ne_eof))

theorem Fails.clear (h : Fails task c err c') (hc : Clear c.passed) : Clear c'.passed := by
  induction h with
  | ended | unopened | unnamed | unfinished | noFactor | full | linkFull => exact hc
  | unreadable hk _ | unknown hk _ => exact hc.cons hk
  | negation hk _ ih => exact ih (hc.cons hk)
  | grouping hl _ ih => exact ih (hc.cons_of_eq hl nofun)
  | unclosed hl hr _ => exact hr.clear (hc.cons_of_eq hl nofun)
  | bare hf _ => exact hc.cons_of_eq hf nofun
  | first hf hl _ ih => exact ih ((hc.cons_of_eq hf nofun).cons_of_eq hl nofun)
  | call hf hl hr _ ih => exact ih (hr.clear ((hc.cons_of_eq hf nofun).cons_of_eq hl nofun))
  | argument hk _ ih => exact ih (hc.cons_of_eq hk nofun)
  | arguments hk hr _ ih => exact ih (hr.clear (hc.cons_of_eq hk nofun))
  | ofNumber _ _ ih | ofConstant _ _ ih | enclosed _ _ _ ih | base _ ih | term _ ih | ofPower _ ih
  | chain _ ih => exact ih hc
  | powerFull hr ht _ => exact (hr.clear hc).cons ht.ne_eof
  | exponent hr ht _ _ ih => exact ih ((hr.clear hc).cons ht.ne_eof)
  | links hr _ ih => exact ih (hr.clear hc)
  | operand ht _ _ ih => exact ih (hc.cons ht.ne_eof)
  | link ht _ hr _ ih => exact ih (hr.clear (hc.cons ht.ne_eof))

namespace Cursor

def place (c : Cursor) : Nat := c.passed.length

def atDepth (c : Cursor) (d : Nat) : Cursor := { c with depth := d }

theorem place_add_length_ahead (c : Cursor) : c.place + c.ahead.length = c.tokens.length := by
  simp [place, tokens]

/-- The cursor keeps to its tokens, to the source and to the limit on levels. -/
structure Good (c : Cursor) : Prop where
  depth_le : c.depth ≤ depthLimit
  place_le : c.place ≤ c.tokens.length
  clear : Clear c.passed

theorem good_ofTokens (tokens : List Token) : (ofTokens tokens).Good :=
  ⟨Nat.zero_le _, Nat.zero_le _, nofun⟩

/-- The second cursor is good and not behind the first, in the same tokens. -/
structure Later (c c' : Cursor) : Prop where
  tokens_eq : c'.tokens = c.tokens
  place_le : c.place ≤ c'.place
  good : c'.Good

/-- What is left of a cursor when an expression has been read there or has not: a success has passed a
token and has left the levels that it entered, and a failure has left none that was entered before. -/
structure Orderly (c : Cursor) (r : Except ParseError Expr × Cursor) : Prop where
  later : c.Later r.2
  of_ok : ∀ e, r.1 = .ok e → r.2.depth = c.depth ∧ c.place < r.2.place
  of_error : ∀ err, r.1 = .error err → c.depth ≤ r.2.depth

theorem Later.refl (h : c.Good) : c.Later c := ⟨rfl, Nat.le_refl _, h⟩

theorem Later.trans {c'' : Cursor} (h : c.Later c') (h' : c'.Later c'') : c.Later c'' :=
  ⟨h'.tokens_eq.trans h.tokens_eq, Nat.le_trans h.place_le h'.place_le, h'.good⟩

theorem Later.atDepth {d : Nat} (h : c.Later c') (hd : d ≤ depthLimit) : c.Later (c'.atDepth d) :=
  ⟨h.tokens_eq, h.place_le, hd, h.good.place_le, h.good.clear⟩

theorem Later.leave (h : c.Later c') (levels : Nat) : c.Later (c'.leave levels) :=
  h.atDepth (Nat.le_trans (Nat.sub_le ..) h.good.depth_le)

theorem Passes.later {us : List Token} (h : c.Passes us c') (hdepth : c'.depth ≤ depthLimit)
    (hclear : Clear c'.passed) : c.Later c' := by
  have hlength := c'.place_add_length_ahead
  refine ⟨h.tokens_eq, ?_, hdepth, by omega, hclear⟩
  simp [place, h.passed]

theorem Orderly.depth_le {r : Except ParseError Expr × Cursor} (h : c.Orderly r) :
    c.depth ≤ r.2.depth := by
  cases hr : r.1 with
  | ok e => exact Nat.le_of_eq (h.of_ok e hr).1.symm
  | error err => exact h.of_error err hr

theorem Orderly.refused (h : c.Good) : c.Orderly (.error err, c) :=
  ⟨.refl h, nofun, fun _ _ => Nat.le_refl _⟩

theorem Orderly.leave {r : Except ParseError Expr × Cursor} (h : c.deeper.Orderly r) :
    c.Orderly (r.1, r.2.leave 1) := by
  have hlater : c.Later r.2 := ⟨h.later.tokens_eq, h.later.place_le, h.later.good⟩
  refine ⟨hlater.leave 1, fun e hr => ?_, fun err hr => ?_⟩
  · have ⟨hdepth, hplace⟩ := h.of_ok e hr
    exact ⟨congrArg (· - 1) hdepth, hplace⟩
  · exact Nat.le_sub_of_add_le (h.of_error err hr)

end Cursor

theorem Reads.orderly (h : Reads task c e c') (hopened : task.opened = 0) (hleast : task.least = 1)
    (hc : c.Good) : c.Orderly (.ok e, c') := by
  obtain ⟨us, hpasses, -⟩ := h.isLocal
  have hdepth : c'.depth = c.depth := by rw [h.depth_eq, hopened, Nat.sub_zero]
  have hplace : c.place < c'.place := by
    have hlength := h.length_ahead
    have hbefore := c.place_add_length_ahead
    have hafter := c'.place_add_length_ahead
    rw [h.tokens_eq] at hafter
    omega
  have hlater : c.Later c' := hpasses.later (hdepth ▸ hc.depth_le) (h.clear hc.clear)
  exact ⟨hlater, fun _ _ => ⟨hdepth, hplace⟩, nofun⟩

theorem Fails.orderly (h : Fails task c err c') (hc : c.Good) : c.Orderly (.error err, c') := by
  obtain ⟨us, hpasses, -⟩ := h.isLocal
  have ⟨hdepth, hlimit⟩ := h.depth_bounds
  rw [Nat.max_eq_right hc.depth_le] at hlimit
  exact ⟨hpasses.later hlimit (h.clear hc.clear), nofun, fun _ _ => hdepth⟩

end Readings

namespace Production
variable {c c' : Cursor} {e : Expr} {err : ParseError}

def task : Production → Task
  | expression => .chain .sum
  | term => .chain .product
  | power => .power
  | factor => .factor
  | number => .number
  | constant => .constant
  | negation => .negation
  | grouping => .grouping
  | call => .call

theorem result_parse (p : Production) (c : Cursor) : (p.parse c).result = p.task.run c := by
  cases p <;> rfl

theorem result_parse_eq_ok_iff (p : Production) :
    (p.parse c).result = (.ok e, c') ↔ Reads p.task c e c' := by
  rw [result_parse]
  exact Task.run_eq_ok_iff

theorem result_parse_eq_error_iff (p : Production) :
    (p.parse c).result = (.error err, c') ↔ Fails p.task c err c' := by
  rw [result_parse]
  exact Task.run_eq_error_iff

theorem settled (p : Production) (c : Cursor) :
    (∃ e c', Reads p.task c e c' ∧ (p.parse c).result = (.ok e, c')) ∨
      ∃ err c', Fails p.task c err c' ∧ (p.parse c).result = (.error err, c') := by
  rcases p.task.settled c with ⟨e, c', hr⟩ | ⟨err, c', hf⟩
  · exact .inl ⟨e, c', hr, p.result_parse_eq_ok_iff.mpr hr⟩
  · exact .inr ⟨err, c', hf, p.result_parse_eq_error_iff.mpr hf⟩

@[simp] theorem opened_task (p : Production) : p.task.opened = 0 := by cases p <;> rfl

@[simp] theorem least_task (p : Production) : p.task.least = 1 := by cases p <;> rfl

def parseDeeper (p : Production) (c : Cursor) : Outcome c.ahead.length Expr :=
  c.nested fun _ => p.parse c.deeper

theorem result_parseDeeper (p : Production) (c : Cursor) :
    (p.parseDeeper c).result =
      if c.depth < depthLimit then
        ((p.parse c.deeper).result.1, (p.parse c.deeper).result.2.leave 1)
      else (.error (.nestingTooDeep depthLimit c.position), c) :=
  Cursor.result_nested (c := c) fun _ => p.parse c.deeper

theorem orderly_parse (p : Production) (h : c.Good) : c.Orderly (p.parse c).result := by
  rcases p.settled c with ⟨e, c', hr, hresult⟩ | ⟨err, c', hf, hresult⟩
  · rw [hresult]
    exact hr.orderly p.opened_task p.least_task h
  · rw [hresult]
    exact hf.orderly h

theorem orderly_parseDeeper (p : Production) (h : c.Good) : c.Orderly (p.parseDeeper c).result := by
  rw [result_parseDeeper]
  split
  · rename_i hroom
    have hdeeper : c.deeper.Good := ⟨hroom, h.place_le, h.clear⟩
    exact (p.orderly_parse hdeeper).leave
  · exact .refused h

end Production

/-- What a parser can be asked for. -/
inductive Operation where
  | parse (p : Production)
  | parseDeeper (p : Production)
  | advance
  | expect (kind : TokenKind)
  | enter
  | leave (levels : Nat)

def Operation.run (op : Operation) (c : Cursor) : Cursor :=
  match op with
  | parse p => (p.parse c).result.2
  | parseDeeper p => (p.parseDeeper c).result.2
  | advance => c.advance.result.2
  | expect kind => (c.expect kind).result.2
  | enter =>
    match c.enter with
    | .ok inner => inner
    | .error _ => c
  | leave levels => c.leave levels

def Cursor.after (c : Cursor) (ops : List Operation) : Cursor :=
  ops.foldl (fun c op => op.run c) c

section Operations
variable {c : Cursor} {ops : List Operation}

theorem Cursor.depth_advance (c : Cursor) : c.advance.result.2.depth = c.depth := by
  by_cases hk : c.kind = .eof
  · rw [advance_of_eof hk]
  · obtain ⟨p, _ | ⟨t, ts⟩, d⟩ := c
    · exact absurd rfl hk
    · rw [advance_of_ne_eof hk]

theorem Cursor.depth_expect (kind : TokenKind) (c : Cursor) :
    (c.expect kind).result.2.depth = c.depth := by
  unfold expect
  split
  · exact c.depth_advance
  · rfl

theorem Cursor.Good.advance (h : c.Good) : c.Later c.advance.result.2 := by
  by_cases hk : c.kind = .eof
  · rw [Cursor.advance_of_eof hk]
    exact .refl h
  · obtain ⟨p, _ | ⟨t, ts⟩, d⟩ := c
    · exact absurd rfl hk
    · rw [Cursor.advance_of_ne_eof hk]
      have hpasses : Cursor.Passes ⟨p, t :: ts, d⟩ [t] ⟨t :: p, ts, d⟩ := .cons .nil
      exact hpasses.later h.depth_le (h.clear.cons hk)

/-- Every operation leads from a good cursor to a later one, and all but one leave no level that was
entered before. -/
theorem Operation.later_run (op : Operation) (h : c.Good) :
    c.Later (op.run c) ∧ ((∀ levels, op ≠ leave levels) → c.depth ≤ (op.run c).depth) := by
  cases op with
  | parse p => exact ⟨(p.orderly_parse h).later, fun _ => (p.orderly_parse h).depth_le⟩
  | parseDeeper p =>
    exact ⟨(p.orderly_parseDeeper h).later, fun _ => (p.orderly_parseDeeper h).depth_le⟩
  | advance => exact ⟨h.advance, fun _ => Nat.le_of_eq c.depth_advance.symm⟩
  | expect kind =>
    refine ⟨?_, fun _ => Nat.le_of_eq (c.depth_expect kind).symm⟩
    by_cases hk : c.kind = kind
    · rw [run, Cursor.expect, if_pos hk]
      exact h.advance
    · rw [run, Cursor.expect, if_neg hk]
      exact .refl h
  | enter =>
    by_cases hroom : c.depth < depthLimit
    · rw [run, Cursor.enter, if_pos hroom]
      exact ⟨(Cursor.Later.refl h).atDepth hroom, fun _ => Nat.le_succ _⟩
    · rw [run, Cursor.enter, if_neg hroom]
      exact ⟨.refl h, fun _ => Nat.le_refl _⟩
  | leave levels => exact ⟨(Cursor.Later.refl h).leave levels, fun hop => absurd rfl (hop levels)⟩

theorem Cursor.later_after (h : c.Good) (ops : List Operation) : c.Later (c.after ops) := by
  induction ops generalizing c with
  | nil => exact .refl h
  | cons op ops ih => exact (op.later_run h).1.trans (ih (op.later_run h).1.good)

theorem Cursor.depth_le_after (h : c.Good) (hops : ∀ levels, .leave levels ∉ ops) :
    c.depth ≤ (c.after ops).depth := by
  induction ops generalizing c with
  | nil => exact Nat.le_refl _
  | cons op ops ih =>
    have ⟨hlater, hdepth⟩ := op.later_run h
    have hop : ∀ levels, op ≠ .leave levels := by
      intro levels heq
      exact hops levels (heq ▸ List.mem_cons_self)
    have hrest := ih hlater.good fun levels hmem => hops levels (List.mem_cons_of_mem _ hmem)
    exact Nat.le_trans (hdepth hop) hrest

/-- The cursors that operations lead to from the start of some tokens. -/
inductive Cursor.Reachable : Cursor → Prop
  | start (tokens : List Token) : Reachable (.ofTokens tokens)
  | step {c : Cursor} (op : Operation) : Reachable c → Reachable (op.run c)

theorem Cursor.reachable_ofTokens_atDepth (tokens : List Token) {d : Nat} (h : d ≤ depthLimit) :
    ((ofTokens tokens).atDepth d).Reachable := by
  induction d with
  | zero => exact .start tokens
  | succ d ih =>
    have hroom : ((ofTokens tokens).atDepth d).depth < depthLimit := h
    have hrun : Operation.enter.run ((ofTokens tokens).atDepth d) =
        (ofTokens tokens).atDepth (d + 1) := by
      rw [Operation.run, Cursor.enter, if_pos hroom]
      rfl
    rw [← hrun]
    exact .step .enter (ih (Nat.le_of_succ_le h))

/-- After whatever a parser has been asked for, and with whatever success, it is at a good place in its
tokens and no further back. It is as deep as before or deeper, unless it was told to leave levels. And
there every part of the grammar is read in order, at its own level or one deeper. -/
theorem Production.orderly_after (c : Cursor) (h : c.Good) (ops : List Operation) :
    c.Later (c.after ops) ∧
      ((∀ levels, .leave levels ∉ ops) → c.depth ≤ (c.after ops).depth) ∧
      ∀ p : Production, (c.after ops).Orderly (p.parse (c.after ops)).result ∧
        (c.after ops).Orderly (p.parseDeeper (c.after ops)).result := by
  have hlater := c.later_after h ops
  refine ⟨hlater, c.depth_le_after h, fun p => ?_⟩
  exact ⟨p.orderly_parse hlater.good, p.orderly_parseDeeper hlater.good⟩

/-- In front of the first token of `1+(2`. -/
def Cursor.ofOpenSum : Cursor :=
  .ofTokens [⟨.number, "1", ⟨0, 1⟩⟩, ⟨.operator, "+", ⟨1, 2⟩⟩, ⟨.lparen, "(", ⟨2, 3⟩⟩,
    ⟨.number, "2", ⟨3, 4⟩⟩]

/-- The expression `1+(2` fails at its end, with the level of the sum still open. -/
theorem Production.orderly_after_open_sum :
    Cursor.ofOpenSum.Good ∧ Cursor.ofOpenSum.after [.parse .expression] =
        ⟨Cursor.ofOpenSum.ahead.reverse, [], 1⟩ ∧
      Cursor.ofOpenSum.Later (Cursor.ofOpenSum.after [.parse .expression]) ∧
      (Cursor.ofOpenSum.after [.parse .expression]).Orderly
        (expression.parse (Cursor.ofOpenSum.after [.parse .expression])).result := by
  have hgood : Cursor.ofOpenSum.Good := Cursor.good_ofTokens _
  obtain ⟨hlater, -, horderly⟩ := orderly_after Cursor.ofOpenSum hgood [.parse .expression]
  exact ⟨hgood, by decide +kernel, hlater, (horderly .expression).1⟩

end Operations

end Reckon
