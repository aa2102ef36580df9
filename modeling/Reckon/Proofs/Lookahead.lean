import Reckon.Proofs.Acceptance

/-!
# One token of lookahead

The parser never looks past the token that it is at. So a reading or a failure is decided by the
tokens that were passed and by what is seen at the cursor where it ended: the token there, or the
fact that the source has ended, and the position. Whatever else is put behind that, the parser does
the same.

A token that stands for the end of the source is seen like a missing one, as it is never passed; all
that is seen of it is where it starts.
-/
namespace Reckon

namespace Cursor

/-- What is seen at a cursor: the token, unless the source has ended, and the position. -/
def view (c : Cursor) : Option Token × Nat :=
  match c.ahead with
  | t :: _ => (if t.kind = .eof then none else some t, c.position)
  | [] => (none, c.position)

/-- The same place with other tokens ahead. -/
def facing (c : Cursor) (ts : List Token) : Cursor := { c with ahead := ts }

variable {c c' : Cursor} {ts us : List Token}

theorem kind_eq_view (c : Cursor) : c.kind = (c.view.1.map Token.kind).getD .eof := by
  obtain ⟨p, _ | ⟨t, ts⟩, d⟩ := c
  · rfl
  · by_cases ht : t.kind = .eof <;> simp [kind, view, ht]

theorem view_snd (c : Cursor) : c.view.2 = c.position := by
  obtain ⟨p, _ | ⟨t, ts⟩, d⟩ := c <;> rfl

theorem operator?_eq_view (ops : List String) (c : Cursor) :
    c.operator? ops =
      c.view.1.bind fun t => if ops.any t.isOperator then some t.lexeme else none := by
  obtain ⟨p, _ | ⟨t, ts⟩, d⟩ := c
  · rfl
  · by_cases ht : t.kind = .eof <;> simp [operator?, view, Token.isOperator, ht]

theorem unexpected_eq_view (c : Cursor) :
    c.unexpected =
      match c.view.1 with
      | some t => .unexpectedToken t.kind t.lexeme t.span.start
      | none => .unexpectedEnd c.view.2 := by
  obtain ⟨p, _ | ⟨t, ts⟩, d⟩ := c
  · rfl
  · by_cases ht : t.kind = .eof <;> simp [unexpected, view, ht]

theorem starts_iff_view (c : Cursor) :
    (∀ t ∈ c.current?, ¬ t.StartsFactor) ↔ ∀ t ∈ c.view.1, ¬ t.StartsFactor := by
  obtain ⟨p, _ | ⟨t, ts⟩, d⟩ := c
  · simp [view, current?]
  · by_cases ht : t.kind = .eof <;> simp [view, current?, Token.StartsFactor, Token.opens?, ht]

section Views
variable (h : c.view = c'.view)
include h

theorem kind_eq_of_view : c.kind = c'.kind := by rw [kind_eq_view, kind_eq_view, h]

theorem operator?_eq_of_view (ops : List String) : c.operator? ops = c'.operator? ops := by
  rw [operator?_eq_view, operator?_eq_view, h]

theorem unexpected_eq_of_view : c.unexpected = c'.unexpected := by
  rw [unexpected_eq_view, unexpected_eq_view, h]

theorem position_eq_of_view : c.position = c'.position := by
  rw [← view_snd, ← view_snd, h]

end Views

theorem exists_cons_of_view {p : List Token} {t : Token} {d : Nat} (ht : t.kind ≠ .eof)
    (h : c.view = view ⟨p, t :: ts, d⟩) : ∃ us, c.ahead = t :: us := by
  have hfst : c.view.1 = some t := by
    rw [h]
    exact if_neg ht
  obtain ⟨p, _ | ⟨u, us⟩, d⟩ := c
  · cases hfst
  · obtain ⟨-, hu⟩ := Option.ite_none_left_eq_some.mp hfst
    cases hu
    exact ⟨us, rfl⟩

/-- What is seen before some tokens are passed depends on what comes behind them only as far as it
is seen after. -/
theorem Passes.view_facing (h : c.Passes us c') (hview : (c'.facing ts).view = c'.view) :
    (c.facing (us ++ ts)).view = c.view := by
  obtain ⟨p, as, d⟩ := c
  obtain ⟨p', as', d'⟩ := c'
  have hahead : as = us ++ as' := h.ahead
  have hpassed : p' = us.reverse ++ p := h.passed
  subst hahead hpassed
  cases us with
  | nil => exact hview
  | cons t us => rfl

/-- The relation holds between the cursors, and it would with any other tokens behind what is seen
at the second one. -/
def Local (P : Cursor → Cursor → Prop) (c c' : Cursor) : Prop :=
  ∃ us, c.Passes us c' ∧
    ∀ ts, (c'.facing ts).view = c'.view → P (c.facing (us ++ ts)) (c'.facing ts)

namespace Local
variable {P Q : Cursor → Cursor → Prop} {c'' : Cursor} {p : List Token} {t : Token} {d d' : Nat}

theorem here (h : ∀ ts, (c.facing ts).view = c.view → P (c.facing ts) (c.facing ts)) :
    Local P c c :=
  ⟨[], .nil, h⟩

theorem same : Local (fun a b => a = b ∧ a.view = c.view) c c := .here fun _ hview => ⟨rfl, hview⟩

theorem token (h : ∀ ts, P ⟨p, t :: ts, d⟩ ⟨t :: p, ts, d'⟩) :
    Local P ⟨p, t :: ts, d⟩ ⟨t :: p, ts, d'⟩ :=
  ⟨[t], ⟨rfl, rfl⟩, fun ts _ => h ts⟩

theorem map (h : Local P c c')
    (hmap : ∀ as bs, (c.facing as).view = c.view → (c'.facing bs).view = c'.view →
      P (c.facing as) (c'.facing bs) →
      Q { c with ahead := as, depth := d } { c' with ahead := bs, depth := d' }) :
    Local Q { c with depth := d } { c' with depth := d' } := by
  obtain ⟨us, hpasses, hlocal⟩ := h
  exact ⟨us, ⟨hpasses.ahead, hpasses.passed⟩, fun ts hview =>
    hmap _ _ (hpasses.view_facing hview) hview (hlocal ts hview)⟩

theorem trans (h : Local P c c') (h' : Local Q c' c'') :
    Local (fun a x => ∃ b, P a b ∧ Q b x) c c'' := by
  obtain ⟨us, hpasses, hlocal⟩ := h
  obtain ⟨us', hpasses', hlocal'⟩ := h'
  refine ⟨us ++ us', hpasses.append hpasses', fun ts hview => ?_⟩
  rw [List.append_assoc]
  exact ⟨_, hlocal _ (hpasses'.view_facing hview), hlocal' ts hview⟩

theorem cons (h : Local P ⟨t :: p, ts, d'⟩ c')
    (hcons : ∀ as b, P ⟨t :: p, as, d'⟩ b → Q ⟨p, t :: as, d⟩ b) : Local Q ⟨p, t :: ts, d⟩ c' := by
  obtain ⟨us, hpasses, hlocal⟩ := h
  exact ⟨t :: us, hpasses.cons, fun ts hview => hcons _ _ (hlocal ts hview)⟩

theorem cons₂ {u : Token} (h : Local P ⟨u :: t :: p, ts, d'⟩ c')
    (hcons : ∀ as b, P ⟨u :: t :: p, as, d'⟩ b → Q ⟨p, t :: u :: as, d⟩ b) :
    Local Q ⟨p, t :: u :: ts, d⟩ c' := by
  obtain ⟨us, hpasses, hlocal⟩ := h
  exact ⟨t :: u :: us, (hpasses.cons (d := d')).cons, fun ts hview => hcons _ _ (hlocal ts hview)⟩

theorem trans_cons (h : Local P c ⟨p, t :: ts, d⟩) (h' : Local Q ⟨t :: p, ts, d'⟩ c'') :
    Local (fun a x => ∃ as, P a ⟨p, t :: as, d⟩ ∧ Q ⟨t :: p, as, d'⟩ x) c c'' := by
  obtain ⟨us, hpasses, hlocal⟩ := h
  obtain ⟨us', hpasses', hlocal'⟩ := h'
  refine ⟨us ++ t :: us', hpasses.append hpasses'.cons, fun ts hview => ?_⟩
  rw [List.append_assoc]
  exact ⟨us' ++ ts, hlocal _ rfl, hlocal' ts hview⟩

end Local

end Cursor

open Cursor (Local)

theorem Token.ne_eof_of_opens? {t : Token} {task : Task} (h : t.opens? = some task) :
    t.kind ≠ .eof := by
  intro ht
  simp [opens?, ht] at h

/-- A reading is decided by the tokens that it passes and by what is seen behind them. -/
theorem Reads.isLocal {task : Task} {c c' : Cursor} {e : Expr} (h : Reads task c e c') :
    Local (Reads task · e ·) c c' := by
  induction h with
  | number hk hx => exact .token fun _ => .number hk hx
  | constant hk hx => exact .token fun _ => .constant hk hx
  | name hk => exact .token fun _ => .name hk
  | close hk => exact .token fun _ => .close hk
  | negation hk _ ih => exact ih.cons fun _ _ hr => .negation hk hr
  | @grouping p p' ts ts' d d' l r e hl _ hr ih =>
    refine (ih.trans_cons (.same (c := ⟨r :: p', ts', d'⟩))).cons ?_
    rintro as _ ⟨bs, he, rfl, -⟩
    exact .grouping hl he hr
  | call hf hl _ _ ih ih' =>
    exact (ih.trans ih').cons₂ fun _ _ ⟨_, hfirst, he⟩ => .call hf hl hfirst he
  | argument hk _ _ ih ih' =>
    exact (ih.trans ih').cons fun _ _ ⟨_, he, hrest⟩ => .argument hk he hrest
  | ofNumber hk _ ih =>
    exact ih.map fun _ _ hview _ hr => .ofNumber ((Cursor.kind_eq_of_view hview).trans hk) hr
  | ofConstant hk _ ih =>
    exact ih.map fun _ _ hview _ hr => .ofConstant ((Cursor.kind_eq_of_view hview).trans hk) hr
  | enclosed ht hd _ ih =>
    refine ih.map fun as _ hview _ hr => ?_
    obtain ⟨as, rfl⟩ := Cursor.exists_cons_of_view (Token.ne_eof_of_opens? ht) hview
    exact .enclosed ht hd hr
  | base _ hop ih =>
    exact ih.map fun _ _ _ hview hr => .base hr ((Cursor.operator?_eq_of_view hview _).trans hop)
  | raised _ ht hd _ ih ih' =>
    exact (ih.trans_cons ih').map fun _ _ _ _ ⟨_, hbase, he⟩ => .raised hbase ht hd he
  | term _ ih => exact ih.map fun _ _ _ _ hr => .term hr
  | ofPower _ ih => exact ih.map fun _ _ _ _ hr => .ofPower hr
  | chain _ _ ih ih' => exact (ih.trans ih').map fun _ _ _ _ ⟨_, hr, hlinks⟩ => .chain hr hlinks
  | @done k left n c hop =>
    refine (Local.same (c := c)).map ?_
    rintro as bs - - ⟨heq, hview⟩
    cases heq
    exact .done ((Cursor.operator?_eq_of_view hview _).trans hop)
  | link ht hd _ _ ih ih' =>
    exact (ih.trans ih').cons fun _ _ ⟨_, hr, hlinks⟩ => .link ht hd hr hlinks

theorem Reads.tokens_eq {task : Task} {c c' : Cursor} {e : Expr} (h : Reads task c e c') :
    c'.tokens = c.tokens := by
  obtain ⟨ts, hpasses, -⟩ := h.isLocal
  exact hpasses.tokens_eq

theorem Fails.here {task : Task} {c : Cursor}
    (h : ∀ b : Cursor, b.view = c.view → Fails task b b.unexpected b) :
    Local (Fails task · c.unexpected ·) c c := by
  refine .here fun ts hview => ?_
  rw [← Cursor.unexpected_eq_of_view hview]
  exact h _ hview

/-- A failure is decided by the tokens in front of it and by what is seen where it is found. -/
theorem Fails.isLocal {task : Task} {c c' : Cursor} {err : ParseError}
    (h : Fails task c err c') : Local (Fails task · err ·) c c' := by
  induction h with
  | @ended task c htask hk =>
    refine .here fun ts hview => ?_
    rw [← Cursor.position_eq_of_view hview]
    exact .ended htask ((Cursor.kind_eq_of_view hview).trans hk)
  | unreadable hk hx => exact .token fun _ => .unreadable hk hx
  | unknown hk hx => exact .token fun _ => .unknown hk hx
  | negation hk _ ih => exact ih.cons fun _ _ hf => .negation hk hf
  | unopened hk => exact Fails.here fun _ hview => .unopened (Cursor.kind_eq_of_view hview ▸ hk)
  | grouping hl _ ih => exact ih.cons fun _ _ hf => .grouping hl hf
  | @unclosed p ts d l e c hl hr hk =>
    have hinside : Local (fun a b => Reads (.chain .sum) a e b ∧ b.view = c.view)
        ⟨l :: p, ts, d⟩ c := hr.isLocal.map fun _ _ _ hview he => ⟨he, hview⟩
    refine hinside.cons ?_
    rintro as b ⟨he, hview⟩
    rw [← Cursor.unexpected_eq_of_view hview]
    exact .unclosed hl he (Cursor.kind_eq_of_view hview ▸ hk)
  | unnamed hk => exact Fails.here fun _ hview => .unnamed (Cursor.kind_eq_of_view hview ▸ hk)
  | @bare p ts d f hf hk =>
    refine (Local.same (c := ⟨f :: p, ts, d⟩)).cons ?_
    rintro as _ ⟨rfl, hview⟩
    rw [← Cursor.unexpected_eq_of_view hview]
    exact .bare hf (Cursor.kind_eq_of_view hview ▸ hk)
  | first hf hl _ ih => exact ih.cons₂ fun _ _ hfail => .first hf hl hfail
  | call hf hl hr _ ih =>
    exact (hr.isLocal.trans ih).cons₂ fun _ _ ⟨_, he, hfail⟩ => .call hf hl he hfail
  | argument hk _ ih => exact ih.cons fun _ _ hf => .argument hk hf
  | arguments hk hr _ ih =>
    exact (hr.isLocal.trans ih).cons fun _ _ ⟨_, he, hf⟩ => .arguments hk he hf
  | unfinished hcomma hk =>
    refine Fails.here fun b hview => ?_
    have hkind : b.kind = _ := Cursor.kind_eq_of_view hview
    exact .unfinished (hkind ▸ hcomma) (hkind ▸ hk)
  | ofNumber hk _ ih =>
    exact ih.map fun _ _ hview _ hf => .ofNumber ((Cursor.kind_eq_of_view hview).trans hk) hf
  | ofConstant hk _ ih =>
    exact ih.map fun _ _ hview _ hf => .ofConstant ((Cursor.kind_eq_of_view hview).trans hk) hf
  | @noFactor c hstarts =>
    refine Fails.here fun b hview => .noFactor ?_
    rw [Cursor.starts_iff_view] at hstarts ⊢
    rwa [hview]
  | full ht hd =>
    refine .here fun ts hview => ?_
    obtain ⟨ts, rfl⟩ := Cursor.exists_cons_of_view (Token.ne_eof_of_opens? ht) hview
    exact .full ht hd
  | enclosed ht hd _ ih =>
    refine ih.map fun as _ hview _ hf => ?_
    obtain ⟨as, rfl⟩ := Cursor.exists_cons_of_view (Token.ne_eof_of_opens? ht) hview
    exact .enclosed ht hd hf
  | base _ ih => exact ih.map fun _ _ _ _ hf => .base hf
  | @powerFull p ts d t base c hr ht hd =>
    refine (hr.isLocal.trans_cons (.same (c := ⟨t :: p, ts, d⟩))).map ?_
    rintro as bs - - ⟨cs, hbase, heq, hview⟩
    cases heq
    rw [← Cursor.position_eq_of_view hview]
    exact .powerFull hbase ht hd
  | exponent hr ht hd _ ih =>
    exact (hr.isLocal.trans_cons ih).map fun _ _ _ _ ⟨_, hbase, hf⟩ => .exponent hbase ht hd hf
  | term _ ih => exact ih.map fun _ _ _ _ hf => .term hf
  | ofPower _ ih => exact ih.map fun _ _ _ _ hf => .ofPower hf
  | chain _ ih => exact ih.map fun _ _ _ _ hf => .chain hf
  | links hr _ ih =>
    exact (hr.isLocal.trans ih).map fun _ _ _ _ ⟨_, he, hf⟩ => .links he hf
  | linkFull ht hd =>
    refine .here fun ts hview => ?_
    obtain ⟨ts, rfl⟩ := Cursor.exists_cons_of_view ht.ne_eof hview
    exact .linkFull ht hd
  | operand ht hd _ ih => exact ih.cons fun _ _ hf => .operand ht hd hf
  | link ht hd hr _ ih =>
    exact (hr.isLocal.trans ih).cons fun _ _ ⟨_, he, hf⟩ => .link ht hd he hf

end Reckon
