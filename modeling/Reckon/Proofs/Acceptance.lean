import Reckon.Proofs.Grammar

/-!
# What the parser accepts

The parser accepts the tokens in front of the end of the source exactly if the grammar derives them
within the level limit, and then it returns the tree of the derivation.

Both halves are about every task at every cursor. A reading has a derivation behind it, for the
tokens that it passed and within the levels that were left. A derivation is read token for token if
its levels fit in what is left, and runs into the limit if they do not. A chain is read link by link
and ends where no further link follows, so for chains and for arguments both halves are stated of
what has been read so far.
-/
namespace Reckon
open Text

namespace Cursor

/-- The tokens lie between the two cursors. -/
structure Passes (c : Cursor) (ts : List Token) (c' : Cursor) : Prop where
  ahead : c.ahead = ts ++ c'.ahead
  passed : c'.passed = ts.reverse ++ c.passed

variable {c c' c'' : Cursor} {ts us : List Token}

theorem Passes.nil : c.Passes [] c := ⟨rfl, rfl⟩

theorem Passes.append (h : c.Passes ts c') (h' : c'.Passes us c'') : c.Passes (ts ++ us) c'' :=
  ⟨by rw [h.ahead, h'.ahead, List.append_assoc],
    by rw [h'.passed, h.passed, List.reverse_append, List.append_assoc]⟩

theorem Passes.cons {p : List Token} {d d' : Nat} {t : Token}
    (h : Passes ⟨t :: p, ts, d'⟩ us c) : Passes ⟨p, t :: ts, d⟩ (t :: us) c :=
  ⟨congrArg (t :: ·) h.ahead, by simp [h.passed]⟩

theorem Passes.snoc {p : List Token} {d d' : Nat} {t : Token}
    (h : c.Passes us ⟨p, t :: ts, d⟩) : c.Passes (us ++ [t]) ⟨t :: p, ts, d'⟩ :=
  ⟨by simp [h.ahead], by simpa using h.passed⟩

theorem Passes.tokens_eq (h : c.Passes ts c') : c'.tokens = c.tokens := by
  rw [tokens, tokens, h.ahead, h.passed, List.reverse_append, List.reverse_reverse,
    List.append_assoc]

end Cursor

/-- The tokens between the cursors spell the phrase, within the levels left at the first cursor, and
no level is left open. -/
def Phrase.Between (phrase : Phrase) (c : Cursor) (n : Nat) (c' : Cursor) : Prop :=
  ∃ ts, c.Passes ts c' ∧ Spells phrase ts n ∧ c.depth + n ≤ depthLimit ∧ c'.depth = c.depth

/-- The same of a phrase that one level has been entered for already. -/
def Phrase.Inside (phrase : Phrase) (c : Cursor) (n : Nat) (c' : Cursor) : Prop :=
  ∃ ts, c.Passes ts c' ∧ Spells phrase ts (1 + n) ∧ c.depth + n ≤ depthLimit ∧ c'.depth = c.depth

/-- What a reading of the task says about the tokens that it passed. -/
def Task.Derived (task : Task) (c : Cursor) (e : Expr) (c' : Cursor) : Prop :=
  match task with
  | chain k => ∃ i n, (Phrase.chain k i e).Between c n c'
  | operand k => ∃ n, (Phrase.operand k e).Between c n c'
  | power => ∃ n, (Phrase.power e).Between c n c'
  | factor => ∃ n, (Phrase.factor e).Between c n c'
  | number => c.kind = .number → ∃ n, (Phrase.factor e).Between c n c'
  | constant => c.kind = .constant → ∃ n, (Phrase.factor e).Between c n c'
  | negation => (∀ t ∈ c.current?, t.Among ["-"]) → ∃ n, (Phrase.factor e).Inside c n c'
  | grouping | call => ∃ n, (Phrase.factor e).Inside c n c'
  | links k left i =>
    ∀ us m base, Spells (.chain k i left) us m → c.depth = base + i → base + m ≤ depthLimit →
      ∃ ts j n, c.Passes ts c' ∧ Spells (.chain k j e) (us ++ ts) n ∧ base + n ≤ depthLimit ∧
        c'.depth = base
  | arguments name args =>
    ∀ us m, Spells (.arguments args.reverse) us m → c.depth + m ≤ depthLimit →
      ∃ ts r es n, c.Passes (ts ++ [r]) c' ∧ r.kind = .rparen ∧ e = .call name es ∧
        Spells (.arguments es) (us ++ ts) n ∧ c.depth + n ≤ depthLimit ∧ c'.depth = c.depth

theorem Reads.derived {task : Task} {c c' : Cursor} {e : Expr} (h : Reads task c e c')
    (hd : c.depth ≤ depthLimit) : task.Derived c e c' := by
  induction h with
  | number _ hx => exact fun hk => ⟨0, _, .cons .nil, .number hk hx, hd, rfl⟩
  | constant _ hx => exact fun hk => ⟨0, _, .cons .nil, .constant hk hx, hd, rfl⟩
  | name hk => exact ⟨0, _, .cons .nil, .name hk, hd, rfl⟩
  | @negation p ts d t e c _ _ ih =>
    intro ht
    obtain ⟨n, us, hp, hs, hn, hc⟩ := ih hd
    exact ⟨n, t :: us, hp.cons, .negation (ht t rfl) hs, hn, hc⟩
  | @grouping p p' ts ts' d d' l r e hl _ hr ih =>
    obtain ⟨i, n, us, hp, hs, hn, hc⟩ := ih hd
    exact ⟨n, l :: (us ++ [r]), hp.snoc.cons, .group hl hs hr, hn, hc⟩
  | @call p ts d f l first e c c' hf hl _ _ ih ih' =>
    obtain ⟨i, n, us, hp, hs, hn, hc⟩ := ih hd
    have hn' : c.depth + n ≤ depthLimit := by rwa [hc]
    obtain ⟨vs, r, es, m, hp', hr, rfl, hs', hm, hc'⟩ :=
      ih' (Nat.le_of_add_right_le hn') us n (.first hs) hn'
    rw [hc] at hm
    have hopen : Cursor.Passes ⟨f :: p, l :: ts, d⟩ (l :: (us ++ vs ++ [r])) c' := by
      rw [List.append_assoc]
      exact (hp.append hp').cons
    exact ⟨m, f :: l :: (us ++ vs ++ [r]), hopen.cons, .call hf hl hs' hr, hm, hc'.trans hc⟩
  | @argument p ts d t name args next e c c' hk _ _ ih ih' =>
    intro us m hs hm
    obtain ⟨i, n, vs, hp, hs', hn, hc⟩ := ih hd
    have hmax : c.depth + max m n ≤ depthLimit := by
      simp only [hc] at hm hn ⊢
      omega
    have hargs : Spells (.arguments (next :: args).reverse) (us ++ t :: vs) (max m n) := by
      rw [List.reverse_cons]
      exact .next hs hk hs'
    obtain ⟨ws, r, es, k, hp', hr, he, hs'', hk', hc'⟩ :=
      ih' (Nat.le_of_add_right_le hmax) _ _ hargs hmax
    rw [hc] at hk'
    refine ⟨t :: vs ++ ws, r, es, k, ?_, hr, he, ?_, hk', hc'.trans hc⟩
    · simpa using (hp.append hp').cons
    · simpa using hs''
  | @close p ts d t name args hk =>
    intro us m hs hm
    exact ⟨[], t, _, m, .cons .nil, hk, rfl, by simpa using hs, hm, rfl⟩
  | ofNumber hk _ ih => exact ih hd hk
  | ofConstant hk _ ih => exact ih hd hk
  | @enclosed p ts d t task e c ht hlt _ ih =>
    obtain ⟨n, us, hp, hs, hn, hc⟩ : ∃ n, (Phrase.factor e).Inside ⟨p, t :: ts, d + 1⟩ n c := by
      rcases Token.opens?_eq_some_iff.mp ht with ⟨rfl, -⟩ | ⟨rfl, -⟩ | ⟨rfl, ha⟩
      · exact ih hlt
      · exact ih hlt
      · exact ih hlt (by simpa [Cursor.current?] using ha)
    refine ⟨1 + n, us, ⟨hp.ahead, hp.passed⟩, hs, ?_, ?_⟩
    · simp only at hn ⊢
      omega
    · simp [Cursor.leave, hc]
  | base _ _ ih =>
    obtain ⟨n, us, hp, hs, hn⟩ := ih hd
    exact ⟨n, us, hp, .base hs, hn⟩
  | @raised p ts d t b e c c' _ ht hlt _ ih ih' =>
    obtain ⟨n, us, hp, hs, hn, hc⟩ := ih hd
    obtain ⟨m, vs, hp', hs', hm, hc'⟩ := ih' hlt
    simp only at hc hm hc'
    have hpower : Cursor.Passes ⟨p, t :: ts, d⟩ (t :: vs) (c'.leave 1) :=
      Cursor.Passes.cons ⟨hp'.ahead, hp'.passed⟩
    refine ⟨_, us ++ t :: vs, hp.append hpower, .raised hs ht hs', ?_, ?_⟩
    · omega
    · simp only [Cursor.leave]
      omega
  | term _ ih =>
    obtain ⟨i, n, us, hp, hs, hn⟩ := ih hd
    exact ⟨n, us, hp, .term hs, hn⟩
  | ofPower _ ih =>
    obtain ⟨n, us, hp, hs, hn⟩ := ih hd
    exact ⟨n, us, hp, .ofPower hs, hn⟩
  | @chain k left e c c' c'' _ _ ih ih' =>
    obtain ⟨n, us, hp, hs, hn, hc⟩ := ih hd
    obtain ⟨vs, j, m, hp', hs', hm, hc'⟩ := ih' (by rwa [hc]) us n c.depth (.single hs) hc hn
    exact ⟨j, m, us ++ vs, hp.append hp', hs', hm, hc'⟩
  | @done k left n c _ =>
    intro us m base hs hc hm
    refine ⟨[], n, m, ⟨rfl, rfl⟩, by simpa using hs, hm, ?_⟩
    simp only [Cursor.leave]
    omega
  | @link p ts d n t k left right e c c' ht hlt _ _ ih ih' =>
    intro us m base hs hbase hm
    obtain ⟨i, vs, hp, hs', hi, hc⟩ := ih hlt
    simp only at hbase hi hc
    obtain ⟨ws, j, l, hp', hs'', hl, hc'⟩ :=
      ih' (by omega) _ _ base (.link hs ht hs') (by omega) (by omega)
    refine ⟨t :: vs ++ ws, j, l, ?_, by simpa using hs'', hl, hc'⟩
    exact (Cursor.Passes.append hp hp').cons

/-- The next token is none of these operators. -/
def Apart (operators : List String) (ts : List Token) : Prop :=
  ∀ t ∈ ts.head?, ¬ t.Among operators

def Chain.tighter : Chain → List String
  | sum => ["^", "*", "/"]
  | product => ["^"]

theorem Token.Among.not_tighter {t : Token} {k : Chain} (h : t.Among k.operators) :
    ¬ t.Among k.tighter := by
  intro ht
  have hop := h.2
  have hop' := ht.2
  cases k <;> simp only [Chain.operators, Chain.tighter, List.mem_cons, List.not_mem_nil] at hop hop'
    <;> grind

theorem Apart.mono {ops ops' : List String} {ts : List Token} (h : Apart ops ts)
    (hops : ∀ op ∈ ops', op ∈ ops) : Apart ops' ts :=
  fun t ht hop => h t ht ⟨hop.1, hops _ hop.2⟩

theorem Apart.operator?_eq_none {ops : List String} {p ts : List Token} {d : Nat}
    (h : Apart ops ts) : Cursor.operator? ops ⟨p, ts, d⟩ = none :=
  Cursor.operator?_eq_none_iff.mpr h

theorem Apart.of_kind {ops : List String} {t : Token} {ts : List Token} (h : t.kind ≠ .operator) :
    Apart ops (t :: ts) := by
  intro u hu hop
  cases hu
  exact h hop.1

namespace Task

/-- Reading the task runs into the level limit. -/
def Blocked (task : Task) (c : Cursor) : Prop :=
  ∃ position c', Fails task c (.nestingTooDeep depthLimit position) c'

/-- The levels either fit in those that are left or the task runs into the limit. -/
def Meets (task : Task) (c : Cursor) (n : Nat) (fits : Prop) : Prop :=
  (c.depth + n ≤ depthLimit → fits) ∧ (depthLimit < c.depth + n → task.Blocked c)

namespace Meets
variable {task task' : Task} {c c' : Cursor} {m n : Nat} {fits fits' : Prop}

theorem leaf (hd : c.depth ≤ depthLimit) (h : fits) : task.Meets c 0 fits :=
  ⟨fun _ => h, fun hlt => absurd hlt (Nat.not_lt.mpr hd)⟩

theorem of_fails {position : Nat} {last : Cursor} (hn : depthLimit < c.depth + n)
    (h : Fails task c (.nestingTooDeep depthLimit position) last) : task.Meets c n fits :=
  ⟨fun hle => absurd hn (Nat.not_lt.mpr hle), fun _ => ⟨position, last, h⟩⟩

theorem imp (h : task.Meets c n fits) (hdepth : c.depth + n = c'.depth + m)
    (hfits : fits → fits')
    (hfails : ∀ {err last}, Fails task c err last → ∃ last', Fails task' c' err last') :
    task'.Meets c' m fits' := by
  rw [Meets, ← hdepth]
  refine ⟨fun hle => hfits (h.1 hle), fun hlt => ?_⟩
  obtain ⟨position, last, hf⟩ := h.2 hlt
  exact ⟨position, hfails hf⟩

/-- Of two parts that are read one after the other, the first to run into the limit decides. -/
theorem bind (h : task.Meets c m fits) (h' : fits → task.Meets c n fits') :
    task.Meets c (max m n) fits' := by
  constructor
  · intro hle
    exact (h' (h.1 (by omega))).1 (by omega)
  · intro hlt
    by_cases hm : c.depth + m ≤ depthLimit
    · exact (h' (h.1 hm)).2 (by omega)
    · exact h.2 (Nat.not_le.mp hm)

end Meets

/-- Reading the first task comes down to reading the second one further on. -/
structure LeadsTo (task : Task) (c : Cursor) (task' : Task) (c' : Cursor) : Prop where
  reads : ∀ {e : Expr} {last : Cursor}, Reads task' c' e last → Reads task c e last
  fails : ∀ {err : ParseError} {last : Cursor}, Fails task' c' err last → Fails task c err last

end Task

/-- What reading the tokens of a phrase comes to, whatever follows them. -/
def Phrase.Read (phrase : Phrase) (ts : List Token) (n : Nat) : Prop :=
  match phrase with
  | factor e =>
    ∀ p rest d, d ≤ depthLimit → Task.factor.Meets ⟨p, ts ++ rest, d⟩ n
      (Reads .factor ⟨p, ts ++ rest, d⟩ e ⟨ts.reverse ++ p, rest, d⟩)
  | power e =>
    ∀ p rest d, d ≤ depthLimit → Apart ["^"] rest → Task.power.Meets ⟨p, ts ++ rest, d⟩ n
      (Reads .power ⟨p, ts ++ rest, d⟩ e ⟨ts.reverse ++ p, rest, d⟩)
  | operand k e =>
    ∀ p rest d, d ≤ depthLimit → Apart k.tighter rest →
      (Task.operand k).Meets ⟨p, ts ++ rest, d⟩ n
        (Reads (.operand k) ⟨p, ts ++ rest, d⟩ e ⟨ts.reverse ++ p, rest, d⟩)
  | chain k i e =>
    ∀ p rest d, d ≤ depthLimit → Apart k.tighter rest →
      (Task.chain k).Meets ⟨p, ts ++ rest, d⟩ n
        ((Task.chain k).LeadsTo ⟨p, ts ++ rest, d⟩ (.links k e i) ⟨ts.reverse ++ p, rest, d + i⟩)
  | arguments es =>
    ∀ f l p rest d, f.kind = .function → l.kind = .lparen → d ≤ depthLimit →
      (∀ t ∈ rest.head?, t.kind ≠ .operator) →
      Task.call.Meets ⟨p, f :: l :: (ts ++ rest), d⟩ n
        (Task.call.LeadsTo ⟨p, f :: l :: (ts ++ rest), d⟩ (.arguments f.lexeme es.reverse)
          ⟨ts.reverse ++ l :: f :: p, rest, d⟩)

section Read
variable {p ts us rest : List Token} {t : Token} {d m n : Nat} {b e : Expr}

/-- A chain that no link follows is read to its end, and its levels are left. -/
theorem Phrase.Read.chain_meets {k : Chain} {i : Nat} (h : (Phrase.chain k i e).Read ts n)
    (hd : d ≤ depthLimit) (htight : Apart k.tighter rest) (hend : Apart k.operators rest) :
    (Task.chain k).Meets ⟨p, ts ++ rest, d⟩ n
      (Reads (.chain k) ⟨p, ts ++ rest, d⟩ e ⟨ts.reverse ++ p, rest, d⟩) := by
  have hdone : Reads (.links k e i) ⟨ts.reverse ++ p, rest, d + i⟩ e
      (Cursor.leave i ⟨ts.reverse ++ p, rest, d + i⟩) := .done hend.operator?_eq_none
  rw [Cursor.leave, Nat.add_sub_cancel] at hdone
  exact (h p rest d hd htight).imp rfl (fun hleads => hleads.reads hdone) fun hf => ⟨_, hf⟩

theorem Task.Meets.enclosed {task : Task} (ht : t.opens? = some task)
    (h : d < depthLimit → task.Meets ⟨p, t :: (ts ++ rest), d + 1⟩ n
      (Reads task ⟨p, t :: (ts ++ rest), d + 1⟩ e ⟨ts.reverse ++ t :: p, rest, d + 1⟩)) :
    Task.factor.Meets ⟨p, t :: ts ++ rest, d⟩ (1 + n)
      (Reads .factor ⟨p, t :: ts ++ rest, d⟩ e ⟨(t :: ts).reverse ++ p, rest, d⟩) := by
  by_cases hlt : d < depthLimit
  · refine (h hlt).imp (by simp only; omega) (fun hr => ?_) fun hf => ⟨_, .enclosed ht hlt hf⟩
    simpa [Cursor.leave] using Reads.enclosed ht hlt hr
  · exact .of_fails (by simp only; omega) (.full ht (Nat.not_lt.mp hlt))

theorem Phrase.Read.negation (ht : t.Among ["-"]) (h : (Phrase.factor e).Read ts n) :
    (Phrase.factor (.unary t.lexeme e)).Read (t :: ts) (1 + n) := by
  intro p rest d _
  refine Task.Meets.enclosed (Token.opens?_eq_some_iff.mpr (.inr (.inr ⟨rfl, ht⟩))) fun hlt => ?_
  exact (h (t :: p) rest (d + 1) hlt).imp rfl (fun hr => .negation ht.ne_eof hr)
    fun hf => ⟨_, .negation ht.ne_eof hf⟩

theorem Phrase.Read.group {l r : Token} {i : Nat} (hl : l.kind = .lparen)
    (h : (Phrase.chain .sum i e).Read ts n) (hr : r.kind = .rparen) :
    (Phrase.factor e).Read (l :: (ts ++ [r])) (1 + n) := by
  intro p rest d _
  refine Task.Meets.enclosed (Token.opens?_eq_some_iff.mpr (.inr (.inl ⟨rfl, hl⟩))) fun hlt => ?_
  have hapart (ops : List String) : Apart ops (r :: rest) := .of_kind (by rw [hr]; nofun)
  rw [List.append_assoc, List.reverse_append]
  exact (h.chain_meets hlt (hapart _) (hapart _)).imp rfl (fun hinside => .grouping hl hinside hr)
    fun hf => ⟨_, .grouping hl hf⟩

theorem Phrase.Read.call {f l r : Token} {es : List Expr} (hf : f.kind = .function)
    (hl : l.kind = .lparen) (h : (Phrase.arguments es).Read ts n) (hr : r.kind = .rparen) :
    (Phrase.factor (.call f.lexeme es)).Read (f :: l :: (ts ++ [r])) (1 + n) := by
  intro p rest d _
  refine Task.Meets.enclosed (Token.opens?_eq_some_iff.mpr (.inl ⟨rfl, hf⟩)) fun hlt => ?_
  have hclose : Reads (.arguments f.lexeme es.reverse) ⟨ts.reverse ++ l :: f :: p, r :: rest, d + 1⟩
      (.call f.lexeme es.reverse.reverse) ⟨r :: (ts.reverse ++ l :: f :: p), rest, d + 1⟩ := .close hr
  rw [List.reverse_reverse] at hclose
  rw [List.cons_append, List.append_assoc, List.reverse_cons, List.reverse_append,
    List.append_assoc]
  exact (h f l p (r :: rest) (d + 1) hf hl hlt (by simp [hr])).imp rfl
    (fun hleads => hleads.reads hclose) fun hfail => ⟨_, hfail⟩

theorem Phrase.Read.first {i : Nat} (h : (Phrase.chain .sum i e).Read ts n) :
    (Phrase.arguments [e]).Read ts n := by
  intro f l p rest d hf hl hd hrest
  have hapart (ops : List String) : Apart ops rest := fun t ht hop => hrest t ht hop.1
  exact (h.chain_meets (p := l :: f :: p) hd (hapart _) (hapart _)).imp rfl
    (fun hr => ⟨fun hargs => .call hf hl hr hargs, fun hargs => .call hf hl hr hargs⟩)
    fun hfail => ⟨_, .first hf hl hfail⟩

theorem Phrase.Read.next {es : List Expr} {i : Nat} (h : (Phrase.arguments es).Read ts n)
    (ht : t.kind = .comma) (h' : (Phrase.chain .sum i e).Read us m) :
    (Phrase.arguments (es ++ [e])).Read (ts ++ t :: us) (max n m) := by
  intro f l p rest d hf hl hd hrest
  have hapart (ops : List String) : Apart ops rest := fun t ht hop => hrest t ht hop.1
  rw [List.append_assoc, List.cons_append]
  refine (h f l p (t :: (us ++ rest)) d hf hl hd (by simp [ht])).bind fun hleads => ?_
  refine (h'.chain_meets (p := t :: (ts.reverse ++ l :: f :: p)) hd (hapart _) (hapart _)).imp rfl
    (fun hr => ?_) fun hfail => ⟨_, hleads.fails (.argument ht hfail)⟩
  simp only [List.reverse_append, List.reverse_cons, List.reverse_nil, List.nil_append,
    List.append_assoc, List.singleton_append]
  exact ⟨fun hargs => hleads.reads (.argument ht hr hargs),
    fun hargs => hleads.fails (.arguments ht hr hargs)⟩

theorem Phrase.Read.base (h : (Phrase.factor e).Read ts n) : (Phrase.power e).Read ts n := by
  intro p rest d hd hapart
  exact (h p rest d hd).imp rfl (fun hr => .base hr hapart.operator?_eq_none)
    fun hf => ⟨_, .base hf⟩

theorem Phrase.Read.raised (h : (Phrase.factor b).Read ts n) (ht : t.Among ["^"])
    (h' : (Phrase.power e).Read us m) :
    (Phrase.power (.binary t.lexeme b e)).Read (ts ++ t :: us) (max n (1 + m)) := by
  intro p rest d hd hapart
  rw [List.append_assoc, List.cons_append]
  have hbase : Task.power.Meets ⟨p, ts ++ t :: (us ++ rest), d⟩ n
      (Reads .factor ⟨p, ts ++ t :: (us ++ rest), d⟩ b ⟨ts.reverse ++ p, t :: (us ++ rest), d⟩) :=
    (h p (t :: (us ++ rest)) d hd).imp rfl id fun hf => ⟨_, .base hf⟩
  refine hbase.bind fun hr => ?_
  by_cases hlt : d < depthLimit
  · refine (h' (t :: (ts.reverse ++ p)) rest (d + 1) hlt hapart).imp (by simp only; omega)
      (fun hr' => ?_) fun hf => ⟨_, .exponent hr ht hlt hf⟩
    simpa [Cursor.leave] using Reads.raised hr ht hlt hr'
  · exact .of_fails (by simp only; omega) (.powerFull hr ht (Nat.not_lt.mp hlt))

theorem Phrase.Read.single {k : Chain} (h : (Phrase.operand k e).Read ts n) :
    (Phrase.chain k 0 e).Read ts n := by
  intro p rest d hd hapart
  exact (h p rest d hd hapart).imp rfl
    (fun hr => ⟨fun hlinks => .chain hr hlinks, fun hlinks => .links hr hlinks⟩)
    fun hf => ⟨_, .chain hf⟩

theorem Phrase.Read.link {k : Chain} {i : Nat} (h : (Phrase.chain k i b).Read ts n)
    (ht : t.Among k.operators) (h' : (Phrase.operand k e).Read us m) :
    (Phrase.chain k (i + 1) (.binary t.lexeme b e)).Read (ts ++ t :: us) (max n (i + 1 + m)) := by
  intro p rest d hd hapart
  have htight : Apart k.tighter (t :: (us ++ rest)) := by
    intro u hu
    cases hu
    exact ht.not_tighter
  rw [List.append_assoc, List.cons_append]
  refine (h p (t :: (us ++ rest)) d hd htight).bind fun hleads => ?_
  by_cases hlt : d + i < depthLimit
  · refine (h' (t :: (ts.reverse ++ p)) rest (d + i + 1) hlt hapart).imp (by simp only; omega)
      (fun hr => ?_) fun hf => ⟨_, hleads.fails (.operand ht hlt hf)⟩
    simp only [List.reverse_append, List.reverse_cons, List.append_assoc, List.singleton_append]
    exact ⟨fun hlinks => hleads.reads (.link ht hlt hr hlinks),
      fun hlinks => hleads.fails (.link ht hlt hr hlinks)⟩
  · exact .of_fails (by simp only; omega) (hleads.fails (.linkFull ht (Nat.not_lt.mp hlt)))

end Read

/-- A derivation is read token for token, or as far as the limit. -/
theorem Spells.read {phrase : Phrase} {ts : List Token} {n : Nat} (h : Spells phrase ts n) :
    phrase.Read ts n := by
  induction h with
  | number hk hx =>
    intro p rest d hd
    exact .leaf hd (.ofNumber hk (.number (by rw [hk]; nofun) hx))
  | name hk =>
    intro p rest d hd
    exact .leaf hd (.name hk)
  | constant hk hx =>
    intro p rest d hd
    exact .leaf hd (.ofConstant hk (.constant (by rw [hk]; nofun) hx))
  | negation ht _ ih => exact .negation ht ih
  | group hl _ hr ih => exact .group hl ih hr
  | call hf hl _ hr ih => exact .call hf hl ih hr
  | first _ ih => exact .first ih
  | next _ hk _ ih ih' => exact .next ih hk ih'
  | base _ ih => exact .base ih
  | raised _ ht _ ih ih' => exact .raised ih ht ih'
  | ofPower _ ih =>
    intro p rest d hd hapart
    exact (ih p rest d hd hapart).imp rfl .ofPower fun hf => ⟨_, .ofPower hf⟩
  | term _ ih =>
    intro p rest d hd hapart
    have hproduct : Apart Chain.product.tighter rest := hapart.mono (by simp [Chain.tighter])
    have hlinks : Apart Chain.product.operators rest :=
      hapart.mono (by simp [Chain.tighter, Chain.operators])
    exact (ih.chain_meets hd hproduct hlinks).imp rfl .term fun hf => ⟨_, .term hf⟩
  | single _ ih => exact .single ih
  | link _ ht _ ih ih' => exact .link ih ht ih'

namespace Expr
variable {tokens : List Token} {tree : Expr}

theorem parse_eq_run (tokens : List Token) :
    Expr.parse tokens =
      match (Task.chain .sum).run (.ofTokens tokens) with
      | (.error err, _) => .error err
      | (.ok tree, after) =>
        match after.ahead with
        | t :: _ =>
          if t.kind = .eof then .ok tree else .error (.trailingInput t.kind t.lexeme t.span.start)
        | [] => .ok tree := by
  rw [Expr.parse, Task.run]
  cases parseChain .sum (.ofTokens tokens) <;> rfl

/-- The tokens in front of the end of the source. -/
def body (tokens : List Token) : List Token := tokens.takeWhile (·.kind ≠ .eof)

def Ended (ts : List Token) : Prop := ∀ t ∈ ts.head?, t.kind = .eof

theorem exists_ended (tokens : List Token) : ∃ rest, tokens = body tokens ++ rest ∧ Ended rest := by
  refine ⟨tokens.dropWhile (·.kind ≠ .eof), List.takeWhile_append_dropWhile.symm, ?_⟩
  intro t ht
  have hnot := List.head?_dropWhile_not (·.kind ≠ .eof) tokens
  rw [ht] at hnot
  simpa using hnot

theorem body_cons {t : Token} (ht : t.kind ≠ .eof) (rest : List Token) :
    body (t :: rest) = t :: body rest :=
  List.takeWhile_cons_of_pos (by simpa using ht)

theorem body_append_of_ne_eof {ts : List Token} (hts : ∀ t ∈ ts, t.kind ≠ .eof)
    (rest : List Token) : body (ts ++ rest) = ts ++ body rest :=
  List.takeWhile_append_of_pos (by simpa using hts)

theorem Ended.body_eq {ts : List Token} (h : Ended ts) : body ts = [] := by
  cases ts with
  | nil => rfl
  | cons t ts =>
    have ht : t.kind = .eof := h t rfl
    simp [body, ht]

theorem body_append {ts rest : List Token} (hts : ∀ t ∈ ts, t.kind ≠ .eof) (hrest : Ended rest) :
    body (ts ++ rest) = ts := by
  rw [body_append_of_ne_eof hts, hrest.body_eq, List.append_nil]

theorem Ended.apart {ops : List String} {ts : List Token} (h : Ended ts) : Apart ops ts := by
  intro t ht hop
  rw [Token.Among, h t ht] at hop
  cases hop.1

theorem parse_eq_ok_iff_reads :
    Expr.parse tokens = .ok tree ↔
      ∃ after, Reads (.chain .sum) (.ofTokens tokens) tree after ∧ Ended after.ahead := by
  rw [parse_eq_run]
  constructor
  · intro h
    cases hrun : (Task.chain .sum).run (.ofTokens tokens) with
    | mk answer after =>
      rw [hrun] at h
      cases answer with
      | error err => cases h
      | ok tree' =>
        obtain ⟨p, _ | ⟨t, ts⟩, d⟩ := after
        · cases h
          exact ⟨_, Task.run_eq_ok_iff.mp hrun, by simp [Ended]⟩
        · by_cases ht : t.kind = .eof
          · simp only [ht, if_true] at h
            cases h
            exact ⟨_, Task.run_eq_ok_iff.mp hrun, by simpa [Ended] using ht⟩
          · simp [ht] at h
  · rintro ⟨⟨p, _ | ⟨t, ts⟩, d⟩, hr, hend⟩
    · rw [hr.run_eq]
    · rw [hr.run_eq]
      simp [hend t rfl]

theorem exists_spells_of_parse (h : Expr.parse tokens = .ok tree) :
    ∃ i n, Spells (.chain .sum i tree) (body tokens) n ∧ n ≤ depthLimit := by
  obtain ⟨after, hr, hend⟩ := parse_eq_ok_iff_reads.mp h
  obtain ⟨i, n, ts, hp, hs, hn, -⟩ := hr.derived (Nat.zero_le _)
  have hbody : body tokens = ts := by
    rw [show tokens = ts ++ after.ahead from hp.ahead, body_append hs.ne_eof hend]
  have hzero : 0 + n ≤ depthLimit := hn
  exact ⟨i, n, hbody ▸ hs, by omega⟩

/-- Tokens that spell an expression are parsed, or the limit is met if the levels exceed it. -/
theorem meets_of_spells {i n : Nat} (h : Spells (.chain .sum i tree) (body tokens) n) :
    (Task.chain .sum).Meets (.ofTokens tokens) n (Expr.parse tokens = .ok tree) := by
  obtain ⟨rest, htokens, hend⟩ := exists_ended tokens
  have hmeets := h.read.chain_meets (p := []) (Nat.zero_le depthLimit) hend.apart hend.apart
  rw [← htokens] at hmeets
  exact hmeets.imp rfl (fun hr => parse_eq_ok_iff_reads.mpr ⟨_, hr, hend⟩) fun hf => ⟨_, hf⟩

theorem parse_of_spells {i n : Nat} (h : Spells (.chain .sum i tree) (body tokens) n)
    (hn : n ≤ depthLimit) : Expr.parse tokens = .ok tree :=
  (meets_of_spells h).1 (by simpa [Cursor.ofTokens] using hn)

theorem parse_of_spells_of_lt {i n : Nat} (h : Spells (.chain .sum i tree) (body tokens) n)
    (hn : depthLimit < n) :
    ∃ position, Expr.parse tokens = .error (.nestingTooDeep depthLimit position) := by
  obtain ⟨position, c, hf⟩ := (meets_of_spells h).2 (by simpa [Cursor.ofTokens] using hn)
  exact ⟨position, by rw [parse_eq_run, hf.run_eq]⟩

/-- The parser returns a tree exactly if it is the tree of a derivation within the limit. -/
theorem parse_eq_ok_iff (tokens : List Token) (tree : Expr) :
    Expr.parse tokens = .ok tree ↔
      ∃ links levels, Spells (.chain .sum links tree) (body tokens) levels ∧
        levels ≤ depthLimit := by
  constructor
  · exact exists_spells_of_parse
  · rintro ⟨links, levels, hs, hlevels⟩
    exact parse_of_spells hs hlevels

end Expr

end Reckon
