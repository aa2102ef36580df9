import Reckon.Proofs.Lookahead

/-!
# The first offending token

A parser that reports a token should report the first one that is wrong, neither an earlier nor a
later one: the tokens in front of it are the beginning of some sentence, and with it they are the
beginning of none. A sentence here is a list of tokens that the grammar derives with however many
levels, so that the limit plays no part in what is right or wrong.

That a failure is not too late follows from the parser's looking at one token only: behind the
offending token there may as well stand whatever would complete a sentence, and the parser would
still fail there. That it is not too early is shown by completing what has been read, with a name
where an operand is missing and a parenthesis for each one that is open.
-/
namespace Reckon
open Text

/-- The text of a number or a constant stands for a number. -/
structure Token.Legible (t : Token) : Prop where
  number : t.kind = .number → (Number.read? t.lexeme).isSome
  constant : t.kind = .constant → (Vocabulary.constant? t.lexeme).isSome

instance (t : Token) : Decidable t.Legible :=
  decidable_of_iff ((t.kind = .number → (Number.read? t.lexeme).isSome) ∧
      (t.kind = .constant → (Vocabulary.constant? t.lexeme).isSome))
    ⟨fun h => ⟨h.1, h.2⟩, fun h => ⟨h.1, h.2⟩⟩

/-- The grammar derives the tokens, with however many levels. -/
def Sentence (ts : List Token) : Prop :=
  ∃ links tree levels, Spells (.chain .sum links tree) ts levels

/-- Some sentence begins with the tokens. -/
def Viable (ts : List Token) : Prop := ∃ more, Sentence (ts ++ more)

/-- Of the tokens, those in front of `t` are the beginning of a sentence and those up to `t` are
not. -/
structure Offending (ts before : List Token) (t : Token) : Prop where
  occurs : ∃ after, ts = before ++ t :: after
  viable : Viable before
  not_viable : ¬ Viable (before ++ [t])

/-- The tokens in front of the end of the source are as the error says. -/
def ParseError.Explains (err : ParseError) (ts : List Token) : Prop :=
  match err with
  | unexpectedToken found lexeme position =>
    ∃ before t, Offending ts before t ∧ ¬ Sentence before ∧
      t.kind = found ∧ t.lexeme = lexeme ∧ t.span.start = position
  | trailingInput found lexeme position =>
    ∃ before t, Offending ts before t ∧ Sentence before ∧
      t.kind = found ∧ t.lexeme = lexeme ∧ t.span.start = position
  | unexpectedEnd _ => Viable ts ∧ ¬ Sentence ts
  | nestingTooDeep limit _ => limit = depthLimit
  | unreadableNumber .. => False

theorem Cursor.unexpected_of_eof {c : Cursor} (h : c.kind = .eof) :
    c.unexpected = .unexpectedEnd c.position := by
  obtain ⟨p, _ | ⟨t, ts⟩, d⟩ := c
  · rfl
  · exact if_pos h

theorem Cursor.unexpected_of_ne_eof {p ts : List Token} {t : Token} {d : Nat} (h : t.kind ≠ .eof) :
    Cursor.unexpected ⟨p, t :: ts, d⟩ = .unexpectedToken t.kind t.lexeme t.span.start :=
  if_neg h

namespace Task

/-- The tokens are such as the task reads. For a task in the middle of a phrase they are so behind
whatever the phrase began with. -/
def Language (task : Task) (ts : List Token) : Prop :=
  match task with
  | chain k => ∃ i e n, Spells (.chain k i e) ts n
  | operand k => ∃ e n, Spells (.operand k e) ts n
  | power => ∃ e n, Spells (.power e) ts n
  | factor | number | constant | negation | grouping | call => ∃ e n, Spells (.factor e) ts n
  | links k left i => ∀ us m, Spells (.chain k i left) us m →
      ∃ j e n, Spells (.chain k j e) (us ++ ts) n
  | arguments _ args => ∀ us m, Spells (.arguments args.reverse) us m →
      ∃ vs r es n, ts = vs ++ [r] ∧ r.kind = .rparen ∧ Spells (.arguments es) (us ++ vs) n

/-- The task is such as the parser begins at the cursor: it does so with a sign, a number or a
constant when it is at one. -/
def Suits (task : Task) (c : Cursor) : Prop :=
  match task with
  | number => c.kind = .number
  | constant => c.kind = .constant
  | negation => ∀ t ∈ c.current?, t.Among ["-"]
  | _ => True

/-- Some tokens of the task's language begin with what lies between the cursors. -/
def Begun (task : Task) (c c' : Cursor) : Prop :=
  ∃ ts more, c.Passes ts c' ∧ task.Language (ts ++ more)

end Task

section Completion

/-- A name, for an operand that is missing. -/
def stopgap : Token := ⟨.identifier, "x", ⟨0, 0⟩⟩

def opening : Token := ⟨.lparen, "(", ⟨0, 0⟩⟩

def closing : Token := ⟨.rparen, ")", ⟨0, 0⟩⟩

theorem spells_stopgap : Spells (.factor (.var stopgap.lexeme)) [stopgap] 0 := .name rfl

theorem Task.language_factor_stopgap : factor.Language [stopgap] := ⟨_, _, spells_stopgap⟩

theorem spells_stopgap_operand (k : Chain) :
    Spells (.operand k (.var stopgap.lexeme)) [stopgap] 0 := by
  have hproduct : Spells (.operand .product (.var stopgap.lexeme)) [stopgap] 0 :=
    .ofPower (.base spells_stopgap)
  cases k with
  | product => exact hproduct
  | sum => exact .term (.single hproduct)

end Completion

namespace Task
variable {task task' : Task} {c c₁ c' : Cursor} {us : List Token} {err : ParseError} {d d' : Nat}

/-- What a task needs in order to begin at the cursor. -/
structure Ready (task : Task) (c : Cursor) : Prop where
  depth : c.depth ≤ depthLimit
  legible : ∀ t ∈ c.ahead, t.Legible
  suits : task.Suits c

theorem Ready.later (h : task.Ready c) (hpasses : c.Passes us c₁) (hdepth : c₁.depth ≤ depthLimit)
    (hsuits : task'.Suits c₁) : task'.Ready c₁ := by
  refine ⟨hdepth, fun t ht => h.legible t ?_, hsuits⟩
  rw [hpasses.ahead]
  exact List.mem_append_right us ht

/-- The task halts with the error between the cursors: what lies there can be completed, and the
error comes from what is seen behind it or from too many levels. -/
structure Halts (task : Task) (c : Cursor) (err : ParseError) (c' : Cursor) : Prop where
  begun : task.Begun c c'
  cause : err = c'.unexpected ∨ ∃ p, err = .nestingTooDeep depthLimit p

theorem Halts.found (more : List Token) (hpasses : c.Passes us c')
    (hlanguage : task.Language (us ++ more)) : task.Halts c c'.unexpected c' :=
  ⟨⟨us, more, hpasses, hlanguage⟩, .inl rfl⟩

theorem Halts.full (more : List Token) {p : Nat} (hpasses : c.Passes us c')
    (hlanguage : task.Language (us ++ more)) :
    task.Halts c (.nestingTooDeep depthLimit p) c' :=
  ⟨⟨us, more, hpasses, hlanguage⟩, .inr ⟨p, rfl⟩⟩

/-- A task halts where a part of it halts, if what completes the part can be completed further. -/
theorem Halts.behind (h : task.Halts c₁ err c') (hpasses : c.Passes us c₁)
    (hlanguage : ∀ ts, task.Language ts → ∃ more, task'.Language (us ++ ts ++ more)) :
    task'.Halts c err { c' with depth := d } := by
  obtain ⟨⟨ts, more, hpasses', hbegun⟩, hcause⟩ := h
  obtain ⟨more', hlanguage⟩ := hlanguage _ hbegun
  have hbetween := hpasses.append hpasses'
  refine ⟨⟨us ++ ts, more ++ more', ⟨hbetween.ahead, hbetween.passed⟩, ?_⟩, hcause⟩
  simpa using hlanguage

theorem Halts.imp (h : task.Halts c₁ err c') (hpasses : c.Passes [] c₁)
    (hlanguage : ∀ ts, task.Language ts → task'.Language ts) :
    task'.Halts c err { c' with depth := d } :=
  h.behind hpasses fun ts hts => ⟨[], by simpa using hlanguage ts hts⟩

end Task

/-- A failure comes from too many levels or from what is seen where it is found, and what lies in
front of it can be completed. -/
theorem Fails.halts {task : Task} {c c' : Cursor} {err : ParseError} (h : Fails task c err c')
    (hready : task.Ready c) : task.Halts c err c' := by
  induction h with
  | @ended task c htask hk =>
    rw [← Cursor.unexpected_of_eof hk]
    rcases htask with rfl | rfl | rfl <;> exact .found _ .nil Task.language_factor_stopgap
  | @unreadable p ts d t hk hx =>
    have hlegible := (hready.legible t List.mem_cons_self).number hready.suits
    rw [hx] at hlegible
    cases hlegible
  | @unknown p ts d t hk hx =>
    have hlegible := (hready.legible t List.mem_cons_self).constant hready.suits
    rw [hx] at hlegible
    cases hlegible
  | negation hk _ ih =>
    refine (ih (hready.later (.cons .nil) hready.depth trivial)).behind (.cons .nil) ?_
    rintro us ⟨e, n, hs⟩
    exact ⟨[], _, _, by simpa using Spells.negation (hready.suits _ rfl) hs⟩
  | unopened hk => exact .found _ .nil Task.language_factor_stopgap
  | grouping hl _ ih =>
    refine (ih (hready.later (.cons .nil) hready.depth trivial)).behind (.cons .nil) ?_
    rintro us ⟨i, e, n, hs⟩
    exact ⟨[closing], _, _, by simpa using Spells.group hl hs (r := closing) rfl⟩
  | unclosed hl hr hk =>
    obtain ⟨i, n, us, hp, hs, -⟩ := hr.derived hready.depth
    exact .found [closing] hp.cons ⟨_, _, by simpa using Spells.group hl hs rfl⟩
  | unnamed hk => exact .found _ .nil Task.language_factor_stopgap
  | @bare p ts d f hf hk =>
    have hargs := Spells.first (.single (spells_stopgap_operand .sum))
    have hcall := Spells.call (l := opening) (r := closing) hf rfl hargs rfl
    exact .found [opening, stopgap, closing] (.cons .nil) ⟨_, _, hcall⟩
  | @first p ts d f l err c hf hl _ ih =>
    have hp : Cursor.Passes ⟨p, f :: l :: ts, d⟩ [f, l] ⟨l :: f :: p, ts, d⟩ := ⟨rfl, rfl⟩
    refine (ih (hready.later hp hready.depth trivial)).behind hp ?_
    rintro us ⟨i, e, n, hs⟩
    exact ⟨[closing], _, _, by simpa using Spells.call hf hl (.first hs) (r := closing) rfl⟩
  | @call p ts d f l e err c c' hf hl hr _ ih =>
    obtain ⟨i, n, us, hp, hs, -, hdepth⟩ := hr.derived hready.depth
    have hp' : Cursor.Passes ⟨p, f :: l :: ts, d⟩ (f :: l :: us) c := (hp.cons (d := d)).cons
    refine (ih (hready.later hp' (hdepth ▸ hready.depth) trivial)).behind hp' ?_
    intro ts hargs
    obtain ⟨vs, r, es, m, rfl, hr, hes⟩ := hargs us n (.first hs)
    exact ⟨[], _, _, by simpa using Spells.call hf hl hes hr⟩
  | argument hk _ ih =>
    refine (ih (hready.later (.cons .nil) hready.depth trivial)).behind (.cons .nil) ?_
    rintro us ⟨i, e, n, hs⟩
    refine ⟨[closing], fun vs m hargs => ⟨_, closing, _, _, rfl, rfl, hargs.next hk hs⟩⟩
  | @arguments p ts d t name args e err c c' hk hr _ ih =>
    obtain ⟨i, n, us, hp, hs, -, hdepth⟩ := hr.derived hready.depth
    refine (ih (hready.later hp.cons (hdepth ▸ hready.depth) trivial)).behind hp.cons ?_
    intro ts hargs
    refine ⟨[], fun vs m hbefore => ?_⟩
    have hnext := hbefore.next hk hs
    rw [← List.reverse_cons] at hnext
    obtain ⟨ws, r, es, k, rfl, hr, hes⟩ := hargs _ _ hnext
    exact ⟨t :: us ++ ws, r, es, k, by simp, hr, by simpa using hes⟩
  | unfinished hcomma hk =>
    refine .found [closing] .nil fun us m hargs => ?_
    exact ⟨[], closing, _, m, rfl, rfl, by simpa using hargs⟩
  | ofNumber hk _ ih => exact (ih (hready.later .nil hready.depth hk)).imp .nil fun _ hs => hs
  | ofConstant hk _ ih => exact (ih (hready.later .nil hready.depth hk)).imp .nil fun _ hs => hs
  | noFactor hstarts => exact .found _ .nil Task.language_factor_stopgap
  | full ht hd => exact .full _ .nil Task.language_factor_stopgap
  | @enclosed p ts d t task err c ht hd _ ih =>
    have hp : Cursor.Passes ⟨p, t :: ts, d⟩ [] ⟨p, t :: ts, d + 1⟩ := ⟨rfl, rfl⟩
    rcases Token.opens?_eq_some_iff.mp ht with ⟨rfl, -⟩ | ⟨rfl, -⟩ | ⟨rfl, hminus⟩
    · exact (ih (hready.later hp hd trivial)).imp hp fun _ hs => hs
    · exact (ih (hready.later hp hd trivial)).imp hp fun _ hs => hs
    · have hsuits : ∀ u ∈ some t, u.Among ["-"] := by simpa using hminus
      exact (ih (hready.later hp hd hsuits)).imp hp fun _ hs => hs
  | base _ ih =>
    exact (ih (hready.later .nil hready.depth trivial)).imp .nil
      fun _ ⟨e, n, hs⟩ => ⟨e, n, .base hs⟩
  | powerFull hr ht hd =>
    obtain ⟨n, us, hp, hs, -⟩ := hr.derived hready.depth
    have hraised := hs.raised ht (.base spells_stopgap)
    rw [List.append_cons] at hraised
    exact .full [stopgap] hp.snoc ⟨_, _, hraised⟩
  | exponent hr ht hd _ ih =>
    obtain ⟨n, us, hp, hs, -⟩ := hr.derived hready.depth
    refine (ih (hready.later hp.snoc hd trivial)).behind hp.snoc fun ts ⟨e, m, hpower⟩ => ?_
    exact ⟨[], _, _, by simpa using hs.raised ht hpower⟩
  | term _ ih =>
    exact (ih (hready.later .nil hready.depth trivial)).imp .nil
      fun _ ⟨i, e, n, hs⟩ => ⟨e, n, .term hs⟩
  | ofPower _ ih =>
    exact (ih (hready.later .nil hready.depth trivial)).imp .nil
      fun _ ⟨e, n, hs⟩ => ⟨e, n, .ofPower hs⟩
  | chain _ ih =>
    exact (ih (hready.later .nil hready.depth trivial)).imp .nil
      fun _ ⟨e, n, hs⟩ => ⟨0, e, n, .single hs⟩
  | links hr _ ih =>
    obtain ⟨n, us, hp, hs, -, hdepth⟩ := hr.derived hready.depth
    refine (ih (hready.later hp (hdepth ▸ hready.depth) trivial)).behind hp fun ts hlinks => ?_
    exact ⟨[], by simpa [Task.Language] using hlinks us n (.single hs)⟩
  | @linkFull p ts d n t k left ht hd =>
    exact .full [] .nil fun us m hs => ⟨n, left, m, by simpa using hs⟩
  | operand ht hd _ ih =>
    refine (ih (hready.later (.cons .nil) hd trivial)).behind (.cons .nil) ?_
    rintro us ⟨e, n, hs⟩
    exact ⟨[], fun vs m hchain => ⟨_, _, _, by simpa using hchain.link ht hs⟩⟩
  | link ht hd hr _ ih =>
    obtain ⟨n, us, hp, hs, -, hdepth⟩ := hr.derived hd
    refine (ih (hready.later hp.cons (hdepth ▸ hd) trivial)).behind hp.cons fun ts hlinks => ?_
    exact ⟨[], fun vs m hchain => by simpa using hlinks _ _ (hchain.link ht hs)⟩

/-- What it means that an operator can follow a phrase. -/
def Phrase.Extends (phrase : Phrase) (ts : List Token) (t : Token) : Prop :=
  match phrase with
  | power _ => t.Among ["^"] → ∃ e n, Spells (.power e) (ts ++ [t, stopgap]) n
  | operand k _ => t.Among k.tighter → ∃ e n, Spells (.operand k e) (ts ++ [t, stopgap]) n
  | chain k _ _ => t.Among (k.tighter ++ k.operators) →
    ∃ i e n, Spells (.chain k i e) (ts ++ [t, stopgap]) n
  | factor _ | arguments _ => True

/-- An operator can follow every phrase that it binds no looser than. -/
theorem Spells.extends {phrase : Phrase} {ts : List Token} {n : Nat} (h : Spells phrase ts n)
    (t : Token) : phrase.Extends ts t := by
  have hsplit {k : Chain} (ht : t.Among (k.tighter ++ k.operators)) :
      t.Among k.tighter ∨ t.Among k.operators :=
    (List.mem_append.mp ht.2).imp (⟨ht.1, ·⟩) (⟨ht.1, ·⟩)
  induction h with
  | number | name | constant | negation | group | call | first | next => trivial
  | base hs => exact fun ht => ⟨_, _, hs.raised ht (.base spells_stopgap)⟩
  | raised hb hop _ _ ih =>
    intro ht
    obtain ⟨e, n, hs⟩ := ih ht
    have hraised := hb.raised hop hs
    rw [← List.cons_append, ← List.append_assoc] at hraised
    exact ⟨_, _, hraised⟩
  | ofPower _ ih =>
    intro ht
    obtain ⟨e, n, hs⟩ := ih ht
    exact ⟨_, _, .ofPower hs⟩
  | term _ ih =>
    intro ht
    obtain ⟨i, e, n, hs⟩ := ih ht
    exact ⟨_, _, .term hs⟩
  | @single k ts e n hs ih =>
    intro ht
    rcases hsplit ht with htight | hlink
    · obtain ⟨e, n, hs⟩ := ih htight
      exact ⟨_, _, _, .single hs⟩
    · exact ⟨_, _, _, (Spells.single hs).link hlink (spells_stopgap_operand k)⟩
  | @link k u ts us left right i m n hs hop hs' _ ih =>
    intro ht
    rcases hsplit ht with htight | hlink
    · obtain ⟨e, n, hright⟩ := ih htight
      have hextended := hs.link hop hright
      rw [← List.cons_append, ← List.append_assoc] at hextended
      exact ⟨_, _, _, hextended⟩
    · exact ⟨_, _, _, (hs.link hop hs').link hlink (spells_stopgap_operand k)⟩

section Sentences
variable {ts us before : List Token} {t : Token}

theorem Sentence.viable (h : Sentence ts) : Viable ts := ⟨[], by rwa [List.append_nil]⟩

theorem Sentence.body_eq (h : Sentence ts) : Expr.body ts = ts := by
  obtain ⟨i, e, n, hs⟩ := h
  have hbody : Expr.body (ts ++ []) = ts := Expr.body_append hs.ne_eof (by simp [Expr.Ended])
  rwa [List.append_nil] at hbody

theorem Viable.ne_eof (h : Viable ts) : ∀ t ∈ ts, t.kind ≠ .eof := by
  obtain ⟨more, i, e, n, hs⟩ := h
  exact fun t ht => hs.ne_eof t (List.mem_append_left more ht)

theorem Sentence.viable_operator (h : Sentence ts)
    (ht : t.Among (Chain.sum.tighter ++ Chain.sum.operators)) : Viable (ts ++ [t]) := by
  obtain ⟨i, e, n, hs⟩ := h
  have hextended := hs.extends t ht
  exact ⟨[stopgap], by simpa [Sentence] using hextended⟩

theorem Sentence.parse (h : Sentence (Expr.body ts)) :
    (∃ tree, Expr.parse ts = .ok tree) ∨
      ∃ p, Expr.parse ts = .error (.nestingTooDeep depthLimit p) := by
  obtain ⟨i, tree, n, hs⟩ := h
  by_cases hn : n ≤ depthLimit
  · exact .inl ⟨tree, Expr.parse_of_spells hs hn⟩
  · exact .inr (Expr.parse_of_spells_of_lt hs (Nat.not_le.mp hn))

theorem Sentence.eq_nestingTooDeep {err : ParseError} (h : Sentence (Expr.body ts))
    (herr : Expr.parse ts = .error err) : ∃ p, err = .nestingTooDeep depthLimit p := by
  rcases h.parse with ⟨tree, hok⟩ | ⟨p, hdeep⟩
  · rw [hok] at herr
    cases herr
  · rw [hdeep] at herr
    cases herr
    exact ⟨p, rfl⟩

/-- Nothing completes tokens that the parser refuses whatever follows them. -/
theorem not_viable_of_refused {err : ParseError} (hdeep : ∀ p, err ≠ .nestingTooDeep depthLimit p)
    (h : ∀ more, Expr.parse (ts ++ more) = .error err) : ¬ Viable ts := by
  rintro ⟨more, hsentence⟩
  rw [← hsentence.body_eq] at hsentence
  obtain ⟨p, rfl⟩ := hsentence.eq_nestingTooDeep (h more)
  exact hdeep p rfl

end Sentences

namespace Expr
variable {tokens : List Token} {err : ParseError}

theorem parse_of_fails {c : Cursor} (h : Fails (.chain .sum) (.ofTokens tokens) err c) :
    Expr.parse tokens = .error err := by
  rw [parse_eq_run, h.run_eq]

theorem parse_of_trailing {tree : Expr} {p after : List Token} {t : Token} {d : Nat}
    (h : Reads (.chain .sum) (.ofTokens tokens) tree ⟨p, t :: after, d⟩) (ht : t.kind ≠ .eof) :
    Expr.parse tokens = .error (.trailingInput t.kind t.lexeme t.span.start) := by
  rw [parse_eq_run, h.run_eq]
  exact if_neg ht

theorem cases_of_parse_error (h : Expr.parse tokens = .error err) :
    (∃ c, Fails (.chain .sum) (.ofTokens tokens) err c) ∨
      ∃ tree p t after d, Reads (.chain .sum) (.ofTokens tokens) tree ⟨p, t :: after, d⟩ ∧
        t.kind ≠ .eof ∧ err = .trailingInput t.kind t.lexeme t.span.start := by
  rcases (Task.chain .sum).settled (.ofTokens tokens) with ⟨tree, ⟨p, ahead, d⟩, hr⟩ | ⟨err', c, hf⟩
  · by_cases hend : Ended ahead
    · rw [parse_eq_ok_iff_reads.mpr ⟨_, hr, hend⟩] at h
      cases h
    · cases ahead with
      | nil => exact absurd (by simp [Ended]) hend
      | cons t after =>
        have ht : t.kind ≠ .eof := by simpa [Ended] using hend
        rw [parse_of_trailing hr ht] at h
        cases h
        exact .inr ⟨tree, p, t, after, d, hr, ht, rfl⟩
  · rw [parse_of_fails hf] at h
    cases h
    exact .inl ⟨c, hf⟩

section Refused
variable {p after : List Token} {t : Token} {d : Nat} {c : Cursor} {us : List Token}

theorem ended_of_kind (h : c.kind = .eof) : Ended c.ahead := by
  obtain ⟨p, _ | ⟨t, ts⟩, d⟩ := c
  · simp [Ended]
  · intro u hu
    cases hu
    exact h

theorem passed_of_passes (h : (Cursor.ofTokens tokens).Passes us c) : us = c.passed.reverse := by
  have hpassed : c.passed = us.reverse ++ [] := h.passed
  rw [hpassed, List.append_nil, List.reverse_reverse]

theorem parse_of_fails_at (h : Fails (.chain .sum) (.ofTokens tokens) err ⟨p, t :: after, d⟩)
    (more : List Token) : Expr.parse (p.reverse ++ [t] ++ more) = .error err := by
  obtain ⟨us, hpasses, hlocal⟩ := h.isLocal
  have hmore := hlocal (t :: more) rfl
  rw [passed_of_passes hpasses, List.append_cons] at hmore
  exact parse_of_fails hmore

theorem parse_of_trailing_at {tree : Expr}
    (h : Reads (.chain .sum) (.ofTokens tokens) tree ⟨p, t :: after, d⟩) (ht : t.kind ≠ .eof)
    (more : List Token) : Expr.parse (p.reverse ++ [t] ++ more) =
      .error (.trailingInput t.kind t.lexeme t.span.start) := by
  obtain ⟨us, hpasses, hlocal⟩ := h.isLocal
  have hmore := hlocal (t :: more) rfl
  rw [passed_of_passes hpasses, List.append_cons] at hmore
  exact parse_of_trailing hmore ht

theorem body_of_passes (h : (Cursor.ofTokens tokens).Passes us ⟨p, t :: after, d⟩)
    (hus : ∀ u ∈ us, u.kind ≠ .eof) (ht : t.kind ≠ .eof) : body tokens = us ++ t :: body after := by
  have htokens : tokens = us ++ t :: after := h.ahead
  rw [htokens, body_append_of_ne_eof hus, body_cons ht]

/-- What the parser stops behind is no sentence. It would go on with an operator and come to an end
with any other token. -/
theorem not_sentence_of_fails (h : Fails (.chain .sum) (.ofTokens tokens) err ⟨p, t :: after, d⟩)
    (hpasses : (Cursor.ofTokens tokens).Passes us ⟨p, t :: after, d⟩)
    (hdeep : ∀ p, err ≠ .nestingTooDeep depthLimit p) : ¬ Sentence us := by
  intro hsentence
  by_cases hop : t.Among (Chain.sum.tighter ++ Chain.sum.operators)
  · have hrefused := not_viable_of_refused hdeep (parse_of_fails_at h)
    rw [← passed_of_passes hpasses] at hrefused
    exact hrefused (hsentence.viable_operator hop)
  · have hapart (ops : List String)
        (hops : ∀ op ∈ ops, op ∈ Chain.sum.tighter ++ Chain.sum.operators) :
        Apart ops (t :: after) := by
      intro u hu hu'
      cases hu
      exact hop ⟨hu'.1, hops _ hu'.2⟩
    obtain ⟨i, e, n, hs⟩ := hsentence
    have htokens : tokens = us ++ t :: after := hpasses.ahead
    have hmeets := hs.read.chain_meets (p := []) (Nat.zero_le depthLimit)
      (hapart _ fun _ => List.mem_append_left _) (hapart _ fun _ => List.mem_append_right _)
    rw [← htokens] at hmeets
    have hrun := h.run_eq
    rcases Nat.lt_or_ge depthLimit (0 + n) with hlt | hle
    · obtain ⟨position, c, hf⟩ := hmeets.2 hlt
      cases hrun.symm.trans hf.run_eq
      exact hdeep position rfl
    · cases hrun.symm.trans (hmeets.1 hle).run_eq

end Refused

/-- An error says what is wrong with the tokens, and says it of the first token that is. -/
theorem explains_of_parse_error (hlegible : ∀ t ∈ tokens, t.Legible)
    (h : Expr.parse tokens = .error err) : err.Explains (body tokens) := by
  rcases cases_of_parse_error h with ⟨c, hf⟩ | ⟨tree, p, t, after, d, hr, ht, rfl⟩
  · have hready : (Task.chain .sum).Ready (.ofTokens tokens) := ⟨Nat.zero_le _, hlegible, trivial⟩
    obtain ⟨⟨ts, more, hpasses, hsentence⟩, rfl | ⟨p, rfl⟩⟩ := hf.halts hready
    · have hviable : Viable ts := ⟨more, hsentence⟩
      by_cases hend : c.kind = .eof
      · have hbody : body tokens = ts := by
          rw [show tokens = ts ++ c.ahead from hpasses.ahead,
            body_append hviable.ne_eof (ended_of_kind hend)]
        rw [Cursor.unexpected_of_eof hend] at h ⊢
        rw [hbody]
        refine ⟨hviable, fun hs => ?_⟩
        rw [← hbody] at hs
        obtain ⟨p, hdeep⟩ := hs.eq_nestingTooDeep h
        cases hdeep
      · obtain ⟨p, _ | ⟨t, after⟩, d⟩ := c
        · exact absurd rfl hend
        · have ht : t.kind ≠ .eof := hend
          rw [Cursor.unexpected_of_ne_eof ht] at hf ⊢
          have hrefused := not_viable_of_refused (by simp) (parse_of_fails_at hf)
          rw [← passed_of_passes hpasses] at hrefused
          exact ⟨ts, t, ⟨⟨_, body_of_passes hpasses hviable.ne_eof ht⟩, hviable, hrefused⟩,
            not_sentence_of_fails hf hpasses (by simp), rfl, rfl, rfl⟩
    · rfl
  · obtain ⟨i, n, ts, hpasses, hs, -⟩ := hr.derived (Nat.zero_le _)
    have hsentence : Sentence ts := ⟨i, tree, n, hs⟩
    have hrefused := not_viable_of_refused (by simp) (parse_of_trailing_at hr ht)
    rw [← passed_of_passes hpasses] at hrefused
    exact ⟨ts, t, ⟨⟨_, body_of_passes hpasses hs.ne_eof ht⟩, hsentence.viable, hrefused⟩, hsentence,
      rfl, rfl, rfl⟩

theorem eq_error_of_check {answer : Except ParseError Expr}
    (h : (match answer with | .error err' => err' == err | .ok _ => false : Bool) = true) :
    answer = .error err := by
  cases answer with
  | error err' => rw [eq_of_beq h]
  | ok tree => cases h

/-- In `max(2 3` it is the second number that no sentence can go on with. -/
theorem explains_of_parse_error_missing_comma :
    ∃ tokens : List Token,
      tokens = [⟨.function, "max", ⟨0, 3⟩⟩, ⟨.lparen, "(", ⟨3, 4⟩⟩, ⟨.number, "2", ⟨4, 5⟩⟩,
        ⟨.number, "3", ⟨6, 7⟩⟩, ⟨.eof, "", ⟨7, 7⟩⟩] ∧
      (∀ t ∈ tokens, t.Legible) ∧
      Expr.parse tokens = .error (.unexpectedToken .number "3" 6) ∧
      (ParseError.unexpectedToken .number "3" 6).Explains (body tokens) := by
  refine ⟨_, rfl, ?legible, ?parse, explains_of_parse_error ?legible ?parse⟩
  case legible => decide +kernel
  case parse =>
    apply eq_error_of_check
    decide +kernel

end Expr

end Reckon
