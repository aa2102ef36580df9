import Reckon.Proofs.Writing

/-!
# Other text in the place of tokens

A source is changed by putting another text in the place of some of its tokens. If the other text is
scanned into the same words wherever it stands, then the changed source is scanned into the words of
the source, with those of the other text in the place of the words of these tokens.

No run of the source grows or shrinks by the change. A run that stays is followed by what followed
it before, or by the beginning of the other text, with which no run goes on. The positions behind a
change are others than before, and the grammar does not see them.
-/
namespace Reckon
open Text

/-- What the grammar sees of a token. -/
def Token.word (t : Token) : TokenKind × String := (t.kind, t.lexeme)

/-- The text, which begins at the position, with another text in the place of what the spans cover.
The spans come one behind the other. -/
def splice (insert : List Char) : Nat → List Span → List Char → List Char
  | _, [], text => text
  | position, s :: spans, text =>
    text.take (s.start - position) ++ insert ++
      splice insert s.stop spans (text.drop (s.stop - position))

namespace Language
variable {l : Language} {run rest rest' : List Char} {c : Char}

theorem Has.exists_token_eq (h : l.Has run) :
    ∃ kind lexeme, kind ≠ .eof ∧ ∀ p, l.token run p = ⟨kind, lexeme, ⟨p, p + run.length⟩⟩ := by
  have hown : l.ownKind ≠ .eof := by
    cases l with
    | numeral => nofun
    | name => nofun
    | symbol kind =>
      obtain ⟨c, -, hkind⟩ := h
      rintro rfl
      exact absurd (symbolKind_mem hkind) (by decide)
  unfold token
  dsimp only
  split
  · exact ⟨.function, _, nofun, fun _ => rfl⟩
  · split
    · exact ⟨.constant, _, nofun, fun _ => rfl⟩
    · exact ⟨_, _, hown, fun _ => rfl⟩

theorem Has.body_token (h : l.Has run) (p : Nat) (ts : List Token) :
    Expr.body (l.token run p :: ts) = l.token run p :: Expr.body ts := by
  obtain ⟨kind, lexeme, hkind, htoken⟩ := h.exists_token_eq
  exact Expr.body_cons (by rwa [htoken]) ts

theorem span_token (l : Language) (run : List Char) (p : Nat) :
    (l.token run p).span = ⟨p, p + run.length⟩ := by
  unfold token
  dsimp only
  repeat' split
  all_goals rfl

/-- A run that is taken is also taken if what follows begins as before, or with a character that no
run goes on with. -/
theorem Takes.followed (h : l.Takes run rest)
    (hrest : ∀ c ∈ rest'.head?, c ∈ rest.head? ∨ ¬ isNamePart c ∧ c ≠ '.') :
    l.Takes run rest' := by
  apply h.has.takes
  intro c hc hgrown
  rcases hrest c hc with hsame | hparted
  · obtain ⟨more, rfl⟩ : ∃ more, rest = c :: more := List.head?_eq_some_iff.mp hsame
    exact h.not_grown hgrown
  · exact h.has.not_grown hparted hgrown

end Language

section Texts
variable {insert run rest text : List Char} {p : Nat} {spans : List Span} {c : Char}

theorem splice_append (h : ∀ s ∈ spans, p + run.length ≤ s.start ∧ s.start ≤ s.stop) :
    splice insert p spans (run ++ rest) = run ++ splice insert (p + run.length) spans rest := by
  cases spans with
  | nil => rfl
  | cons s spans =>
    obtain ⟨hstart, hstop⟩ := h s List.mem_cons_self
    have htake : (run ++ rest).take (s.start - p) =
        run ++ rest.take (s.start - (p + run.length)) := by
      rw [List.take_append, List.take_of_length_le (by omega), Nat.sub_sub]
    have hdrop : (run ++ rest).drop (s.stop - p) = rest.drop (s.stop - (p + run.length)) := by
      rw [List.drop_append, List.drop_of_length_le (by omega), List.nil_append, Nat.sub_sub]
    rw [splice, splice, htake, hdrop]
    simp only [List.append_assoc]

theorem splice_run (insert run rest : List Char) (p : Nat) (spans : List Span) :
    splice insert p (⟨p, p + run.length⟩ :: spans) (run ++ rest) =
      insert ++ splice insert (p + run.length) spans rest := by
  simp [splice]

theorem mem_head?_splice (hparted : ∀ more, Parted (insert ++ more))
    (hc : c ∈ (splice insert p spans text).head?) :
    c ∈ text.head? ∨ ¬ isNamePart c ∧ c ≠ '.' := by
  cases spans with
  | nil => exact .inl hc
  | cons s spans =>
    rw [splice, List.append_assoc, List.head?_append, List.head?_take] at hc
    split at hc
    · exact .inr (hparted _ c hc)
    · cases text with
      | nil => exact .inr (hparted _ c hc)
      | cons d text => exact .inl hc

end Texts

section Tokens
variable {insert text : List Char} {p q : Nat}
  {tokens ts : List Token} {words : List (TokenKind × String)}

theorem scans_nil : Scans [] p [] := by
  intro rest answer _ hrest
  cases answer <;> exact hrest

/-- A run is scanned in front of what begins as what followed it, or what no run goes on with. -/
theorem Language.Takes.scans {l : Language} {run rest rest' : List Char} (h : l.Takes run rest)
    (hlength : run.length ≤ lexemeLimit) (hlast : run.getLast? ≠ some '.')
    (hrest : ∀ c ∈ rest'.head?, c ∈ rest.head? ∨ ¬ isNamePart c ∧ c ≠ '.')
    (hscans : Scans rest' (q + run.length) ts) : Scans (run ++ rest') q (l.token run q :: ts) := by
  intro more answer hmore hanswer
  have htakes : l.Takes run (rest' ++ more) := by
    apply h.followed
    intro c hc
    rw [List.head?_append] at hc
    rcases Option.or_eq_some_iff.mp hc with hc | ⟨-, hc⟩
    · exact hrest c hc
    · exact .inr (hmore c hc)
  rw [List.length_append, ← Nat.add_assoc] at hanswer
  have hmunch := Munch.token htakes hlength hlast (hscans more answer hmore hanswer)
  rw [List.append_assoc]
  cases answer <;> exact hmunch

theorem Munch.le_start (h : Munch p text (.ok tokens)) :
    ∀ t ∈ tokens, p ≤ t.span.start ∧ t.span.start ≤ t.span.stop := by
  induction h using Munch.ok_induction with
  | done p =>
    intro t ht
    cases List.mem_singleton.mp ht
    exact ⟨Nat.le_refl p, Nat.le_refl p⟩
  | blank p c text tokens _ _ ih =>
    intro t ht
    exact (ih t ht).imp_left Nat.le_of_succ_le
  | token p l run rest tokens htakes _ _ _ ih =>
    obtain ⟨kind, lexeme, -, htoken⟩ := htakes.has.exists_token_eq
    rw [htoken, List.forall_mem_cons]
    exact ⟨⟨Nat.le_refl p, Nat.le_add_right p _⟩,
      fun t ht => (ih t ht).imp_left Nat.le_of_add_right_le⟩

theorem Munch.spans_behind (h : Munch p text (.ok tokens)) (hit : Token → Bool) :
    ∀ s ∈ (tokens.filter hit).map Token.span, p ≤ s.start ∧ s.start ≤ s.stop := by
  intro s hs
  obtain ⟨t, ht, rfl⟩ := List.mem_map.mp hs
  exact h.le_start t (List.mem_filter.mp ht).1

/-- With the other text in the place of some tokens, the text is scanned into the words of the other
text in the place of the words of those tokens. -/
theorem Munch.scans_splice (h : Munch p text (.ok tokens)) (hit : Token → Bool)
    (hhit : ∀ t, hit t → t.kind ≠ .eof) (hparted : ∀ more, Parted (insert ++ more))
    (hinsert : ∀ q, ∃ us, us.map Token.word = words ∧ Separates insert q us) (q : Nat) :
    ∃ ts,
      ts.map Token.word =
        (Expr.body tokens).flatMap (fun t => if hit t then words else [t.word]) ∧
      Scans (splice insert p ((tokens.filter hit).map Token.span) text) q ts := by
  induction h using Munch.ok_induction generalizing q with
  | done p =>
    have hend : hit (.endAt p) = false := Bool.eq_false_iff.mpr fun hend => hhit _ hend rfl
    refine ⟨[], by simp [Expr.body, Token.endAt], ?_⟩
    simpa [hend, splice] using scans_nil
  | blank p c text tokens hblank hrest ih =>
    obtain ⟨ts, hwords, hscans⟩ := ih (q + 1)
    refine ⟨ts, hwords, ?_⟩
    rw [← List.singleton_append, splice_append (hrest.spans_behind hit)]
    exact (separates_blank hblank).append_scans hscans
  | token p l run rest tokens htakes hlength hlast hrest ih =>
    obtain ⟨kind, lexeme, -, htoken⟩ := htakes.has.exists_token_eq
    rw [htakes.has.body_token, List.flatMap_cons]
    by_cases ht : hit (l.token run p)
    · obtain ⟨us, hus, hseparates⟩ := hinsert q
      obtain ⟨ts, hwords, hscans⟩ := ih (q + insert.length)
      refine ⟨us ++ ts, by rw [List.map_append, hus, hwords, if_pos ht], ?_⟩
      rw [List.filter_cons_of_pos ht, List.map_cons, htoken, splice_run]
      exact hseparates.append_scans hscans
    · obtain ⟨ts, hwords, hscans⟩ := ih (q + run.length)
      refine ⟨l.token run q :: ts, ?_, ?_⟩
      · rw [List.map_cons, hwords, if_neg ht, htoken, htoken]
        rfl
      · rw [List.filter_cons_of_neg ht, splice_append (hrest.spans_behind hit)]
        exact htakes.scans hlength hlast (fun c hc => mem_head?_splice hparted hc) hscans

theorem Munch.scans (h : Munch p text (.ok tokens)) (q : Nat) :
    ∃ ts, ts.map Token.word = (Expr.body tokens).map Token.word ∧ Scans text q ts := by
  have hblank : isBlank ' ' := by decide
  obtain ⟨ts, hwords, hscans⟩ := h.scans_splice (fun _ => false) (by simp)
    (fun _ => parted_cons (by decide)) (fun q => ⟨[], rfl, separates_blank hblank⟩) q
  rw [List.filter_eq_nil_iff.mpr (by simp)] at hscans
  refine ⟨ts, ?_, hscans⟩
  simpa [List.map_eq_flatMap] using hwords

end Tokens

end Reckon
