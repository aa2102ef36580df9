import Reckon.Proofs.Layout

/-!
# The tokens of a source side by side

The tokens of a source lie in it side by side: each stands where its characters are, none lies over
another, and what is left between them is blank. The last token is the end of the source. Two tokens
that touch could not have been one, since no class accepts the text of the first with the next
character.

All but the blanks is read off one fact, that every token was a run taken at its place. That the rest
is blank, and the runs are not, follows the scan from the start of the source to its end.
-/
namespace Reckon
open Text TokenClass

/-- The character at the position is one of those that the span covers. -/
def Span.Covers (s : Span) (position : Nat) : Prop := s.start ≤ position ∧ position < s.stop

/-- What the lexeme of a token is made of the token's text: functions and constants are spelled in
lower case. -/
def TokenKind.spelling (kind : TokenKind) (text : List Char) : String :=
  if kind = .function ∨ kind = .constant then lower (String.ofList text) else String.ofList text

/-- The tokens lie in the source side by side, and cover all of it but the blanks. -/
structure Tiles (source : List Char) (tokens : List Token) : Prop where
  /-- The last token, and no other, is the end of the source. -/
  stop : ∃ ts, tokens = ts ++ [.endAt source.length] ∧ ∀ t ∈ ts, t.kind ≠ .eof
  size : ∀ t ∈ tokens, t.kind ≠ .eof →
    t.span.start < t.span.stop ∧ t.span.stop ≤ t.span.start + lexemeLimit
  ordered : ∀ t u, [t, u] <:+: tokens → t.span.stop ≤ u.span.start
  spelled : ∀ t ∈ tokens, t.lexeme = t.kind.spelling (source.extract t.span.start t.span.stop)
  blank : ∀ i c, source[i]? = some c → (isBlank c ↔ ∀ t ∈ tokens, ¬ t.span.Covers i)
  /-- Where a token begins as soon as the one in front of it ends, that one could not go on. -/
  apart : ∀ t u, [t, u] <:+: tokens → u.kind ≠ .eof → t.span.stop = u.span.start →
    ∃ c, source[t.span.stop]? = some c ∧
      accepts all (source.extract t.span.start t.span.stop ++ [c]) = false

section Runs
variable {l : Language} {run text : List Char} {p i : Nat} {ts us tokens : List Token} {t u : Token}
  {source : String} {c : Char}

theorem Language.Has.lexeme_token (h : l.Has run) (p : Nat) :
    (l.token run p).lexeme = (l.token run p).kind.spelling run := by
  rw [← ofLexeme_kind h]
  rfl

/-- Every token but the last is a run taken at its place. -/
theorem Munch.exists_run (h : Munch p text (.ok (ts ++ t :: us))) (ht : t.kind ≠ .eof) :
    ∃ before l run rest, text = before ++ (run ++ rest) ∧ Language.Takes l run rest ∧
      run.length ≤ lexemeLimit ∧ t = l.token run (p + before.length) ∧
      Munch (p + before.length + run.length) rest (.ok us) := by
  generalize htokens : ts ++ t :: us = tokens at h
  induction h using Munch.ok_induction generalizing ts with
  | done p =>
    have hmem : t ∈ [Token.endAt p] := by simp [← htokens]
    cases List.mem_singleton.mp hmem
    exact absurd rfl ht
  | blank p c text tokens _ _ ih =>
    obtain ⟨before, l, run, rest, rfl, htakes, hlength, hrun, hrest⟩ := ih htokens
    refine ⟨c :: before, l, run, rest, rfl, htakes, hlength, ?_⟩
    rw [List.length_cons, Nat.add_comm before.length, ← Nat.add_assoc]
    exact ⟨hrun, hrest⟩
  | token p l run rest tokens htakes hlength _ hrest ih =>
    cases ts with
    | nil =>
      cases htokens
      exact ⟨[], l, run, rest, rfl, htakes, hlength, rfl, hrest⟩
    | cons first ts =>
      obtain ⟨before, l', run', rest', rfl, htakes', hlength', hrun, hrest'⟩ := ih (List.cons.inj htokens).2
      refine ⟨run ++ before, l', run', rest', by simp, htakes', hlength', ?_⟩
      rw [List.length_append, ← Nat.add_assoc]
      exact ⟨hrun, hrest'⟩

theorem Munch.isBlank_iff (h : Munch p text (.ok tokens)) (hc : text[i]? = some c) :
    isBlank c ↔ ∀ t ∈ tokens, ¬ t.span.Covers (p + i) := by
  induction h using Munch.ok_induction generalizing i with
  | done p => cases hc
  | blank p d text tokens hblank hrest ih =>
    cases i with
    | zero =>
      cases hc
      refine iff_of_true hblank fun t ht hcovers => ?_
      have hstart := (hrest.le_start t ht).1
      have hle := hcovers.1
      omega
    | succ i =>
      rw [ih hc, Nat.add_assoc, Nat.add_comm 1]
  | token p l run rest tokens htakes _ _ hrest ih =>
    obtain ⟨kind, lexeme, -, htoken⟩ := htakes.has.exists_token_eq
    have hfirst : (l.token run p).span.Covers (p + i) ↔ i < run.length := by
      simp [htoken, Span.Covers]
    rw [List.forall_mem_cons, hfirst]
    by_cases hi : i < run.length
    · rw [List.getElem?_append_left hi] at hc
      have hblank := htakes.has.not_isBlank c (List.mem_of_getElem? hc)
      exact iff_of_false hblank fun hall => hall.1 hi
    · obtain ⟨j, rfl⟩ := Nat.exists_eq_add_of_le (Nat.not_lt.mp hi)
      rw [List.getElem?_append_right (Nat.le_add_right _ j), Nat.add_sub_cancel_left] at hc
      rw [ih hc, Nat.add_assoc]
      exact (and_iff_right hi).symm

end Runs

section Sources
variable {source : String} {ts us tokens : List Token} {t u : Token}

theorem tokens_eq_of_tokenize (h : tokenize source = .ok tokens) :
    tokens = Expr.body tokens ++ [.endAt source.toList.length] := by
  simpa using (munch_of_tokenize h).tokens_eq

theorem ne_eof_of_mem_body (h : t ∈ Expr.body tokens) : t.kind ≠ .eof := by
  simpa using List.all_eq_true.mp List.all_takeWhile t h

theorem exists_run_of_tokenize (h : tokenize source = .ok (ts ++ t :: us)) (ht : t.kind ≠ .eof) :
    ∃ before l run rest, source.toList = before ++ (run ++ rest) ∧ Language.Takes l run rest ∧
      run.length ≤ lexemeLimit ∧ t = l.token run before.length ∧
      Munch (before.length + run.length) rest (.ok us) := by
  simpa using (munch_of_tokenize h).exists_run ht

/-- A token that another one comes after is a run, and the scan goes on behind it. -/
theorem exists_run_of_pair (h : tokenize source = .ok tokens) (hpair : [t, u] <:+: tokens) :
    ∃ before l run rest us, source.toList = before ++ (run ++ rest) ∧ Language.Takes l run rest ∧
      t = l.token run before.length ∧ Munch (before.length + run.length) rest (.ok (u :: us)) := by
  obtain ⟨ts, us, rfl⟩ := hpair
  rw [List.append_assoc] at h
  have hbody : t ∈ Expr.body (ts ++ ([t, u] ++ us)) := by
    have hdrop := congrArg List.dropLast (tokens_eq_of_tokenize h)
    rw [List.dropLast_concat] at hdrop
    rw [← hdrop]
    simp [List.dropLast_append_of_ne_nil]
  obtain ⟨before, l, run, rest, hsource, htakes, -, ht, hrest⟩ :=
    exists_run_of_tokenize h (ne_eof_of_mem_body hbody)
  exact ⟨before, l, run, rest, us, hsource, htakes, ht, hrest⟩

theorem size_of_tokenize (h : tokenize source = .ok tokens) (ht : t ∈ tokens) (hkind : t.kind ≠ .eof) :
    t.span.start < t.span.stop ∧ t.span.stop ≤ t.span.start + lexemeLimit := by
  obtain ⟨ts, us, rfl⟩ := List.append_of_mem ht
  obtain ⟨before, l, run, rest, -, htakes, hlength, rfl, -⟩ := exists_run_of_tokenize h hkind
  have hpos := List.length_pos_iff.mpr htakes.has.ne_nil
  rw [Language.span_token]
  exact ⟨Nat.lt_add_of_pos_right hpos, Nat.add_le_add_left hlength _⟩

theorem ordered_of_tokenize (h : tokenize source = .ok tokens) (hpair : [t, u] <:+: tokens) :
    t.span.stop ≤ u.span.start := by
  obtain ⟨before, l, run, rest, us, -, -, rfl, hrest⟩ := exists_run_of_pair h hpair
  rw [Language.span_token]
  exact (hrest.le_start u List.mem_cons_self).1

theorem spelled_of_tokenize (h : tokenize source = .ok tokens) (ht : t ∈ tokens) :
    t.lexeme = t.kind.spelling (source.toList.extract t.span.start t.span.stop) := by
  by_cases hkind : t.kind = .eof
  · rw [tokens_eq_of_tokenize h] at ht
    rcases List.mem_append.mp ht with ht | ht
    · exact absurd hkind (ne_eof_of_mem_body ht)
    · cases List.mem_singleton.mp ht
      simp [Token.endAt, TokenKind.spelling, List.extract]
  · obtain ⟨ts, us, rfl⟩ := List.append_of_mem ht
    obtain ⟨before, l, run, rest, hsource, htakes, -, rfl, -⟩ := exists_run_of_tokenize h hkind
    rw [Language.span_token, hsource, extract_run, htakes.has.lexeme_token]

theorem blank_of_tokenize (h : tokenize source = .ok tokens) {i : Nat} {c : Char}
    (hc : source.toList[i]? = some c) : isBlank c ↔ ∀ t ∈ tokens, ¬ t.span.Covers i := by
  simpa using (munch_of_tokenize h).isBlank_iff hc

/-- Two tokens that touch are two because the first could not go on. -/
theorem apart_of_tokenize (h : tokenize source = .ok tokens) (hpair : [t, u] <:+: tokens)
    (hkind : u.kind ≠ .eof) (htouch : t.span.stop = u.span.start) :
    ∃ c, source.toList[t.span.stop]? = some c ∧
      accepts all (source.toList.extract t.span.start t.span.stop ++ [c]) = false := by
  obtain ⟨before, l, run, rest, us, hsource, htakes, rfl, hrest⟩ := exists_run_of_pair h hpair
  have hnext : Munch _ _ (.ok ([] ++ u :: us)) := hrest
  obtain ⟨blanks, l', run', rest', rfl, htakes', -, rfl, -⟩ := hnext.exists_run hkind
  rw [Language.span_token, Language.span_token] at htouch
  have hblanks : blanks = [] := List.eq_nil_of_length_eq_zero (by dsimp only at htouch; omega)
  obtain ⟨c, more, rfl⟩ := List.exists_cons_of_ne_nil htakes'.has.ne_nil
  subst hblanks
  refine ⟨c, ?_, ?_⟩
  · rw [Language.span_token, hsource, List.getElem?_append_right (Nat.le_add_right _ _),
      Nat.add_sub_cancel_left, List.getElem?_append_right (Nat.le_refl _), Nat.sub_self]
    rfl
  · rw [Language.span_token, hsource, extract_run]
    exact htakes.accepts_eq_false

/-- The tokens of a source lie in it side by side. -/
theorem tiles_of_tokenize (h : tokenize source = .ok tokens) : Tiles source.toList tokens where
  stop := ⟨_, tokens_eq_of_tokenize h, fun _ => ne_eof_of_mem_body⟩
  size _ := size_of_tokenize h
  ordered _ _ := ordered_of_tokenize h
  spelled _ := spelled_of_tokenize h
  blank _ _ := blank_of_tokenize h
  apart _ _ := apart_of_tokenize h

/-- In ` 2PI` the number and the constant touch behind a blank. -/
theorem tiles_of_tokenize_double_pi :
    tokenize " 2PI" =
        .ok [⟨.number, "2", ⟨1, 2⟩⟩, ⟨.constant, "pi", ⟨2, 4⟩⟩, .endAt 4] ∧
      Tiles [' ', '2', 'P', 'I'] [⟨.number, "2", ⟨1, 2⟩⟩, ⟨.constant, "pi", ⟨2, 4⟩⟩, .endAt 4] := by
  have htokens : tokenize " 2PI" =
      .ok [⟨.number, "2", ⟨1, 2⟩⟩, ⟨.constant, "pi", ⟨2, 4⟩⟩, .endAt 4] := by
    apply eq_ok_of_toOption
    decide +kernel
  exact ⟨htokens, tiles_of_tokenize htokens⟩

end Sources

end Reckon
