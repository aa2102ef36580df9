import Reckon.Proofs.Placement

/-!
# Layout and letter case

A source is laid out anew by writing its tokens one after another with other blanks between them,
and the names of functions and constants in other letter case. Where the source has a blank between
two tokens, one is kept. Then the scanner finds the same words: a run does not go on into blanks, and
where none are left between two runs there were none before, so what follows the run begins with the
same letter. A language that has a run has it in either letter case, and so the run is as long as
before.

The parser makes the same of the same words, and evaluation knows nothing but the tree. So a
calculation has the same value or the same error, at the token of the same number.
-/
namespace Reckon
open Text

/-- The text may stand for the token, which has `own` for a text: the names of functions and of
constants are written in either letter case. -/
structure Token.Respelled (t : Token) (own text : List Char) : Prop where
  letters : text.map Char.toLower = own.map Char.toLower
  same : t.kind ≠ .function → t.kind ≠ .constant → text = own

/-- The text is made of the tokens of the source, each with some blanks behind it. Two tokens that
have a blank between them in the source have one in the text. -/
inductive Relaid (source : List Char) : List Token → List Char → Prop
  | nil : Relaid source [] []
  | cons {t : Token} {ts : List Token} {text blanks rest : List Char} :
      t.Respelled (source.extract t.span.start t.span.stop) text → (∀ c ∈ blanks, isBlank c) →
      (∀ u ∈ ts.head?, (∃ c ∈ source.extract t.span.stop u.span.start, isBlank c) → blanks ≠ []) →
      Relaid source ts rest → Relaid source (t :: ts) (text ++ (blanks ++ rest))

section Letters
variable {c d : Char} {run text : List Char} {l : Language}

theorem eq_of_toLower_eq (h : c.toLower = d.toLower) (hd : ¬ isNameStart d) : c = d := by
  rw [← Char.toNat_inj, toNat_toLower, toNat_toLower] at h
  rw [← Char.toNat_inj]
  rw [isNameStart_iff] at hd
  have hupper : ¬ d.isUpper := by
    rw [isUpper_iff]
    omega
  rw [if_neg hupper] at h
  split at h
  · rename_i hc
    rw [isUpper_iff] at hc
    omega
  · exact h

theorem eq_of_map_toLower_eq (h : text.map Char.toLower = run.map Char.toLower)
    (hrun : ∀ c ∈ run, ¬ isNameStart c) : text = run := by
  induction run generalizing text with
  | nil => exact List.map_eq_nil_iff.mp h
  | cons d run ih =>
    obtain ⟨c, text, rfl, hc, htext⟩ := List.map_eq_cons_iff.mp h
    obtain ⟨hd, hrest⟩ := List.forall_mem_cons.mp hrun
    rw [eq_of_toLower_eq hc hd, ih htext hrest]

namespace Language

theorem Has.of_letters (h : l.Has run) (hletters : text.map Char.toLower = run.map Char.toLower) :
    l.Has text := by
  have hsame (hrun : ∀ c ∈ run, ¬ isNameStart c) : l.Has text := by
    rwa [eq_of_map_toLower_eq hletters hrun]
  cases l with
  | numeral =>
    apply hsame
    intro c hc
    rcases IsNumeralStart.digit_or_point h c hc with hdigit | rfl
    · exact not_isNameStart_of_isDigit hdigit
    · decide
  | name =>
    have hname : isName run := h
    rwa [← isName_map_toLower, ← hletters, isName_map_toLower] at hname
  | symbol kind =>
    apply hsame
    obtain ⟨d, rfl, hkind⟩ := h
    simpa using (symbol_facts (Option.isSome_of_eq_some hkind)).2.2.1

theorem getLast?_ne_point_of_letters (hlast : run.getLast? ≠ some '.')
    (hletters : text.map Char.toLower = run.map Char.toLower) : text.getLast? ≠ some '.' := by
  intro htext
  have hpoint : (run.map Char.toLower).getLast? = some '.' := by
    rw [← hletters, List.getLast?_map, htext]
    rfl
  rw [List.getLast?_map, Option.map_eq_some_iff] at hpoint
  obtain ⟨c, hc, hlower⟩ := hpoint
  have hsame : c = '.' := eq_of_toLower_eq hlower (by decide)
  exact hlast (hsame ▸ hc)

/-- The word of a token is the same wherever it stands, and for the names of functions and constants
in either letter case. -/
theorem Has.word_token (h : l.Has run) {p : Nat}
    (hspelled : (l.token run p).Respelled run text) (q : Nat) :
    (l.token text q).word = (l.token run p).word := by
  have hlower : lower (String.ofList text) = lower (String.ofList run) := by
    rw [← String.toList_inj, toList_lower, toList_lower, String.toList_ofList,
      String.toList_ofList, hspelled.letters]
  have hfunctions : Vocabulary.isFunctionName (String.ofList text) =
      Vocabulary.isFunctionName (String.ofList run) := by
    rw [Vocabulary.isFunctionName, Vocabulary.isFunctionName, hlower]
  have hconstants : Vocabulary.constant? (String.ofList text) =
      Vocabulary.constant? (String.ofList run) := by
    rw [Vocabulary.constant?, Vocabulary.constant?, hlower]
  by_cases hfunction : Vocabulary.isFunctionName (String.ofList run)
  · simp [token, Token.word, hfunctions, hfunction, hlower]
  · by_cases hconstant : (Vocabulary.constant? (String.ofList run)).isSome
    · simp [token, Token.word, hfunctions, hfunction, hconstants, hconstant, hlower]
    · have hkind : (l.token run p).kind = l.ownKind := by simp [token, hfunction, hconstant]
      have hsame : text = run := by
        apply hspelled.same
        · rw [hkind]
          exact h.ownKind_ne_word.1
        · rw [hkind]
          exact h.ownKind_ne_word.2
      simp [token, Token.word, hsame, hfunction, hconstant]

end Language

end Letters

section Scanning
variable {source before text text' run rest : List Char} {p q : Nat} {tokens : List Token}
  {c : Char} {u : Token}

theorem extract_run (before run rest : List Char) :
    (before ++ (run ++ rest)).extract before.length (before.length + run.length) = run := by
  simp [List.extract]

theorem Munch.next (h : Munch p text (.ok tokens)) (hu : u ∈ (Expr.body tokens).head?) :
    (∃ c more, text = c :: more ∧ isBlank c ∧ p < u.span.start) ∨
      ∃ run more, text = run ++ more ∧ run ≠ [] ∧ u.span = ⟨p, p + run.length⟩ := by
  cases h using Munch.ok_induction with
  | done => cases hu
  | blank p c more tokens hblank hrest _ =>
    refine .inl ⟨c, more, rfl, hblank, ?_⟩
    have hmem : u ∈ tokens := (List.takeWhile_sublist _).subset (List.mem_of_mem_head? hu)
    exact (hrest.le_start u hmem).1
  | token p l run more tokens htakes _ _ _ _ =>
    obtain ⟨kind, lexeme, hkind, htoken⟩ := htakes.has.exists_token_eq
    refine .inr ⟨run, more, rfl, htakes.has.ne_nil, ?_⟩
    have hhead : l.token run p = u := by
      simpa [Expr.body, htoken, hkind] using hu
    rw [← hhead, htoken]

/-- A token that begins where the text does, and not behind a blank, is written anew with the same
first letter. -/
theorem Munch.letter_of_relaid (h : Munch p text (.ok tokens)) (hbefore : before.length = p)
    (hrelaid : Relaid (before ++ text) (Expr.body tokens) text')
    (hblank : ∀ u ∈ (Expr.body tokens).head?, ¬ ∃ d ∈ (before ++ text).extract p u.span.start, isBlank d)
    (hc : c ∈ text'.head?) : ∃ d more, text = d :: more ∧ c.toLower = d.toLower := by
  generalize htokens : Expr.body tokens = ts at hrelaid hblank
  cases hrelaid with
  | nil => cases hc
  | @cons u ts word blanks rest hspelled _ _ _ =>
    rcases h.next (u := u) (by simp [htokens]) with ⟨d, more, rfl, hd, hlt⟩ | ⟨run, more, rfl, hne, hspan⟩
    · refine absurd ⟨d, ?_, hd⟩ (hblank u rfl)
      subst hbefore
      obtain ⟨n, hn⟩ : ∃ n, u.span.start = before.length + (n + 1) :=
        ⟨u.span.start - before.length - 1, by omega⟩
      simp [List.extract, hn]
    · subst hbefore
      rw [hspan, extract_run] at hspelled
      obtain ⟨d, run, rfl⟩ := List.exists_cons_of_ne_nil hne
      obtain ⟨e, word, rfl, he, -⟩ := List.map_eq_cons_iff.mp hspelled.letters
      cases hc
      exact ⟨d, run ++ more, rfl, he⟩

/-- A text laid out anew is scanned into the same words. -/
theorem Munch.relaid (h : Munch p text (.ok tokens)) (hbefore : before.length = p)
    (hrelaid : Relaid (before ++ text) (Expr.body tokens) text') (q : Nat) :
    ∃ others, Munch q text' (.ok others) ∧ others.map Token.word = tokens.map Token.word := by
  induction h using Munch.ok_induction generalizing before text' q with
  | done p =>
    cases hrelaid
    exact ⟨[.endAt q], .done, rfl⟩
  | blank p c text tokens _ _ ih =>
    rw [List.append_cons] at hrelaid
    exact ih (by simp [hbefore]) hrelaid q
  | token p l run rest tokens htakes hlength hlast hrest ih =>
    have hspan : (l.token run p).span = ⟨p, p + run.length⟩ := l.span_token run p
    rw [htakes.has.body_token] at hrelaid
    cases hrelaid with
    | @cons _ _ word blanks rest' hspelled hblanks hgap hrelaid =>
      rw [hspan] at hspelled hgap
      subst hbefore
      rw [extract_run] at hspelled
      have hhas : l.Has word := htakes.has.of_letters hspelled.letters
      have hsize : word.length = run.length := by
        simpa using congrArg List.length hspelled.letters
      rw [← List.append_assoc] at hrelaid hgap
      obtain ⟨others, hothers, hwords⟩ := ih (by simp) hrelaid (q + word.length + blanks.length)
      have htakes' : l.Takes word (blanks ++ rest') := by
        apply hhas.takes
        intro c hc hgrown
        cases blanks with
        | cons _ blanks =>
          cases hc
          exact hhas.not_grown (not_part_of_isBlank (hblanks c List.mem_cons_self)) hgrown
        | nil =>
          obtain ⟨d, more, rfl, hletter⟩ := hrest.letter_of_relaid (by simp) hrelaid
            (fun u hu hblank => hgap u hu hblank rfl) hc
          have hgrown' : l.Has (run ++ [d]) := hgrown.of_letters (by simp [hspelled.letters, hletter])
          exact htakes.not_grown hgrown'
      have hbehind := separates_blanks hblanks rest' _ hothers
      have hmunch := Munch.token htakes' (by omega)
        (Language.getLast?_ne_point_of_letters hlast hspelled.letters) hbehind
      refine ⟨l.token word q :: others, hmunch, ?_⟩
      rw [List.map_cons, List.map_cons, hwords, htakes.has.word_token hspelled]

end Scanning

section Answers
variable {tokens others : List Token} {tree : Expr} {cause : ParseError}

/-- Tokens of these words, placed at their numbers. -/
def numbered (words : List (TokenKind × String)) : List Token :=
  words.mapIdx fun i word => ⟨word.1, word.2, ⟨i, i⟩⟩

theorem exists_respan_numbered (tokens : List Token) :
    ∃ g, (numbered (tokens.map Token.word)).map (Token.respan g) = tokens := by
  refine ⟨fun number => (tokens[number.start]?.map Token.span).getD number, ?_⟩
  apply List.ext_getElem
  · simp [numbered]
  · intro i hi hi'
    simp [numbered, Token.respan, Token.word, hi']

theorem ParseError.placedAt_placedAt (cause : ParseError) (p q : Nat) :
    (cause.placedAt p).placedAt q = cause.placedAt q := by
  cases cause <;> rfl

theorem ParseError.position_placedAt (cause : ParseError) (p : Nat) :
    (cause.placedAt p).position = p := by
  cases cause <;> rfl

theorem Cursor.tokens_respan (g : Span → Span) (c : Cursor) :
    (c.respan g).tokens = c.tokens.map (Token.respan g) := by
  simp [tokens, respan]

/-- The parser makes the same of the same words. It refuses both lists or none, and at the tokens of
the same number. -/
theorem Expr.parse_of_words (hwords : others.map Token.word = tokens.map Token.word)
    (hend : HasEnd tokens) (hend' : HasEnd others) :
    (∃ tree, Expr.parse tokens = .ok tree ∧ Expr.parse others = .ok tree) ∨
      ∃ (i : Nat) (t u : Token) (cause : ParseError),
        tokens[i]? = some t ∧ others[i]? = some u ∧ cause.position = t.span.start ∧
        Expr.parse tokens = .error cause ∧
        Expr.parse others = .error (cause.placedAt u.span.start) := by
  obtain ⟨g, hg⟩ := exists_respan_numbered tokens
  obtain ⟨g', hg'⟩ := exists_respan_numbered others
  rw [hwords] at hg'
  cases hparse : Expr.parse (numbered (tokens.map Token.word)) with
  | ok tree =>
    have htokens := parse_respan hparse g
    have hothers := parse_respan hparse g'
    rw [hg] at htokens
    rw [hg'] at hothers
    exact .inl ⟨tree, htokens, hothers⟩
  | error cause =>
    obtain ⟨spot, hspot, -, hrespan⟩ := placed_of_parse_error hparse
    have htokens := hrespan g
    have hothers := hrespan g'
    rw [hg] at htokens
    rw [hg'] at hothers
    obtain ⟨ts, n, hts⟩ := hend
    obtain ⟨us, m, hus⟩ := hend'
    have hspot₁ : (spot.respan g).tokens = tokens := by rw [spot.tokens_respan, hspot, hg]
    have hspot₂ : (spot.respan g').tokens = others := by rw [spot.tokens_respan, hspot, hg']
    obtain ⟨t, ht, hstart⟩ := Cursor.exists_getElem?_index (hspot₁.trans hts) rfl
    obtain ⟨u, hu, hstart'⟩ := Cursor.exists_getElem?_index (hspot₂.trans hus) rfl
    rw [Cursor.index_respan, hspot₁] at ht
    rw [Cursor.index_respan, hspot₂] at hu
    refine .inr ⟨spot.index, t, u, cause.placedAt t.span.start, ht, hu,
      cause.position_placedAt _, ?_, ?_⟩
    · rw [htokens, hstart]
    · rw [hothers, hstart', cause.placedAt_placedAt]

/-- The same value or the same error. An error that has a position has that of a token among the
tokens, and in the other answer that of the token of the same number among the others. -/
inductive SameAnswer (tokens others : List Token) :
    Except Error Float → Except Error Float → Prop
  | value (x : Float) : SameAnswer tokens others (.ok x) (.ok x)
  | fault (cause : EvalError) :
      SameAnswer tokens others (.error (.eval cause)) (.error (.eval cause))
  | refused {i : Nat} {t u : Token} {cause : ParseError} :
      tokens[i]? = some t → others[i]? = some u → cause.position = t.span.start →
      SameAnswer tokens others (.error (.parse cause))
        (.error (.parse (cause.placedAt u.span.start)))

theorem sameAnswer_of_words {source source' : String} (h : tokenize source = .ok tokens)
    (h' : tokenize source' = .ok others) (hwords : others.map Token.word = tokens.map Token.word)
    (env : Environment) :
    SameAnswer tokens others (calculate source env) (calculate source' env) := by
  have hread := readExpr_eq_parse h
  have hread' := readExpr_eq_parse h'
  rcases Expr.parse_of_words hwords (hasEnd_of_tokenize h) (hasEnd_of_tokenize h') with
    ⟨tree, hparse, hparse'⟩ | ⟨i, t, u, cause, ht, hu, hposition, hparse, hparse'⟩
  · rw [hparse] at hread
    rw [hparse'] at hread'
    rw [calculate_eq_eval hread, calculate_eq_eval hread']
    cases tree.eval env with
    | ok x => exact .value x
    | error cause => exact .fault cause
  · rw [hparse] at hread
    rw [hparse'] at hread'
    rw [calculate, calculate, hread, hread']
    exact .refused ht hu hposition

/-- The blanks between the tokens of a source and the letter case of functions and constants make no
difference: if a source is laid out anew, with blanks in front, then it is scanned into the same words
and has the same answers in every environment. -/
theorem calculate_relaid {source source' : String} {blanks text : List Char}
    (h : tokenize source = .ok tokens) (hsource' : source'.toList = blanks ++ text)
    (hblanks : ∀ c ∈ blanks, isBlank c) (htext : Relaid source.toList (Expr.body tokens) text) :
    ∃ others, tokenize source' = .ok others ∧ others.map Token.word = tokens.map Token.word ∧
      ∀ env, SameAnswer tokens others (calculate source env) (calculate source' env) := by
  obtain ⟨answer, hmunch⟩ := exists_munch 0 source.toList
  cases hmunch.tokenize_eq.symm.trans h
  have hrelaid : Relaid ([] ++ source.toList) (Expr.body tokens) text := htext
  obtain ⟨others, hothers, hwords⟩ := hmunch.relaid rfl hrelaid (0 + blanks.length)
  have hmunch' := separates_blanks hblanks text _ hothers
  rw [← hsource'] at hmunch'
  have htokens : tokenize source' = .ok others := hmunch'.tokenize_eq
  exact ⟨others, htokens, hwords, sameAnswer_of_words h htokens hwords⟩

/-- The source `SIN 0` lacks a parenthesis, and so does ` sin` with a tab and `0` behind it. -/
theorem calculate_relaid_sine :
    tokenize "SIN 0" =
        .ok [⟨.function, "sin", ⟨0, 3⟩⟩, ⟨.number, "0", ⟨4, 5⟩⟩, .endAt 5] ∧
      ∃ others, tokenize " sin\t0" = .ok others ∧
        others.map Token.word = [(.function, "sin"), (.number, "0"), (.eof, "")] ∧
        ∀ env, SameAnswer [⟨.function, "sin", ⟨0, 3⟩⟩, ⟨.number, "0", ⟨4, 5⟩⟩, .endAt 5] others
          (calculate "SIN 0" env) (calculate " sin\t0" env) := by
  have htokens : tokenize "SIN 0" =
      .ok [⟨.function, "sin", ⟨0, 3⟩⟩, ⟨.number, "0", ⟨4, 5⟩⟩, .endAt 5] := by
    apply eq_ok_of_toOption
    decide +kernel
  have hsource : " sin\t0".toList =
      [' '] ++ (['s', 'i', 'n'] ++ (['\t'] ++ (['0'] ++ ([] ++ [])))) := by decide
  have hlast : Relaid "SIN 0".toList [⟨.number, "0", ⟨4, 5⟩⟩] (['0'] ++ ([] ++ [])) :=
    .cons ⟨by decide, by decide⟩ (by simp) nofun .nil
  have hrelaid : Relaid "SIN 0".toList [⟨.function, "sin", ⟨0, 3⟩⟩, ⟨.number, "0", ⟨4, 5⟩⟩]
      (['s', 'i', 'n'] ++ (['\t'] ++ (['0'] ++ ([] ++ [])))) :=
    .cons ⟨by decide, by decide⟩ (by simp; decide) (fun _ _ _ => nofun) hlast
  have hblank : ∀ c ∈ [' '], isBlank c := by simp; decide
  exact ⟨htokens, calculate_relaid htokens hsource hblank hrelaid⟩

end Answers

end Reckon
