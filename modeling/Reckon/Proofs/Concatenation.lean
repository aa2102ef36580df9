import Reckon.Proofs.Layout

/-!
# Sources put together

A source in front of another one is scanned as it is alone, and the other one as it is alone, further
on by the length of the first, unless the last token of the first goes on into the second. It can do so
only where it ends with its source, and does so only if some class accepts its text with the next
character.

A scan that fails at a character that no token begins with, or in a token that is too long, has failed
whatever follows: more characters cannot make the one begin a token nor the other shorter. Only a token
that lacks the digits behind its point may be mended by what follows.
-/
namespace Reckon
open Text TokenClass

def Token.shift (n : Nat) (t : Token) : Token := t.respan fun s => ⟨s.start + n, s.stop + n⟩

def LexError.shift (n : Nat) : LexError → LexError
  | unexpectedCharacter c position => unexpectedCharacter c (position + n)
  | invalidToken lexeme position => invalidToken lexeme (position + n)
  | tokenTooLong limit position => tokenTooLong limit (position + n)

/-- The tokens of a source or the failure, this many characters further on. -/
def shiftAnswer (n : Nat) (answer : Except LexError (List Token)) : Except LexError (List Token) :=
  (answer.mapError (LexError.shift n)).map (List.map (Token.shift n))

/-- The text of the last token of a source, if the token ends where the source does. -/
def lastText (source : List Char) (tokens : List Token) : List Char :=
  match (Expr.body tokens).getLast? with
  | some t =>
    if t.span.stop = source.length then source.extract t.span.start t.span.stop else []
  | none => []

/-- The scan has failed, and not for want of the digits behind a point. -/
def Settled : Except LexError (List Token) → Prop
  | .error (.unexpectedCharacter ..) | .error (.tokenTooLong ..) => True
  | .error (.invalidToken ..) | .ok _ => False

section Scanning
variable {p : Nat} {text rest : List Char} {answer : Except LexError (List Token)}
  {tokens : List Token}

theorem Language.Has.shift_token {l : Language} {run : List Char} (h : l.Has run) (p n : Nat) :
    (l.token run p).shift n = l.token run (p + n) := by
  obtain ⟨kind, lexeme, -, htoken⟩ := h.exists_token_eq
  rw [htoken, htoken, Token.shift, Token.respan, Nat.add_right_comm]

theorem Munch.shift (h : Munch p text answer) (n : Nat) :
    Munch (p + n) text (shiftAnswer n answer) := by
  induction h with
  | done => exact .done
  | blank hblank _ ih =>
    rw [Nat.add_right_comm] at ih
    exact .blank hblank ih
  | unexpected hblank hstart => exact .unexpected hblank hstart
  | tooLong htakes hlength => exact .tooLong htakes hlength
  | unfinished htakes hlength hlast => exact .unfinished htakes hlength hlast
  | @token p l run rest answer htakes hlength hlast _ ih =>
    rw [Nat.add_right_comm] at ih
    have hmunch := Munch.token htakes hlength hlast ih
    rw [← htakes.has.shift_token p n] at hmunch
    cases answer <;> exact hmunch

theorem Munch.answer_of_nil (h : Munch p [] answer) : answer = .ok [.endAt p] := by
  generalize htext : [] = text at h
  cases h with
  | done => rfl
  | blank | unexpected => cases htext
  | tooLong htakes _ | unfinished htakes _ _ | token htakes _ _ _ =>
    exact absurd (List.append_eq_nil_iff.mp htext.symm).1 htakes.has.ne_nil

/-- A text is scanned on its own and what follows it on its own, if the run that the text ends with
does not go on. -/
theorem Munch.append (h : Munch p text (.ok tokens))
    (hstop : ∀ before l run ts, text = before ++ run → Language.Has l run →
      Expr.body tokens = ts ++ [l.token run (p + before.length)] →
      ∀ c ∈ rest.head?, ¬ l.Has (run ++ [c]))
    (hrest : Munch (p + text.length) rest answer) :
    Munch p (text ++ rest) (answer.map (Expr.body tokens ++ ·)) := by
  induction h using Munch.ok_induction with
  | done p => cases answer <;> exact hrest
  | blank p c text tokens hblank _ ih =>
    rw [List.length_cons, Nat.add_comm text.length, ← Nat.add_assoc] at hrest
    refine .blank hblank (ih ?_ hrest)
    rintro before l run ts rfl hhas hlast
    refine hstop (c :: before) l run ts rfl hhas ?_
    rwa [List.length_cons, Nat.add_comm before.length, ← Nat.add_assoc]
  | token p l run after tokens htakes hlength hlast hafter ih =>
    rw [htakes.has.body_token] at hstop ⊢
    have htakes' : l.Takes run (after ++ rest) := by
      cases after with
      | nil =>
        apply htakes.has.takes
        cases hafter.answer_of_nil
        exact hstop [] l run [] (List.append_nil run) htakes.has rfl
      | cons d after => exact htakes.followed fun c hc => .inl hc
    rw [List.length_append, ← Nat.add_assoc] at hrest
    have hbehind := ih ?_ hrest
    · have hmunch := Munch.token htakes' hlength hlast hbehind
      rw [List.append_assoc]
      cases answer <;> exact hmunch
    · rintro before l' run' ts rfl hhas hlast'
      refine hstop (run ++ before) l' run' (l.token run p :: ts) (by simp) hhas ?_
      rw [hlast', List.length_append, ← Nat.add_assoc, List.cons_append]

/-- A settled failure stays, whatever follows the text. -/
theorem Munch.append_of_settled (h : Munch p text answer) (hsettled : Settled answer)
    (rest : List Char) : Munch p (text ++ rest) answer := by
  induction h with
  | done | unfinished => exact hsettled.elim
  | blank hblank _ ih => exact .blank hblank (ih hsettled)
  | unexpected hblank hstart => exact .unexpected hblank hstart
  | @tooLong p l run after htakes hlength =>
    obtain ⟨more, behind, hmore, hlonger⟩ := Language.exists_takes (after ++ rest) htakes.has
    rw [List.append_assoc, hmore, ← List.append_assoc]
    refine .tooLong hlonger (Nat.lt_of_lt_of_le hlength ?_)
    simp
  | @token p l run after answer htakes hlength hlast hafter ih =>
    have hsettled' : Settled answer := by
      cases answer with
      | error cause => exact hsettled
      | ok tokens => exact hsettled.elim
    rw [List.append_assoc]
    refine .token (htakes.followed ?_) hlength hlast (ih hsettled')
    intro c hc
    cases after with
    | nil =>
      rw [hafter.answer_of_nil] at hsettled'
      exact hsettled'.elim
    | cons d after => exact .inl hc

end Scanning

section Sources
variable {tokens : List Token}

theorem lastText_eq {source before run : List Char} {l : Language} {ts : List Token}
    (hsource : source = before ++ run)
    (hbody : Expr.body tokens = ts ++ [l.token run before.length]) :
    lastText source tokens = run := by
  have hrun := extract_run before run []
  rw [List.append_nil, ← hsource] at hrun
  rw [lastText, hbody, List.getLast?_concat]
  simp only [Language.span_token, hrun]
  rw [if_pos]
  rw [hsource, List.length_append]

theorem tokenize_behind_blanks {blanks source : String} (h : tokenize source = .ok tokens)
    (hblanks : ∀ c ∈ blanks.toList, isBlank c) :
    tokenize (blanks ++ source) = .ok (tokens.map (Token.shift blanks.length)) := by
  have hmunch := (munch_of_tokenize h).shift blanks.toList.length
  have hall := separates_blanks hblanks source.toList _ hmunch
  apply Munch.tokenize_eq
  rwa [String.toList_append, ← String.length_toList]

theorem calculate_behind_blanks {blanks source : String} {env : Environment} {v : Float}
    (h : calculate source env = .ok v) (hblanks : ∀ c ∈ blanks.toList, isBlank c) :
    calculate (blanks ++ source) env = .ok v := by
  obtain ⟨tree, hread, heval⟩ := calculate_eq_ok_iff.mp h
  obtain ⟨tokens, htokens, hparse⟩ := readExpr_eq_ok_iff.mp hread
  have hparse' : Expr.parse (tokens.map (Token.shift blanks.length)) = .ok tree :=
    Expr.parse_respan hparse fun s => ⟨s.start + blanks.length, s.stop + blanks.length⟩
  exact calculate_eq_ok_iff.mpr ⟨tree,
    readExpr_eq_ok_iff.mpr ⟨_, tokenize_behind_blanks htokens hblanks, hparse'⟩, heval⟩

/-- Two sources put together are scanned one after the other, unless the first ends with a token that
goes on into the second. If the first cannot be scanned, then neither can the two, unless a token of
the first lacks its end. -/
theorem tokenize_append (a b : String) :
    (∀ tokens, tokenize a = .ok tokens →
      (lastText a.toList tokens = [] ∨ b = "" ∨
        ∀ x ∈ b.toList.head?,
          isBlank x ∨ accepts all (lastText a.toList tokens ++ [x]) = false) →
      tokenize (a ++ b) =
        (shiftAnswer a.length (tokenize b)).map (Expr.body tokens ++ ·)) ∧
    ∀ cause, tokenize a = .error cause → (∀ lexeme p, cause ≠ .invalidToken lexeme p) →
      tokenize (a ++ b) = .error cause := by
  constructor
  · intro tokens htokens hboundary
    have hmunch : Munch 0 b.toList (tokenize b) := munch_of_tokenize rfl
    have hbehind := hmunch.shift a.length
    apply Munch.tokenize_eq
    rw [String.toList_append]
    refine (munch_of_tokenize htokens).append ?_ (by rwa [String.length_toList])
    intro before l run ts hsource hhas hbody c hc hgrown
    rw [Nat.zero_add] at hbody
    rw [lastText_eq hsource hbody] at hboundary
    rcases hboundary with hempty | rfl | hparted
    · exact hhas.ne_nil hempty
    · cases hc
    · rcases hparted c hc with hblank | hrejected
      · exact hgrown.not_isBlank c (by simp) hblank
      · exact Bool.eq_false_iff.mp hrejected (Language.accepts_iff_has.mpr ⟨l, hgrown⟩)
  · intro cause hcause hmended
    have hsettled : Settled (.error cause) := by
      cases cause with
      | unexpectedCharacter | tokenTooLong => trivial
      | invalidToken lexeme p => exact absurd rfl (hmended lexeme p)
    apply Munch.tokenize_eq
    rw [String.toList_append]
    exact (munch_of_tokenize hcause).append_of_settled hsettled b.toList

/-- The number that `x*2` ends with does not go on into `PI`, and what follows `#` cannot mend it. -/
theorem tokenize_append_double_pi :
    tokenize "x*2" = .ok [⟨.identifier, "x", ⟨0, 1⟩⟩, ⟨.operator, "*", ⟨1, 2⟩⟩,
        ⟨.number, "2", ⟨2, 3⟩⟩, .endAt 3] ∧
      tokenize "PI" = .ok [⟨.constant, "pi", ⟨0, 2⟩⟩, .endAt 2] ∧
      tokenize ("x*2" ++ "PI") = .ok [⟨.identifier, "x", ⟨0, 1⟩⟩, ⟨.operator, "*", ⟨1, 2⟩⟩,
        ⟨.number, "2", ⟨2, 3⟩⟩, ⟨.constant, "pi", ⟨3, 5⟩⟩, .endAt 5] ∧
      tokenize "#" = .error (.unexpectedCharacter '#' 0) ∧
      tokenize ("#" ++ "PI") = .error (.unexpectedCharacter '#' 0) := by
  have hfirst : tokenize "x*2" = .ok [⟨.identifier, "x", ⟨0, 1⟩⟩, ⟨.operator, "*", ⟨1, 2⟩⟩,
      ⟨.number, "2", ⟨2, 3⟩⟩, .endAt 3] := by
    apply eq_ok_of_toOption
    decide +kernel
  have hsecond : tokenize "PI" = .ok [⟨.constant, "pi", ⟨0, 2⟩⟩, .endAt 2] := by
    apply eq_ok_of_toOption
    decide +kernel
  have hfault : tokenize "#" = .error (.unexpectedCharacter '#' 0) := by
    have hmunch : Munch 0 "#".toList (.error (.unexpectedCharacter '#' 0)) :=
      .unexpected (by decide) (by decide)
    exact hmunch.tokenize_eq
  have hletter : ∀ x ∈ "PI".toList.head?, isBlank x ∨ accepts all
      (lastText "x*2".toList [⟨.identifier, "x", ⟨0, 1⟩⟩, ⟨.operator, "*", ⟨1, 2⟩⟩,
        ⟨.number, "2", ⟨2, 3⟩⟩, .endAt 3] ++ [x]) = false := by
    intro x hx
    obtain rfl : 'P' = x := Option.some.inj hx
    exact .inr (by decide +kernel)
  have hboth := (tokenize_append "x*2" "PI").1 _ hfirst (.inr (.inr hletter))
  rw [hsecond] at hboth
  exact ⟨hfirst, hsecond, hboth, hfault, (tokenize_append "#" "PI").2 _ hfault nofun⟩

end Sources

end Reckon
