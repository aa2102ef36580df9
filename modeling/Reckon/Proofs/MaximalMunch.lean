import Reckon.Token.Scanner
import Reckon.Proofs.Lexeme

/-!
# Maximal munch

The tokens of a source by rule: blank characters are passed, and from any other character on the
longest run of its language is taken. A run is first of all short enough; then it may still lack the
digits behind its point; then it is a token.

The scanner knows neither languages nor longest runs. It grows the pending text for as long as the
classes accept it, and so takes the longest run because a language that has a run has everything the
run begins with. A rejected character is looked at again with nothing pending, where it is the first
character of the next run. That the scanner follows the rules is shown along the rules, and that the
rules cover every source along its length.
-/
namespace Reckon
open Text TokenClass

namespace Language

/-- The run is taken from the text of the run and the rest: the language is the one that its first
character decides, and has no longer run that the text begins with. -/
structure Takes (l : Language) (run rest : List Char) : Prop where
  start : ∃ c ∈ run.head?, ¬ isBlank c ∧ ofStart? c = some l
  has : l.Has run
  longest : ∀ longer, longer <+: run ++ rest → l.Has longer → longer.length ≤ run.length

/-- The token of a run that begins at the position. -/
def token (l : Language) (run : List Char) (position : Nat) : Token :=
  let word := String.ofList run
  let span : Span := ⟨position, position + run.length⟩
  if Vocabulary.isFunctionName word then ⟨.function, lower word, span⟩
  else if (Vocabulary.constant? word).isSome then ⟨.constant, lower word, span⟩
  else ⟨l.ownKind, word, span⟩

end Language

/-- The tokens of a text that begins at the position, or the first failure. -/
inductive Munch : Nat → List Char → Except LexError (List Token) → Prop
  | done {p : Nat} : Munch p [] (.ok [.endAt p])
  | blank {p : Nat} {c : Char} {text : List Char} {answer : Except LexError (List Token)} :
      isBlank c → Munch (p + 1) text answer → Munch p (c :: text) answer
  | unexpected {p : Nat} {c : Char} {text : List Char} :
      ¬ isBlank c → Language.ofStart? c = none →
      Munch p (c :: text) (.error (.unexpectedCharacter c p))
  | tooLong {p : Nat} {l : Language} {run rest : List Char} :
      l.Takes run rest → lexemeLimit < run.length →
      Munch p (run ++ rest) (.error (.tokenTooLong lexemeLimit p))
  | unfinished {p : Nat} {l : Language} {run rest : List Char} :
      l.Takes run rest → run.length ≤ lexemeLimit → run.getLast? = some '.' →
      Munch p (run ++ rest) (.error (.invalidToken (String.ofList run) p))
  | token {p : Nat} {l : Language} {run rest : List Char}
      {answer : Except LexError (List Token)} :
      l.Takes run rest → run.length ≤ lexemeLimit → run.getLast? ≠ some '.' →
      Munch (p + run.length) rest answer →
      Munch p (run ++ rest) (answer.map (l.token run p :: ·))

namespace Language
variable {l : Language} {c : Char} {run rest : List Char}

theorem Has.start (h : l.Has run) : ∃ c ∈ run.head?, ¬ isBlank c ∧ ofStart? c = some l := by
  cases run with
  | nil => exact absurd rfl h.ne_nil
  | cons c run => exact ⟨c, rfl, h.not_isBlank c List.mem_cons_self, h.ofStart?_eq⟩

/-- A front of the text ends within the run, or goes on with the character behind it. -/
theorem length_le_or_through {front : List Char} (h : front <+: run ++ rest) :
    front.length ≤ run.length ∨ ∃ c ∈ rest.head?, ∃ more, front = run ++ [c] ++ more := by
  obtain ⟨after, hafter⟩ := h
  rcases List.append_eq_append_iff.mp hafter with ⟨as, hrun, -⟩ | ⟨bs, hfront, hbs⟩
  · left
    rw [hrun, List.length_append]
    omega
  · cases bs with
    | nil => simp [hfront]
    | cons c bs => exact .inr ⟨c, by simp [hbs], bs, by simp [hfront]⟩

theorem Has.takes (h : l.Has run) (hrest : ∀ c ∈ rest.head?, ¬ l.Has (run ++ [c])) :
    l.Takes run rest := by
  refine ⟨h.start, h, ?_⟩
  intro longer hlonger hhas
  rcases length_le_or_through hlonger with hlength | ⟨c, hc, more, rfl⟩
  · exact hlength
  · exact absurd (hhas.init (by simp)) (hrest c hc)

theorem Takes.not_grown (h : l.Takes run (c :: rest)) : ¬ l.Has (run ++ [c]) := by
  intro hgrown
  have hlength := h.longest _ ⟨rest, by simp⟩ hgrown
  rw [List.length_append, List.length_singleton] at hlength
  omega

/-- A run that is taken grows into no run of any language. -/
theorem Takes.accepts_eq_false (h : l.Takes run (c :: rest)) :
    accepts all (run ++ [c]) = false := by
  apply Bool.eq_false_iff.mpr
  intro haccepts
  obtain ⟨l', hgrown⟩ := accepts_iff_has.mp haccepts
  have hsame : l' = l := by
    obtain ⟨d, hd, -, hl⟩ := h.start
    obtain ⟨run', rfl⟩ : ∃ run', run = d :: run' := List.head?_eq_some_iff.mp hd
    exact Option.some.inj (hgrown.ofStart?_eq.symm.trans hl)
  exact h.not_grown (hsame ▸ hgrown)

/-- From a character that decides a language on, some run is taken. -/
theorem exists_takes (rest : List Char) (h : l.Has run) :
    ∃ more after, rest = more ++ after ∧ l.Takes (run ++ more) after := by
  induction rest generalizing run with
  | nil => exact ⟨[], [], rfl, by simpa using h.takes (by simp)⟩
  | cons c rest ih =>
    by_cases hgrown : l.Has (run ++ [c])
    · obtain ⟨more, after, hrest, htakes⟩ := ih hgrown
      exact ⟨c :: more, after, by simp [hrest], by simpa using htakes⟩
    · refine ⟨[], c :: rest, rfl, ?_⟩
      rw [List.append_nil]
      apply h.takes
      intro d hd
      cases hd
      exact hgrown

theorem Has.token_eq (h : l.Has run) (hl : l ≠ .name) (p : Nat) :
    l.token run p = ⟨l.ownKind, String.ofList run, ⟨p, p + run.length⟩⟩ := by
  have hname := h.not_isName hl
  rw [token, if_neg (mt isName_of_isFunctionName hname), if_neg (mt isName_of_constant hname)]

theorem Has.ownKind_ne_word (h : l.Has run) : l.ownKind ≠ .function ∧ l.ownKind ≠ .constant := by
  cases l with
  | numeral => exact ⟨nofun, nofun⟩
  | name => exact ⟨nofun, nofun⟩
  | symbol kind =>
    obtain ⟨c, -, hkind⟩ := h
    exact symbolKind_ne_word hkind

theorem ofLexeme_kind (h : l.Has run) (p : Nat) :
    Token.ofLexeme (l.kind run) run p = l.token run p := by
  have hown := h.ownKind_ne_word
  unfold Token.ofLexeme kind token
  dsimp only
  split
  · simp
  · split
    · simp
    · simp [hown]

end Language

namespace Scanner
variable {l : Language} {s : Scanner} {c : Char} {run rest : List Char}

/-- The tokens that the scan comes to. -/
def finish (s : Scanner) : Except LexError (List Token) := do
  let scanned ← s.run TokenClass.all
  let finished ← scanned.emit TokenClass.all
  return (finished.push (.endAt finished.position)).tokens.toList

theorem finish_of_nil (h : s.rest = []) :
    s.finish = (s.emit TokenClass.all).map fun s => (s.push (.endAt s.position)).tokens.toList := by
  rw [finish, run_of_nil h]
  cases hemit : s.emit TokenClass.all <;> simp [bind, Except.bind, hemit] <;> rfl

theorem finish_of_cons (h : s.rest = c :: rest) :
    s.finish = (s.step TokenClass.all c).bind finish := by
  rw [finish, run_of_cons h]
  cases s.step TokenClass.all c <;> rfl

/-- A pending text that does not grow becomes a token before anything else happens. -/
theorem finish_of_stop (hne : s.pending ≠ [])
    (hstop : ∀ c ∈ s.rest.head?, accepts TokenClass.all (s.pending ++ [c]) = false) :
    s.finish = (s.emit TokenClass.all).bind finish := by
  cases hrest : s.rest with
  | nil =>
    rw [finish_of_nil hrest]
    cases hemit : s.emit TokenClass.all with
    | error e => rfl
    | ok next =>
      obtain ⟨hpending, hnext, -⟩ := emit_eq_ok hemit
      rw [Except.bind, finish_of_nil (hnext.trans hrest), emit_of_isEmpty hpending]
  | cons c rest =>
    rw [finish_of_cons hrest]
    by_cases hblank : isBlank c
    · rw [step_of_isBlank hblank]
      cases hemit : s.emit TokenClass.all with
      | error e => rfl
      | ok next =>
        obtain ⟨hpending, hnext, -⟩ := emit_eq_ok hemit
        rw [Except.bind, finish_of_cons (hnext.trans hrest), step_of_isBlank hblank,
          emit_of_isEmpty hpending]
    · rw [step_of_not_accepts hblank (hstop c (by simp [hrest])), if_neg (by simpa using hne)]

/-- The pending text grows into the run, as far as the limit. -/
theorem finish_of_has (hhas : l.Has (s.pending ++ run)) (hne : s.pending ≠ [])
    (hposition : s.position = s.start + s.pending.length) (hrest : s.rest = run ++ rest)
    (hlength : s.pending.length ≤ lexemeLimit) :
    s.finish =
      if lexemeLimit < (s.pending ++ run).length then .error (.tokenTooLong lexemeLimit s.start)
      else finish { s with
        rest := rest, position := s.position + run.length, pending := s.pending ++ run } := by
  induction run generalizing s with
  | nil =>
    rw [List.append_nil, if_neg (by omega), List.length_nil, Nat.add_zero]
    rw [List.nil_append] at hrest
    rw [← hrest]
  | cons c run ih =>
    rw [List.append_cons] at hhas
    have hgrown : l.Has (s.pending ++ [c]) := hhas.init (by simp)
    have hblank : ¬ isBlank c := hgrown.not_isBlank c (by simp)
    have hstart : (if s.pending.isEmpty then s.position else s.start) = s.start :=
      if_neg (by simpa using hne)
    rw [finish_of_cons hrest, step_of_accepts hblank (Language.accepts_iff_has.mpr ⟨l, hgrown⟩), hstart]
    dsimp only
    by_cases hfull : lexemeLimit ≤ s.position - s.start
    · rw [if_pos hfull, if_pos]
      · rfl
      · rw [List.length_append, List.length_cons]
        omega
    · rw [if_neg hfull, Except.bind, ih]
      · simp only [advance, List.append_assoc, List.singleton_append, List.length_cons,
          Nat.add_assoc, Nat.add_comm 1 run.length]
      · exact hhas
      · simp
      · simp only [advance, List.length_append, List.length_singleton]
        omega
      · simp [advance, hrest]
      · simp only [List.length_append, List.length_singleton]
        omega

theorem emit_of_has (h : l.Has s.pending) :
    s.emit TokenClass.all =
      if s.pending.getLast? = some '.' then
        .error (.invalidToken (String.ofList s.pending) s.start)
      else .ok { s.push (l.token s.pending s.start) with pending := [] } := by
  rw [emit, if_neg (by simpa using h.ne_nil), h.classify_eq]
  by_cases hlast : s.pending.getLast? = some '.'
  · simp only [if_pos hlast]
  · simp only [if_neg hlast, Language.ofLexeme_kind h]

theorem finish_of_takes (h : l.Takes run rest) (hpending : s.pending = [])
    (hrest : s.rest = run ++ rest) :
    s.finish =
      if lexemeLimit < run.length then .error (.tokenTooLong lexemeLimit s.position)
      else if run.getLast? = some '.' then .error (.invalidToken (String.ofList run) s.position)
      else finish ⟨rest, s.position + run.length, [], s.position,
        s.tokens.push (l.token run s.position)⟩ := by
  obtain ⟨c, hc, hblank, hstart⟩ := h.start
  obtain ⟨run, rfl⟩ : ∃ more, run = c :: more := List.head?_eq_some_iff.mp hc
  have haccepts : accepts TokenClass.all (s.pending ++ [c]) := by
    rw [hpending]
    exact Language.accepts_iff_has.mpr ⟨l, Language.has_singleton hstart⟩
  have hfirst : s.finish = finish ⟨run ++ rest, s.position + 1, [c], s.position, s.tokens⟩ := by
    rw [finish_of_cons hrest, step_of_accepts hblank haccepts]
    simp [hpending, lexemeLimit, advance, hrest, Except.bind]
  rw [hfirst, finish_of_has (l := l) h.has (List.cons_ne_nil c []) rfl rfl (by simp [lexemeLimit])]
  by_cases hlong : lexemeLimit < (c :: run).length
  · exact (if_pos hlong).trans (if_pos hlong).symm
  · rw [if_neg hlong]
    refine (if_neg hlong).trans ?_
    rw [finish_of_stop (List.cons_ne_nil c run), emit_of_has (l := l) h.has]
    · by_cases hlast : (c :: run).getLast? = some '.'
      · simp only [List.singleton_append, if_pos hlast, Except.bind]
      · simp only [List.singleton_append, if_neg hlast, Except.bind, push, List.length_cons,
          Nat.add_assoc, Nat.add_comm 1 run.length]
    · intro d hd
      obtain ⟨rest', rfl⟩ : ∃ more, rest = d :: more := List.head?_eq_some_iff.mp hd
      exact h.accepts_eq_false

end Scanner

/-- The scanner follows the rules. -/
theorem Munch.finish_eq {p : Nat} {text : List Char} {answer : Except LexError (List Token)}
    (h : Munch p text answer) {s : Scanner} (hrest : s.rest = text) (hposition : s.position = p)
    (hpending : s.pending = []) : s.finish = answer.map (s.tokens.toList ++ ·) := by
  induction h generalizing s with
  | done =>
    rw [s.finish_of_nil hrest, s.emit_of_isEmpty hpending]
    simp [Except.map, Scanner.push, hposition]
  | blank hblank _ ih =>
    rw [s.finish_of_cons hrest, s.step_of_isBlank hblank, s.emit_of_isEmpty hpending]
    refine ih (s := s.advance) ?_ ?_ hpending
    · simp [Scanner.advance, hrest]
    · simp [Scanner.advance, hposition]
  | @unexpected p c text hblank hstart =>
    have hrejects : accepts TokenClass.all (s.pending ++ [c]) = false := by
      rw [hpending]
      apply Bool.eq_false_iff.mpr
      intro haccepts
      obtain ⟨l, hl⟩ := Language.accepts_iff_has.mp haccepts
      have hdecides := hl.ofStart?_eq
      rw [hstart] at hdecides
      cases hdecides
    rw [s.finish_of_cons hrest, s.step_of_not_accepts hblank hrejects, hpending, hposition]
    rfl
  | tooLong htakes hlength =>
    rw [s.finish_of_takes htakes hpending hrest, if_pos hlength, hposition]
    rfl
  | unfinished htakes hlength hlast =>
    rw [s.finish_of_takes htakes hpending hrest, if_neg (Nat.not_lt.mpr hlength), if_pos hlast,
      hposition]
    rfl
  | @token p l run rest answer htakes hlength hlast _ ih =>
    rw [s.finish_of_takes htakes hpending hrest, if_neg (Nat.not_lt.mpr hlength), if_neg hlast,
      ih rfl (by rw [hposition]) rfl, hposition]
    cases answer <;> simp [Except.map]

theorem exists_munch (p : Nat) (text : List Char) : ∃ answer, Munch p text answer := by
  induction hn : text.length using Nat.strongRecOn generalizing p text with
  | ind n ih =>
    cases text with
    | nil => exact ⟨_, .done⟩
    | cons c text =>
      by_cases hblank : isBlank c
      · obtain ⟨answer, h⟩ := ih text.length (by simp [← hn]) (p + 1) text rfl
        exact ⟨answer, .blank hblank h⟩
      · cases hstart : Language.ofStart? c with
        | none => exact ⟨_, .unexpected hblank hstart⟩
        | some l =>
          obtain ⟨more, rest, rfl, htakes⟩ :=
            Language.exists_takes text (Language.has_singleton hstart)
          rw [← List.singleton_append, ← List.append_assoc]
          by_cases hlong : lexemeLimit < ([c] ++ more).length
          · exact ⟨_, .tooLong htakes hlong⟩
          · by_cases hlast : ([c] ++ more).getLast? = some '.'
            · exact ⟨_, .unfinished htakes (Nat.not_lt.mp hlong) hlast⟩
            · have hlt : rest.length < n := by
                rw [← hn, List.length_cons, List.length_append]
                omega
              obtain ⟨answer, h⟩ := ih rest.length hlt (p + ([c] ++ more).length) rest rfl
              exact ⟨_, .token htakes (Nat.not_lt.mp hlong) hlast h⟩

/-- Induction along the rules by which a text without failures is scanned. -/
@[elab_as_elim]
theorem Munch.ok_induction
    {motive : (p : Nat) → (text : List Char) → (tokens : List Token) →
      Munch p text (.ok tokens) → Prop}
    (done : ∀ p, motive p [] [.endAt p] .done)
    (blank : ∀ p c text tokens (hblank : isBlank c) (hrest : Munch (p + 1) text (.ok tokens)),
      motive (p + 1) text tokens hrest → motive p (c :: text) tokens (.blank hblank hrest))
    (token : ∀ p (l : Language) run rest tokens (htakes : l.Takes run rest)
      (hlength : run.length ≤ lexemeLimit) (hlast : run.getLast? ≠ some '.')
      (hrest : Munch (p + run.length) rest (.ok tokens)),
      motive (p + run.length) rest tokens hrest →
        motive p (run ++ rest) (l.token run p :: tokens) (.token htakes hlength hlast hrest))
    {p : Nat} {text : List Char} {tokens : List Token} (h : Munch p text (.ok tokens)) :
    motive p text tokens h := by
  suffices hall : ∀ answer, Munch p text answer → ∀ tokens (h : Munch p text (.ok tokens)),
      answer = .ok tokens → motive p text tokens h from hall _ h tokens h rfl
  clear h
  intro answer h
  induction h with
  | done =>
    rintro _ - ⟨⟩
    exact done _
  | blank hblank hrest ih =>
    rintro tokens - rfl
    exact blank _ _ _ _ hblank hrest (ih tokens hrest rfl)
  | unexpected | tooLong | unfinished =>
    intro tokens _ hanswer
    cases hanswer
  | @token p l run rest answer htakes hlength hlast hrest ih =>
    intro tokens _ hanswer
    cases answer with
    | error err => cases hanswer
    | ok after =>
      cases hanswer
      exact token _ _ _ _ _ htakes hlength hlast hrest (ih after hrest rfl)

theorem Munch.tokenize_eq {source : String} {answer : Except LexError (List Token)}
    (h : Munch 0 source.toList answer) : tokenize source = answer := by
  have hscan : tokenize source = answer.map ([] ++ ·) :=
    h.finish_eq (s := .ofSource source) rfl rfl rfl
  rw [hscan]
  cases answer <;> rfl

theorem munch_of_tokenize {source : String} {answer : Except LexError (List Token)}
    (h : tokenize source = answer) : Munch 0 source.toList answer := by
  obtain ⟨answer', hmunch⟩ := exists_munch 0 source.toList
  rwa [← h, hmunch.tokenize_eq]

/-- The tokens of a source are those of the rules. -/
theorem tokenize_eq_iff_munch (source : String) (answer : Except LexError (List Token)) :
    tokenize source = answer ↔ Munch 0 source.toList answer := by
  constructor
  · rintro rfl
    obtain ⟨answer, h⟩ := exists_munch 0 source.toList
    rwa [h.tokenize_eq]
  · exact Munch.tokenize_eq

end Reckon
