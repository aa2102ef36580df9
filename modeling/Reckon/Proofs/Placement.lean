import Reckon.Calculation
import Reckon.Proofs.Splicing
import Reckon.Proofs.ViablePrefix

/-!
# Where errors are

The parser carries the spans of its tokens along and asks for one only to say where an error is. With
other spans it does the same: it reads the same trees and fails at the same tokens, and the position
of a failure is that of its token, or of the end of the tokens.

A token of a source is placed where its text begins, and an error of the scanner where the text
begins that is no token. So whatever a calculation complains about, it points at a character that is
not blank, or at the end of the source.
-/
namespace Reckon
open Text

section Spans
variable {g : Span → Span}

def Token.respan (g : Span → Span) (t : Token) : Token := { t with span := g t.span }

/-- The same place among the tokens, with other spans. -/
def Cursor.respan (g : Span → Span) (c : Cursor) : Cursor :=
  ⟨c.passed.map (Token.respan g), c.ahead.map (Token.respan g), c.depth⟩

def ParseError.placedAt (err : ParseError) (position : Nat) : ParseError :=
  match err with
  | unexpectedToken found lexeme _ => unexpectedToken found lexeme position
  | unexpectedEnd _ => unexpectedEnd position
  | trailingInput found lexeme _ => trailingInput found lexeme position
  | nestingTooDeep limit _ => nestingTooDeep limit position
  | unreadableNumber lexeme _ => unreadableNumber lexeme position

namespace Cursor
variable {c c' : Cursor} {ts : List Token}

@[simp] theorem kind_respan (c : Cursor) : (c.respan g).kind = c.kind := by
  obtain ⟨p, _ | ⟨t, ts⟩, d⟩ := c <;> rfl

@[simp] theorem operator?_respan (ops : List String) (c : Cursor) :
    (c.respan g).operator? ops = c.operator? ops := by
  obtain ⟨p, _ | ⟨t, ts⟩, d⟩ := c <;> rfl

theorem starts_respan :
    (∀ t ∈ (c.respan g).current?, ¬ t.StartsFactor) ↔ ∀ t ∈ c.current?, ¬ t.StartsFactor := by
  obtain ⟨p, _ | ⟨t, ts⟩, d⟩ := c
  · exact ⟨fun _ => nofun, fun _ => nofun⟩
  · simp only [respan, current?, List.map_cons, List.head?_cons, Option.mem_some_iff, forall_eq']
    rfl

/-- The number of the token that is looked at; behind all tokens, of the last one. -/
def index (c : Cursor) : Nat :=
  match c.ahead with
  | _ :: _ => c.passed.length
  | [] => c.passed.length - 1

theorem index_respan (c : Cursor) : (c.respan g).index = c.index := by
  obtain ⟨p, _ | ⟨t, ts⟩, d⟩ := c <;> simp [index, respan]

/-- Where the last token takes no room, the position is that of the token looked at. -/
theorem exists_getElem?_index {t : Token} (h : c.tokens = ts ++ [t])
    (ht : t.span.start = t.span.stop) :
    ∃ u, c.tokens[c.index]? = some u ∧ c.position = u.span.start := by
  obtain ⟨p, _ | ⟨u, us⟩, d⟩ := c
  · have hpassed : p = t :: ts.reverse := by simpa [tokens, List.reverse_eq_iff] using h
    refine ⟨t, ?_, ?_⟩
    · rw [h]
      simp [index, hpassed]
    · rw [hpassed]
      exact ht.symm
  · exact ⟨u, by simp [tokens, index], rfl⟩

theorem position_unexpected (c : Cursor) : c.unexpected.position = c.position := by
  obtain ⟨p, _ | ⟨t, ts⟩, d⟩ := c
  · rfl
  · by_cases ht : t.kind = .eof <;> simp [unexpected, position, ParseError.position, ht]

theorem unexpected_respan (c : Cursor) :
    (c.respan g).unexpected = c.unexpected.placedAt (c.respan g).position := by
  obtain ⟨p, _ | ⟨t, ts⟩, d⟩ := c
  · rfl
  · by_cases ht : t.kind = .eof <;>
      simp [unexpected, respan, position, Token.respan, ParseError.placedAt, ht]

theorem tokens_advanced (p ts : List Token) (t : Token) (d d' : Nat) :
    tokens ⟨t :: p, ts, d'⟩ = tokens ⟨p, t :: ts, d⟩ := by
  simp [tokens]

theorem tokens_advanced₂ (p ts : List Token) (t u : Token) (d d' : Nat) :
    tokens ⟨u :: t :: p, ts, d'⟩ = tokens ⟨p, t :: u :: ts, d⟩ := by
  simp [tokens]

end Cursor

theorem Reads.respan {task : Task} {c c' : Cursor} {e : Expr} (h : Reads task c e c')
    (g : Span → Span) : Reads task (c.respan g) e (c'.respan g) := by
  induction h with
  | number hk hx => exact .number hk hx
  | constant hk hx => exact .constant hk hx
  | negation hk _ ih => exact .negation hk ih
  | grouping hl _ hr ih => exact .grouping hl ih hr
  | call hf hl _ _ ih ih' => exact .call hf hl ih ih'
  | argument hk _ _ ih ih' => exact .argument hk ih ih'
  | close hk => exact .close hk
  | ofNumber hk _ ih => exact .ofNumber ((Cursor.kind_respan _).trans hk) ih
  | ofConstant hk _ ih => exact .ofConstant ((Cursor.kind_respan _).trans hk) ih
  | name hk => exact .name hk
  | @enclosed p ts d t task e c ht hd _ ih => exact .enclosed (c := c.respan g) ht hd ih
  | base _ hop ih => exact .base ih ((Cursor.operator?_respan _ _).trans hop)
  | raised _ ht hd _ ih ih' => exact .raised ih ht hd ih'
  | term _ ih => exact .term ih
  | ofPower _ ih => exact .ofPower ih
  | chain _ _ ih ih' => exact .chain ih ih'
  | done hop => exact .done ((Cursor.operator?_respan _ _).trans hop)
  | link ht hd _ _ ih ih' => exact .link ht hd ih ih'

/-- The failure is found at a place among the tokens, and with other spans it is found there too. -/
def Fails.Placed (task : Task) (c : Cursor) (err : ParseError) (c' : Cursor) : Prop :=
  ∃ spot : Cursor, spot.tokens = c.tokens ∧ err.position = spot.position ∧
    ∀ g : Span → Span,
      Fails task (c.respan g) (err.placedAt (spot.respan g).position) (c'.respan g)

namespace Fails
variable {task task' : Task} {c c' c₁ c₁' : Cursor} {err : ParseError}

theorem Placed.unexpected (spot : Cursor) (htokens : spot.tokens = c.tokens)
    (h : ∀ g : Span → Span, Fails task (c.respan g) (spot.respan g).unexpected (c'.respan g)) :
    Placed task c spot.unexpected c' := by
  refine ⟨spot, htokens, spot.position_unexpected, ?_⟩
  intro g
  rw [← Cursor.unexpected_respan]
  exact h g

theorem Placed.imp (h : Placed task' c₁ err c₁') (htokens : c₁.tokens = c.tokens)
    (himp : ∀ (g : Span → Span) (err : ParseError),
      Fails task' (c₁.respan g) err (c₁'.respan g) → Fails task (c.respan g) err (c'.respan g)) :
    Placed task c err c' := by
  obtain ⟨spot, hspot, hposition, hrespan⟩ := h
  refine ⟨spot, hspot.trans htokens, hposition, ?_⟩
  intro g
  exact himp g _ (hrespan g)

/-- A failure does not depend on the spans, but for the position of its error. -/
theorem placed (h : Fails task c err c') : Placed task c err c' := by
  induction h with
  | @ended task c htask hk =>
    exact ⟨c, rfl, rfl, fun g => .ended htask ((Cursor.kind_respan c).trans hk)⟩
  | unreadable hk hx => exact ⟨_, rfl, rfl, fun g => .unreadable hk hx⟩
  | unknown hk hx => exact .unexpected _ rfl fun g => .unknown hk hx
  | negation hk _ ih => exact ih.imp (Cursor.tokens_advanced ..) fun g err hf => .negation hk hf
  | @unopened c hk =>
    exact .unexpected c rfl fun g => .unopened (by rwa [Cursor.kind_respan])
  | grouping hl _ ih => exact ih.imp (Cursor.tokens_advanced ..) fun g err hf => .grouping hl hf
  | @unclosed p ts d l e c hl hr hk =>
    have htokens := hr.tokens_eq.trans (Cursor.tokens_advanced p ts l d d)
    exact .unexpected _ htokens fun g =>
      .unclosed hl (hr.respan g) (by rwa [Cursor.kind_respan])
  | @unnamed c hk => exact .unexpected c rfl fun g => .unnamed (by rwa [Cursor.kind_respan])
  | @bare p ts d f hf hk =>
    have hkind (g : Span → Span) : (Cursor.respan g ⟨f :: p, ts, d⟩).kind ≠ .lparen := by
      rwa [Cursor.kind_respan]
    exact .unexpected _ (Cursor.tokens_advanced ..) fun g => .bare hf (hkind g)
  | first hf hl _ ih =>
    exact ih.imp (Cursor.tokens_advanced₂ ..) fun g err hfail => .first hf hl hfail
  | call hf hl hr _ ih =>
    exact ih.imp (hr.tokens_eq.trans (Cursor.tokens_advanced₂ ..)) fun g err hfail =>
      .call hf hl (hr.respan g) hfail
  | argument hk _ ih => exact ih.imp (Cursor.tokens_advanced ..) fun g err hf => .argument hk hf
  | arguments hk hr _ ih =>
    exact ih.imp (hr.tokens_eq.trans (Cursor.tokens_advanced ..)) fun g err hf =>
      .arguments hk (hr.respan g) hf
  | @unfinished name args c hcomma hk =>
    exact .unexpected c rfl fun g =>
      .unfinished (by rwa [Cursor.kind_respan]) (by rwa [Cursor.kind_respan])
  | ofNumber hk _ ih =>
    exact ih.imp rfl fun g err hf => .ofNumber ((Cursor.kind_respan _).trans hk) hf
  | ofConstant hk _ ih =>
    exact ih.imp rfl fun g err hf => .ofConstant ((Cursor.kind_respan _).trans hk) hf
  | @noFactor c hstarts =>
    exact .unexpected c rfl fun g => .noFactor (Cursor.starts_respan.mpr hstarts)
  | full ht hd => exact ⟨_, rfl, rfl, fun g => .full ht hd⟩
  | @enclosed p ts d t task err c ht hd _ ih =>
    exact ih.imp rfl fun g err hf => .enclosed (c := c.respan g) ht hd hf
  | base _ ih => exact ih.imp rfl fun g err hf => .base hf
  | @powerFull p ts d t base c hr ht hd =>
    have htokens := (Cursor.tokens_advanced p ts t d d).trans hr.tokens_eq
    exact ⟨⟨t :: p, ts, d⟩, htokens, rfl, fun g => .powerFull (hr.respan g) ht hd⟩
  | exponent hr ht hd _ ih =>
    exact ih.imp ((Cursor.tokens_advanced ..).trans hr.tokens_eq) fun g err hf =>
      .exponent (hr.respan g) ht hd hf
  | term _ ih => exact ih.imp rfl fun g err hf => .term hf
  | ofPower _ ih => exact ih.imp rfl fun g err hf => .ofPower hf
  | chain _ ih => exact ih.imp rfl fun g err hf => .chain hf
  | links hr _ ih => exact ih.imp hr.tokens_eq fun g err hf => .links (hr.respan g) hf
  | linkFull ht hd => exact ⟨_, rfl, rfl, fun g => .linkFull ht hd⟩
  | operand ht hd _ ih => exact ih.imp (Cursor.tokens_advanced ..) fun g err hf => .operand ht hd hf
  | link ht hd hr _ ih =>
    exact ih.imp (hr.tokens_eq.trans (Cursor.tokens_advanced ..)) fun g err hf =>
      .link ht hd (hr.respan g) hf

end Fails

namespace Expr
variable {tokens : List Token} {tree : Expr} {err : ParseError}

theorem parse_respan (h : Expr.parse tokens = .ok tree) (g : Span → Span) :
    Expr.parse (tokens.map (Token.respan g)) = .ok tree := by
  obtain ⟨after, hr, hend⟩ := parse_eq_ok_iff_reads.mp h
  refine parse_eq_ok_iff_reads.mpr ⟨after.respan g, hr.respan g, ?_⟩
  obtain ⟨p, _ | ⟨t, ts⟩, d⟩ := after
  · exact hend
  · intro u hu
    cases hu
    exact hend t rfl

/-- Where some tokens are refused does not depend on their spans, and its position is read from
them. -/
theorem placed_of_parse_error (h : Expr.parse tokens = .error err) :
    ∃ spot : Cursor, spot.tokens = tokens ∧ err.position = spot.position ∧
      ∀ g : Span → Span, Expr.parse (tokens.map (Token.respan g)) =
        .error (err.placedAt (spot.respan g).position) := by
  rcases cases_of_parse_error h with ⟨c, hf⟩ | ⟨tree, p, t, after, d, hr, ht, rfl⟩
  · obtain ⟨spot, htokens, hposition, hrespan⟩ := hf.placed
    exact ⟨spot, htokens, hposition, fun g => parse_of_fails (hrespan g)⟩
  · refine ⟨⟨p, t :: after, d⟩, hr.tokens_eq, rfl, ?_⟩
    intro g
    exact parse_of_trailing (hr.respan g) ht

end Expr

end Spans

section Positions
variable {source before text : List Char} {p position : Nat} {tokens : List Token}
  {answer : Except LexError (List Token)}

/-- At the position is a character that is not blank, or the end of the source. -/
structure Points (source : List Char) (position : Nat) : Prop where
  le_length : position ≤ source.length
  not_blank : ∀ c ∈ source[position]?, ¬ isBlank c

theorem points_end (source : List Char) : Points source source.length := by
  refine ⟨Nat.le_refl _, ?_⟩
  intro c hc
  rw [List.getElem?_eq_none (Nat.le_refl _)] at hc
  cases hc

theorem points_char {c : Char} (hc : ¬ isBlank c) : Points (before ++ c :: text) before.length := by
  refine ⟨by simp, ?_⟩
  intro d hd
  rw [List.getElem?_append_right (Nat.le_refl _), Nat.sub_self] at hd
  cases hd
  exact hc

def scanPositions : Except LexError (List Token) → List Nat
  | .ok tokens => tokens.map (·.span.start)
  | .error cause => [cause.position]

theorem mem_scanPositions_map {t : Token}
    (h : position ∈ scanPositions (answer.map (t :: ·))) :
    position = t.span.start ∨ position ∈ scanPositions answer := by
  cases answer with
  | error cause => exact .inr h
  | ok tokens => exact List.mem_cons.mp h

theorem Language.Takes.points {l : Language} {run rest : List Char} (h : l.Takes run rest) :
    Points (before ++ (run ++ rest)) before.length := by
  obtain ⟨c, hc, hblank, -⟩ := h.start
  obtain ⟨run, rfl⟩ : ∃ more, run = c :: more := List.head?_eq_some_iff.mp hc
  exact points_char hblank

theorem Munch.points (h : Munch p text answer) (hbefore : before.length = p) :
    ∀ position ∈ scanPositions answer, Points (before ++ text) position := by
  induction h generalizing before with
  | done =>
    intro position hposition
    cases List.mem_singleton.mp hposition
    rw [← hbefore, List.append_nil]
    exact points_end before
  | @blank p c text answer _ _ ih =>
    rw [List.append_cons]
    exact ih (by simp [hbefore])
  | unexpected hblank _ =>
    intro position hposition
    cases List.mem_singleton.mp hposition
    rw [LexError.position, ← hbefore]
    exact points_char hblank
  | tooLong htakes _ | unfinished htakes _ _ =>
    intro position hposition
    cases List.mem_singleton.mp hposition
    rw [LexError.position, ← hbefore]
    exact htakes.points
  | @token p l run rest answer htakes _ _ _ ih =>
    intro position hposition
    rcases mem_scanPositions_map hposition with rfl | hrest
    · obtain ⟨kind, lexeme, -, htoken⟩ := htakes.has.exists_token_eq
      rw [htoken, ← hbefore]
      exact htakes.points
    · rw [← List.append_assoc]
      exact ih (by simp [hbefore]) position hrest

/-- The list has the end of the source for its last token. -/
def HasEnd (tokens : List Token) : Prop := ∃ ts n, tokens = ts ++ [.endAt n]

/-- The last token stands for the end of the source, and no other does. -/
theorem Munch.tokens_eq (h : Munch p text (.ok tokens)) :
    tokens = Expr.body tokens ++ [.endAt (p + text.length)] := by
  induction h using Munch.ok_induction with
  | done p => simp [Expr.body, Token.endAt]
  | blank p c text tokens _ _ ih => rwa [List.length_cons, Nat.add_comm text.length, ← Nat.add_assoc]
  | token p l run rest tokens htakes _ _ _ ih =>
    rw [htakes.has.body_token, List.length_append, ← Nat.add_assoc, List.cons_append, ← ih]

theorem Munch.hasEnd (h : Munch p text (.ok tokens)) : HasEnd tokens := ⟨_, _, h.tokens_eq⟩

theorem hasEnd_of_tokenize {source : String} (h : tokenize source = .ok tokens) : HasEnd tokens :=
  (munch_of_tokenize h).hasEnd

theorem points_of_tokenize (source : String) :
    ∀ position ∈ scanPositions (tokenize source), Points source.toList position := by
  have hpoints : ∀ position ∈ scanPositions (tokenize source),
      Points ([] ++ source.toList) position := (munch_of_tokenize rfl).points rfl
  exact hpoints

/-- Whatever a calculation complains about, it points at a character that is not blank or at the end
of the source. -/
theorem points_of_calculate {source : String} {env : Environment} {err : Error}
    (h : calculate source env = .error err) :
    ∀ position ∈ err.position?, Points source.toList position := by
  have hpoints := points_of_tokenize source
  rcases calculate_eq_error_iff.mp h with ⟨cause, hlex, rfl⟩ | ⟨tokens, cause, htokens, hparse, rfl⟩ |
    ⟨tokens, tree, cause, -, -, -, rfl⟩
  · rw [hlex] at hpoints
    rintro position ⟨⟩
    exact hpoints _ List.mem_cons_self
  · rw [htokens] at hpoints
    obtain ⟨spot, hspot, hposition, -⟩ := Expr.placed_of_parse_error hparse
    obtain ⟨ts, n, hend⟩ := hasEnd_of_tokenize htokens
    obtain ⟨t, ht, hstart⟩ := Cursor.exists_getElem?_index (hspot.trans hend) rfl
    rintro position ⟨⟩
    apply hpoints
    rw [hposition, hstart]
    exact List.mem_map_of_mem (hspot ▸ List.mem_of_getElem? ht)
  · exact nofun

end Positions

end Reckon
