import Reckon.Proofs.Levels
import Reckon.Proofs.ViablePrefix

/-!
# The end of the source

The scanner puts one token for the end of the source behind all others. A parser may be given tokens
where that token is missing, stands too early, or stands there twice, and then it goes by the first
one, or by the end of the last token. All that it learns from either is a position: it reads the
tokens in front of the end in the same way, and complains of the same fault at the same place, as if
one token for the end stood behind them there.

A reading never goes past the end, so what it sees in any place is the token there or the fact that
nothing comes any more, and both are the same with one token for the end put in.
-/
namespace Reckon

theorem Cursor.position_of_nil (p : List Token) (d : Nat) :
    position ⟨p, [], d⟩ = (p.head?.map (·.span.stop)).getD 0 := by
  cases p <;> rfl

namespace Expr

/-- Where the source ends: where the first token that stands for its end starts or, without one, where
the last token stops. -/
def endPosition (tokens : List Token) : Nat :=
  match tokens.find? (·.kind = .eof) with
  | some t => t.span.start
  | none => (tokens.getLast?.map (·.span.stop)).getD 0

/-- The tokens in front of the end of the source, and one token for the end. -/
def terminated (tokens : List Token) : List Token :=
  body tokens ++ [.endAt (endPosition tokens)]

variable {tokens us : List Token} {c : Cursor}

theorem body_eq_of_passes (h : (Cursor.ofTokens tokens).Passes us c) (hclear : Clear us) :
    body tokens = us ++ body c.ahead := by
  have htokens : tokens = us ++ c.ahead := h.ahead
  rw [htokens, body_append_of_ne_eof hclear]

theorem endPosition_of_passes (h : (Cursor.ofTokens tokens).Passes us c) (hclear : Clear us)
    (hkind : c.kind = .eof) : endPosition tokens = c.position := by
  have htokens : tokens = us ++ c.ahead := h.ahead
  have hnone : us.find? (·.kind = .eof) = none := by simpa [Clear] using hclear
  rw [endPosition, htokens, List.find?_append, hnone, Option.none_or]
  obtain ⟨p, _ | ⟨t, ts⟩, d⟩ := c
  · have hlast : us.getLast? = p.head? := by
      rw [passed_of_passes h]
      exact List.getLast?_reverse
    rw [Cursor.position_of_nil, ← hlast]
    simp
  · have ht : t.kind = .eof := hkind
    simp [ht, Cursor.position]

/-- With one token for the end of the source put in, the same is seen. -/
theorem view_terminated (h : (Cursor.ofTokens tokens).Passes us c) (hclear : Clear us) :
    (c.facing (body c.ahead ++ [.endAt (endPosition tokens)])).view = c.view := by
  by_cases hkind : c.kind = .eof
  · rw [endPosition_of_passes h hclear hkind]
    obtain ⟨p, _ | ⟨t, ts⟩, d⟩ := c
    · rfl
    · have ht : t.kind = .eof := hkind
      simp [Cursor.view, Cursor.facing, Cursor.position, body, Token.endAt, ht]
  · obtain ⟨p, _ | ⟨t, ts⟩, d⟩ := c
    · exact absurd rfl hkind
    · have ht : t.kind ≠ .eof := hkind
      simp [Cursor.view, Cursor.facing, Cursor.position, body, ht]

/-- What holds from the first token on to some place holds with one token for the end of the source
put in. -/
theorem local_terminated {P : Cursor → Cursor → Prop} (h : Cursor.Local P (.ofTokens tokens) c)
    (hclear : Clear c.passed) :
    P (.ofTokens (terminated tokens))
      (c.facing (body c.ahead ++ [.endAt (endPosition tokens)])) := by
  obtain ⟨us, hpasses, hlocal⟩ := h
  have hus : Clear us := by
    rw [passed_of_passes hpasses]
    exact fun t ht => hclear t (List.mem_reverse.mp ht)
  have hterminated := hlocal _ (view_terminated hpasses hus)
  rwa [← List.append_assoc, ← body_eq_of_passes hpasses hus] at hterminated

theorem ended_body_append {rest : List Token} (h : Ended rest) (position : Nat) :
    Ended (body rest ++ [.endAt position]) := by
  rw [h.body_eq]
  simp [Ended, Token.endAt]

theorem parse_eq_parse_terminated (tokens : List Token) :
    Expr.parse tokens = Expr.parse (terminated tokens) := by
  have hclear : Clear (Cursor.ofTokens tokens).passed := nofun
  cases h : Expr.parse tokens with
  | ok tree =>
    obtain ⟨after, hr, hend⟩ := parse_eq_ok_iff_reads.mp h
    have hterminated := local_terminated hr.isLocal (hr.clear hclear)
    exact (parse_eq_ok_iff_reads.mpr ⟨_, hterminated, ended_body_append hend _⟩).symm
  | error err =>
    rcases cases_of_parse_error h with ⟨c, hf⟩ | ⟨tree, p, t, after, d, hr, ht, rfl⟩
    · exact (parse_of_fails (local_terminated hf.isLocal (hf.clear hclear))).symm
    · have hterminated := local_terminated hr.isLocal (hr.clear hclear)
      rw [body_cons ht] at hterminated
      exact (parse_of_trailing hterminated ht).symm

/-- Tokens are parsed as those in front of the end of the source with one token for the end behind
them. So nothing behind the end makes a difference, and of the end only where it is. -/
theorem parse_terminated (tokens : List Token) :
    Expr.parse tokens = Expr.parse (body tokens ++ [.endAt (endPosition tokens)]) ∧
      ∀ others, body others = body tokens → endPosition others = endPosition tokens →
        Expr.parse others = Expr.parse tokens := by
  refine ⟨parse_eq_parse_terminated tokens, ?_⟩
  intro others hbody hposition
  rw [parse_eq_parse_terminated others, parse_eq_parse_terminated tokens, terminated, terminated,
    hbody, hposition]

/-- The tokens of `(1`, with none for the end. -/
def openGroup : List Token := [⟨.lparen, "(", ⟨0, 1⟩⟩, ⟨.number, "1", ⟨1, 2⟩⟩]

/-- A parenthesis behind the end does not close the group: with it or without any end, something is
missed at the same position. -/
theorem parse_terminated_open_group :
    Expr.parse openGroup = .error (.unexpectedEnd 2) ∧
      Expr.parse (openGroup ++ [⟨.eof, "end", ⟨2, 9⟩⟩, ⟨.rparen, ")", ⟨9, 10⟩⟩]) =
        .error (.unexpectedEnd 2) := by
  have hopen : Expr.parse openGroup = .error (.unexpectedEnd 2) := by
    apply eq_error_of_check
    decide +kernel
  exact ⟨hopen, ((parse_terminated openGroup).2 _ (by decide) (by decide)).trans hopen⟩

end Expr

end Reckon
