import Reckon.Proofs.RoundTrip
import Reckon.Proofs.Signs
import Reckon.Proofs.Variables

/-!
# Typing an answer again

The text of a finite number is digits, perhaps with a point, and a minus sign in front if the sign of
the number is set. Typed back, the digits are one token and the minus sign is an operator in front of
it, so the text has the value that it was written for, zero with its sign included, in every
environment. Numbers that are very large or very small have more digits than a token may have, and
their text fails where the digits begin.

The answer to an assignment is again an assignment of the same value. A session that is given its own
answer as a line gives that answer again and stays as it is.
-/
namespace Reckon
open Text Binary64

namespace Text.Number
variable {x : Float}

def withoutSign (text : String) : String :=
  match text.toList with
  | '-' :: digits => String.ofList digits
  | _ => text

theorem Plain.withoutSign_render (h : Plain x) : withoutSign (render x) = render x := by
  obtain ⟨⟨digits, rest, htext, hne, hdigits, -⟩, -⟩ := h.isNumeralStart_render
  unfold withoutSign
  split
  · rename_i hsign
    obtain ⟨c, digits, rfl⟩ := List.exists_cons_of_ne_nil hne
    rw [htext, List.cons_append] at hsign
    cases hsign
    exact absurd (hdigits '-' List.mem_cons_self) (by decide)
  · rfl

theorem plain_of_not_isNegative (h : rank x < infinity) (hsign : ¬ isNegative x) : Plain x :=
  ⟨h, by simpa using hsign⟩

theorem plain_neg (h : rank x < infinity) (hsign : isNegative x) : Plain (-x) := by
  have hle := Nat.le_of_lt h
  exact ⟨(rank_neg hle).trans_lt h, by rw [isNegative_neg hle, hsign, Bool.not_true]⟩

theorem toList_render_of_isNegative (h : rank x < infinity) (hsign : isNegative x) :
    (render x).toList = '-' :: (render (-x)).toList := by
  have hplain := plain_neg h hsign
  have hbelow : ¬ infinity < rank x := by omega
  have hne : rank x ≠ infinity := by omega
  rw [hplain.toList_render, rank_neg (Nat.le_of_lt h)]
  simp [render, magnitude, hbelow, hsign, hne]

theorem withoutSign_render_of_isNegative (h : rank x < infinity) (hsign : isNegative x) :
    withoutSign (render x) = render (-x) := by
  rw [withoutSign, toList_render_of_isNegative h hsign]
  exact String.ofList_toList

theorem toList_withoutSign_render (h : rank x < infinity) :
    (withoutSign (render x)).toList = positional (Decimal.shortest (rank x)) := by
  by_cases hsign : isNegative x
  · rw [withoutSign_render_of_isNegative h hsign, (plain_neg h hsign).toList_render,
      rank_neg (Nat.le_of_lt h)]
  · have hplain := plain_of_not_isNegative h hsign
    rw [hplain.withoutSign_render, hplain.toList_render]

end Text.Number

open Text.Number

section Values
variable {x : Float}

/-- The expression that the text of a number spells. -/
def Expr.ofValue (x : Float) : Expr :=
  if isNegative x then .unary "-" (.number (-x)) else .number x

theorem Expr.eval_ofValue (h : rank x < infinity) (env : Environment) :
    (Expr.ofValue x).eval env = .ok x := by
  unfold ofValue
  split
  · have hneg : applyUnary "-" (-x) = .ok (- -x) := rfl
    rw [neg_neg_eq_self (Nat.le_of_lt h)] at hneg
    rw [eval, eval]
    exact hneg
  · rfl

theorem Text.Number.Plain.written_render (h : Plain x) (hlength : (render x).length ≤ lexemeLimit) :
    (Phrase.factor (.number x)).Written (render x).toList 0 := by
  have hprintable : Expr.Printable (.number x) := .number h hlength
  have hwritten := hprintable.written
  rwa [Expr.render, Expr.need] at hwritten

/-- The text of a number is a factor, if its digits fit into a token. -/
theorem written_render (h : rank x < infinity)
    (hlength : (withoutSign (render x)).length ≤ lexemeLimit) :
    ∃ n ≤ depthLimit, (Phrase.factor (.ofValue x)).Written (render x).toList n := by
  unfold Expr.ofValue
  split
  · rename_i hsign
    rw [withoutSign_render_of_isNegative h hsign] at hlength
    rw [toList_render_of_isNegative h hsign]
    have hdigits := (plain_neg h hsign).written_render hlength
    exact ⟨1, by decide, hdigits.negation⟩
  · rename_i hsign
    have hplain := plain_of_not_isNegative h hsign
    rw [hplain.withoutSign_render] at hlength
    exact ⟨0, by decide, hplain.written_render hlength⟩

theorem calculate_render {blanks : String} (h : rank x < infinity)
    (hlength : (withoutSign (render x)).length ≤ lexemeLimit)
    (hblanks : ∀ c ∈ blanks.toList, isBlank c) (env : Environment) :
    calculate (blanks ++ render x) env = .ok x := by
  obtain ⟨n, hn, hwritten⟩ := written_render h hlength
  have hbehind := (hwritten.behind_blanks hblanks).expression
  rw [← String.toList_append] at hbehind
  obtain ⟨tokens, htokens, hparse, -⟩ := Expr.parse_of_written hbehind
  have hread : readExpr (blanks ++ render x) = .ok (.ofValue x) :=
    readExpr_eq_ok_iff.mpr ⟨tokens, htokens, hparse hn⟩
  rw [calculate_eq_eval hread, Expr.eval_ofValue h]
  rfl

theorem Text.Number.Plain.munch_tooLong (h : Plain x) (hlong : lexemeLimit < (render x).length)
    (p : Nat) : Munch p (render x).toList (.error (.tokenTooLong lexemeLimit p)) := by
  have hhas : Language.numeral.Has (render x).toList := h.isNumeralStart_render.1
  have htakes : Language.numeral.Takes (render x).toList [] := hhas.takes (by simp)
  rw [← String.length_toList] at hlong
  simpa using Munch.tooLong (p := p) htakes hlong

theorem tokenize_render_tooLong (h : rank x < infinity)
    (hlong : lexemeLimit < (withoutSign (render x)).length) :
    tokenize (render x) =
      .error (.tokenTooLong lexemeLimit (if isNegative x then 1 else 0)) := by
  apply Munch.tokenize_eq
  split
  · rename_i hsign
    have hminus : symbolKind '-' = some .operator := rfl
    rw [withoutSign_render_of_isNegative h hsign] at hlong
    rw [toList_render_of_isNegative h hsign]
    exact separates_symbol hminus _ _ ((plain_neg h hsign).munch_tooLong hlong 1)
  · rename_i hsign
    have hplain := plain_of_not_isNegative h hsign
    rw [hplain.withoutSign_render] at hlong
    exact hplain.munch_tooLong hlong 0

end Values

namespace Session
variable {s : Session} {line name : String} {x : Float}

/-- The answer to an assignment assigns the value again. -/
theorem Assigns.answer (h : s.Assigns line name x) (hfinite : rank x < infinity)
    (hlength : (withoutSign (render x)).length ≤ lexemeLimit) (t : Session) :
    t.Assigns (name ++ " = " ++ render x) name x := by
  have hspace : ∀ c ∈ " ".toList, isBlank c := List.all_eq_true.mp (by decide)
  exact assigns_of_calculate h.isVariable (calculate_render hfinite hlength hspace t.environment)

/-- What is answered can be typed back. The text of a finite number whose digits fit into a token has
that number as its value, and that of any other finite number fails where the digits begin. So the
answer to an assignment of a number of the first kind is a line with the same answer, after which the
session is as before. -/
theorem answer_retyped (x : Float) (hfinite : rank x < infinity) :
    ((withoutSign (render x)).length ≤ lexemeLimit → ∀ env, calculate (render x) env = .ok x) ∧
      (lexemeLimit < (withoutSign (render x)).length → ∀ env,
        calculate (render x) env =
          .error (.lex (.tokenTooLong lexemeLimit (if isNegative x then 1 else 0)))) ∧
      ((withoutSign (render x)).length ≤ lexemeLimit → ∀ (s : Session) (line name : String),
        s.Assigns line name x →
        ∃ answer s', s.respond line = (.ok answer, s') ∧ s'.respond answer = (.ok answer, s')) := by
  refine ⟨fun hlength env => ?_, fun hlong env => ?_, fun hlength s line name h => ?_⟩
  · have hempty : ∀ c ∈ "".toList, isBlank c := by simp
    have hcalculate := calculate_render hfinite hlength hempty env
    rwa [String.empty_append] at hcalculate
  · rw [calculate, readExpr, tokenize_render_tooLong hfinite hlong]
    rfl
  · refine ⟨_, _, h.respond_eq, ?_⟩
    have hagain := h.answer hfinite hlength ⟨s.environment.set name x⟩
    have hkept : (s.environment.set name x).set name x = s.environment.set name x :=
      Environment.set_of_get? (by rw [Environment.get?_set, if_pos rfl])
    have hrespond := hagain.respond_eq
    rw [hkept] at hrespond
    exact hrespond

/-- The line `x = -1 / 4` has the answer `x = -0.25`, also when that is typed, and the number next to
zero on the negative side has too many digits. -/
theorem answer_retyped_quarter :
    (∃ answer s', new.respond "x = -1 / 4" = (.ok answer, s') ∧
      s'.respond answer = (.ok answer, s')) ∧
    calculate "-0.25" .empty = .ok (Float.ofBits 0xbfd0000000000000) ∧
    calculate (render (Float.ofBits 0x8000000000000001)) .empty =
      .error (.lex (.tokenTooLong 256 1)) := by
  have htext : render (Float.ofBits 0xbfd0000000000000) = "-0.25" := by decide +kernel
  have hshort : (withoutSign (render (Float.ofBits 0xbfd0000000000000))).length ≤ lexemeLimit := by
    rw [htext]
    decide +kernel
  have hassigns : new.Assigns "x = -1 / 4" "x" (Float.ofBits 0xbfd0000000000000) := by
    have hvalue : calculate " -1 / 4" .empty = .ok (Float.ofBits 0xbfd0000000000000) := by
      apply eq_ok_of_toOption
      decide +kernel
    exact ⟨"x ".toList, " -1 / 4".toList, by decide +kernel, by decide, by decide +kernel, hvalue⟩
  have hfinite : rank (Float.ofBits 0x8000000000000001) < infinity := by decide +kernel
  have hlong : lexemeLimit < (withoutSign (render (Float.ofBits 0x8000000000000001))).length := by
    rw [← String.length_toList, toList_withoutSign_render hfinite]
    decide +kernel
  obtain ⟨hvalue, -, hanswer⟩ := answer_retyped (Float.ofBits 0xbfd0000000000000) (by decide +kernel)
  obtain ⟨-, hfails, -⟩ := answer_retyped (Float.ofBits 0x8000000000000001) hfinite
  refine ⟨hanswer hshort new _ _ hassigns, ?_, ?_⟩
  · rw [← htext]
    exact hvalue hshort .empty
  · exact hfails hlong .empty

end Session

end Reckon
