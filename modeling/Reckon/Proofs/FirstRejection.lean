import Reckon.Proofs.ClassOrder
import Reckon.Proofs.Turns

/-!
# The first rejection

A scan stops growing the pending text at the first character that makes every class reject it. A
longer text that begins with the rejected one is never tried. None is lost, for what all the classes
reject they reject with anything behind it.

No single class is asked for that. The classes of functions and of constants reject `si` and `p`, and
are complete on `sin` and on `pi`; they are the only ones whose rejections do not last. But each of
their words is a name, and the class of names has every beginning of a name. So the classes together
accept whatever an accepted text begins with, and then the first rejection ends the longest accepted
text among all that stand there.
-/
namespace Reckon
open Text TokenClass

namespace TokenClass
variable {c : TokenClass} {classes : List TokenClass} {text more : List Char}

/-- What the class rejects, it rejects with anything behind it. -/
def Lasting (c : TokenClass) : Prop :=
  ∀ text more, text ≠ [] → c.fit text = .rejected → c.fit (text ++ more) = .rejected

/-- The classes together accept whatever an accepted text begins with. -/
def PrefixClosed (classes : List TokenClass) : Prop :=
  ∀ text more, text ≠ [] → accepts classes (text ++ more) → accepts classes text

theorem lasting_of_beginnings {among : List Char → Prop}
    (hfit : ∀ text, c.fit text ≠ .rejected ↔ among text)
    (hinit : ∀ text more, text ≠ [] → among (text ++ more) → among text) : c.Lasting := by
  intro text more hne hrejected
  by_contra hgrown
  have hbeginning := hinit text more hne ((hfit _).mp hgrown)
  exact (hfit text).mpr hbeginning hrejected

theorem lasting_of_length_le (h : ∀ text, c.fit text ≠ .rejected → text.length ≤ 1) : c.Lasting := by
  apply lasting_of_beginnings (fun _ => Iff.rfl)
  intro text more hne hgrown
  have hlength := h _ hgrown
  have hpos := List.length_pos_iff.mpr hne
  rw [List.length_append] at hlength
  have hnil : more = [] := List.eq_nil_of_length_eq_zero (by omega)
  rwa [hnil, List.append_nil] at hgrown

theorem lasting_number : Lasting ⟨.number, numberFit⟩ := by
  have hfit : ∀ text, numberFit text ≠ .rejected ↔ IsNumeralStart text := by
    intro text
    constructor
    · exact isNumeralStart_of_numberFit
    · intro h
      rw [h.numberFit_eq]
      split <;> simp
  exact lasting_of_beginnings hfit fun _ _ hne h => h.init hne

theorem lasting_identifier : Lasting ⟨.identifier, identifierFit⟩ := by
  have hfit : ∀ text, identifierFit text ≠ .rejected ↔ isName text := by simp [identifierFit]
  exact lasting_of_beginnings hfit fun _ _ hne h => isName_init h hne

theorem lasting_operator : Lasting ⟨.operator, operatorFit⟩ := by
  apply lasting_of_length_le
  intro text h
  change operatorFit text ≠ .rejected at h
  unfold operatorFit at h
  split at h
  · exact Nat.le_refl 1
  · exact absurd rfl h

theorem lasting_single (kind : TokenKind) (d : Char) : Lasting ⟨kind, singleFit d⟩ := by
  apply lasting_of_length_le
  intro text h
  have hsingle : text = [d] := by simpa [singleFit] using h
  rw [hsingle]
  exact Nat.le_refl 1

/-- The rejections of a class last unless the class is one of words of the vocabulary. -/
theorem lasting_iff (hc : c ∈ all) : c.Lasting ↔ ¬ c.kind.IsWord := by
  have hfunction : ¬ Lasting ⟨.function, functionFit⟩ := fun h =>
    absurd (h ['s', 'i'] ['n'] (by decide) (by decide +kernel)) (by decide +kernel)
  have hconstant : ¬ Lasting ⟨.constant, constantFit⟩ := fun h =>
    absurd (h ['p'] ['i'] (by decide) (by decide +kernel)) (by decide +kernel)
  simp only [all, List.mem_cons, List.not_mem_nil, or_false] at hc
  rcases hc with rfl | rfl | rfl | rfl | rfl | rfl | rfl | rfl
  · exact iff_of_true lasting_number (by decide)
  · exact iff_of_true lasting_identifier (by decide)
  · exact iff_of_true lasting_operator (by decide)
  · exact iff_of_false hfunction (by decide)
  · exact iff_of_false hconstant (by decide)
  · exact iff_of_true (lasting_single .lparen '(') (by decide)
  · exact iff_of_true (lasting_single .rparen ')') (by decide)
  · exact iff_of_true (lasting_single .comma ',') (by decide)

theorem completeIf_of_ne {b : Bool} (h : completeIf b ≠ .rejected) : completeIf b = .complete := by
  cases b with
  | false => exact absurd rfl h
  | true => rfl

theorem complete_of_isWord (hc : c ∈ all) (hword : c.kind.IsWord) (h : c.fit text ≠ .rejected) :
    c.Complete text := by
  cases hword with
  | inl hkind =>
    cases function_eq hc hkind
    exact completeIf_of_ne h
  | inr hkind =>
    cases constant_eq hc hkind
    exact completeIf_of_ne h

/-- The class of names makes up for those of functions and constants. -/
theorem prefixClosed_all : PrefixClosed all := by
  intro text more hne haccepts
  obtain ⟨c, hc, hfit⟩ := accepts_iff.mp haccepts
  have hlasting : ∃ d ∈ all, d.Lasting ∧ d.fit (text ++ more) ≠ .rejected := by
    by_cases hword : c.kind.IsWord
    · obtain ⟨d, hd, hkind, hcomplete⟩ :=
        exists_identifier_of_isWord hc (complete_of_isWord hc hword hfit) hword
      have hname : ¬ d.kind.IsWord := by
        rw [hkind]
        decide
      have hgrown : d.fit (text ++ more) = .complete := hcomplete
      exact ⟨d, hd, (lasting_iff hd).mpr hname, by simp [hgrown]⟩
    · exact ⟨c, hc, (lasting_iff hc).mpr hword, hfit⟩
  obtain ⟨d, hd, hlast, hgrown⟩ := hlasting
  exact accepts_iff.mpr ⟨d, hd, fun hrejected => hgrown (hlast text more hne hrejected)⟩

end TokenClass

namespace Scanner
variable {classes : List TokenClass} {source : List Char} {s : Scanner} {c : Char}

/-- The text is the longest one that a class accepts, of all that stand at the front of the source. -/
structure LongestAccepted (classes : List TokenClass) (text source : List Char) : Prop where
  front : text <+: source
  accepted : accepts classes text
  longest : ∀ other, other <+: source → accepts classes other → other.length ≤ text.length

/-- The character ahead ends the pending text, since every class rejects the text grown by it. -/
structure Rejects (classes : List TokenClass) (s : Scanner) (c : Char) : Prop where
  pending_ne_nil : s.pending ≠ []
  ahead : s.current? = some c
  not_isBlank : ¬ isBlank c
  rejected : ∀ cls ∈ classes, cls.fit (s.pending ++ [c]) = .rejected

theorem Rejects.step_eq (h : s.Rejects classes c) : s.step classes c = s.emit classes := by
  rw [step_of_not_accepts h.not_isBlank (accepts_eq_false_iff.mpr h.rejected),
    if_neg (mt List.isEmpty_iff.mp h.pending_ne_nil)]

/-- In `2+`, the sign ends the number. -/
example : Rejects all ⟨['+'], 1, ['2'], 0, #[]⟩ '+' :=
  ⟨by decide, rfl, by decide, by decide +kernel⟩

theorem Coherent.drop_start_eq (h : s.Coherent classes source) (hne : s.pending ≠ []) :
    source.drop s.start = s.pending ++ s.rest := by
  have hcandidate := h.pending hne
  have hdrop : s.rest = (source.drop s.start).drop (s.position - s.start) := by
    rw [List.drop_drop, Nat.add_sub_cancel' hcandidate.start_le, h.rest_eq]
  have htake : s.pending = (source.drop s.start).take (s.position - s.start) :=
    hcandidate.eq_extract
  rw [htake, hdrop, List.take_append_drop]

/-- A pending text that the character ahead ends is the longest, if a rejected text does not become
accepted again. -/
theorem Coherent.longestAccepted (h : s.Coherent classes source) (hclosed : PrefixClosed classes)
    (hrejects : s.Rejects classes c) : LongestAccepted classes s.pending (source.drop s.start) := by
  have hsource := h.drop_start_eq hrejects.pending_ne_nil
  refine ⟨⟨s.rest, hsource.symm⟩, (h.pending hrejects.pending_ne_nil).accepted, ?_⟩
  intro other hfront haccepts
  rw [hsource] at hfront
  rcases Language.length_le_or_through hfront with hlength | ⟨d, hd, more, rfl⟩
  · exact hlength
  · cases hrejects.ahead.symm.trans hd
    have hgrown := hclosed _ more (by simp) haccepts
    exact absurd hgrown (Bool.eq_false_iff.mp (accepts_eq_false_iff.mpr hrejects.rejected))

end Scanner

/-- A text that all classes reject is rejected with anything behind it. So whenever the character ahead
ends the pending text of a scan, the text that is made a token is the longest accepted one among all
that stand there, whether or not the scan could have come to them one character at a time. -/
theorem longest_of_first_rejection :
    (∀ text more : List Char, text ≠ [] → (∀ cls ∈ all, cls.fit text = .rejected) →
      ∀ cls ∈ all, cls.fit (text ++ more) = .rejected) ∧
    ∀ source : String, ∃ visits,
      Scanner.Loop all (.ofSource source) visits ((Scanner.ofSource source).run all) ∧
      ∀ s ∈ visits, ∀ c, s.Rejects all c →
        s.step all c = s.emit all ∧
        Scanner.LongestAccepted all s.pending (source.toList.drop s.start) := by
  constructor
  · intro text more hne hrejected
    rw [← accepts_eq_false_iff] at hrejected ⊢
    apply Bool.eq_false_iff.mpr
    intro hgrown
    exact Bool.eq_false_iff.mp hrejected (prefixClosed_all text more hne hgrown)
  · intro source
    obtain ⟨visits, hloop⟩ := Scanner.exists_loop all (.ofSource source)
    refine ⟨visits, hloop, fun s hs c hrejects => ⟨hrejects.step_eq, ?_⟩⟩
    have hcoherent := (hloop.coherent (Scanner.coherent_ofSource all source)).1 s hs
    exact hcoherent.longestAccepted prefixClosed_all hrejects

end Reckon
