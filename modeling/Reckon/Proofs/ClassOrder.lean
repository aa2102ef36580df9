import Mathlib.Data.List.Nodup
import Reckon.Token.Scanner
import Reckon.Proofs.Lexeme

/-!
# The order of the classes

The token classes are gone through one after another, but the order makes no difference. To be
accepted, a text needs any class. To be given a kind, it is complete in one class and in no other,
unless it is a word that the vocabulary knows: then it is a name as well, and membership decides
before order does. A word is never known as a function and as a constant.

Two classes that are complete on one text take it from one language, and the language is decided by
the first character. So no two languages have to be compared on whole texts.
-/
namespace Reckon
open Text TokenClass

def TokenKind.IsWord (kind : TokenKind) : Prop := kind = .function ∨ kind = .constant

instance : DecidablePred TokenKind.IsWord := fun _ => inferInstanceAs (Decidable (_ ∨ _))

/-- The kind that a text would have without the vocabulary. -/
def TokenKind.own (kind : TokenKind) : TokenKind := if kind.IsWord then .identifier else kind

section Lists
variable {α : Type} {l : List α} {a : α}

theorem head?_eq_some_iff_mem (h : ∀ a ∈ l, ∀ b ∈ l, a = b) : l.head? = some a ↔ a ∈ l := by
  constructor
  · exact List.mem_of_head?
  · intro ha
    cases l with
    | nil => cases ha
    | cons b l => exact congrArg some (h b List.mem_cons_self a ha)

end Lists

namespace Language
variable {l l' : Language} {run : List Char}

theorem Has.unique (h : l.Has run) (h' : l'.Has run) : l = l' := by
  cases run with
  | nil => exact absurd rfl h.ne_nil
  | cons c run => exact Option.some.inj (h.ofStart?_eq.symm.trans h'.ofStart?_eq)

end Language

namespace TokenClass
variable {c d : TokenClass} {classes classes' : List TokenClass} {text : List Char}
  {kind : TokenKind}

/-- The text is a token of the class. -/
def Complete (c : TokenClass) (text : List Char) : Prop := c.fit text = .complete

/-- The kind of the text by membership alone: the text is complete in the class of the kind, and it is
no word of the vocabulary if the kind is none for words. -/
structure IsOf (text : List Char) (kind : TokenKind) : Prop where
  complete : ∃ c ∈ all, c.Complete text ∧ c.kind = kind
  word_first : ¬ kind.IsWord → ∀ c ∈ all, c.Complete text → ¬ c.kind.IsWord

/-- A text that a class is complete on is a run of the language that the kind comes from. -/
theorem Complete.exists_has (h : c.Complete text) (hc : c ∈ all) :
    ∃ l : Language, l.Has text ∧ l.ownKind = c.kind.own := by
  simp only [all, List.mem_cons, List.not_mem_nil, or_false] at hc
  rcases hc with rfl | rfl | rfl | rfl | rfl | rfl | rfl | rfl
  · have hfit : numberFit text = .complete := h
    exact ⟨.numeral, isNumeralStart_of_numberFit (by simp [hfit]), rfl⟩
  · exact ⟨.name, completeIf_eq_complete.mp h, rfl⟩
  · have hfit : operatorFit text = .complete := h
    unfold operatorFit at hfit
    split at hfit
    · rename_i c
      exact ⟨.symbol .operator, ⟨c, rfl, if_pos (completeIf_eq_complete.mp hfit)⟩, rfl⟩
    · cases hfit
  · exact ⟨.name, (Bool.and_eq_true_iff.mp (completeIf_eq_complete.mp h)).1, rfl⟩
  · exact ⟨.name, (Bool.and_eq_true_iff.mp (completeIf_eq_complete.mp h)).1, rfl⟩
  · exact ⟨.symbol .lparen, ⟨'(', beq_iff_eq.mp (completeIf_eq_complete.mp h), rfl⟩, rfl⟩
  · exact ⟨.symbol .rparen, ⟨')', beq_iff_eq.mp (completeIf_eq_complete.mp h), rfl⟩, rfl⟩
  · exact ⟨.symbol .comma, ⟨',', beq_iff_eq.mp (completeIf_eq_complete.mp h), rfl⟩, rfl⟩

theorem own_kind_eq_of_complete (hc : c ∈ all) (hd : d ∈ all) (h : c.Complete text)
    (h' : d.Complete text) : c.kind.own = d.kind.own := by
  obtain ⟨l, hl, hkind⟩ := h.exists_has hc
  obtain ⟨l', hl', hkind'⟩ := h'.exists_has hd
  rw [← hkind, ← hkind', hl.unique hl']

theorem eq_of_kind_eq (hc : c ∈ all) (hd : d ∈ all) (h : c.kind = d.kind) : c = d := by
  have hnodup : (all.map kind).Nodup := by decide
  exact List.inj_on_of_nodup_map hnodup hc hd h

theorem not_isFunctionName_of_constant {word : String}
    (h : (Vocabulary.constant? word).isSome) : ¬ Vocabulary.isFunctionName word := by
  intro hfunction
  have hwords : ∀ name ∈ Vocabulary.functionNames, Vocabulary.constantTable.lookup name = none := by
    decide +kernel
  have hnone := hwords _ (List.contains_iff_mem.mp hfunction)
  rw [Vocabulary.constant?, hnone] at h
  cases h

theorem function_eq (hc : c ∈ all) (h : c.kind = .function) : c = ⟨.function, functionFit⟩ :=
  eq_of_kind_eq hc (by simp [all]) h

theorem constant_eq (hc : c ∈ all) (h : c.kind = .constant) : c = ⟨.constant, constantFit⟩ :=
  eq_of_kind_eq hc (by simp [all]) h

theorem kind_eq_of_isWord (hc : c ∈ all) (hd : d ∈ all) (h : c.Complete text) (h' : d.Complete text)
    (hword : c.kind.IsWord) (hword' : d.kind.IsWord) : c.kind = d.kind := by
  have hapart : functionFit text = .complete → constantFit text = .complete → False := by
    intro hfunction hconstant
    rw [functionFit_eq, completeIf_eq_complete] at hfunction
    rw [constantFit_eq, completeIf_eq_complete] at hconstant
    exact not_isFunctionName_of_constant hconstant hfunction
  rcases hword with hk | hk <;> rcases hword' with hk' | hk'
  · rw [hk, hk']
  · cases function_eq hc hk
    cases constant_eq hd hk'
    exact (hapart h h').elim
  · cases constant_eq hc hk
    cases function_eq hd hk'
    exact (hapart h' h).elim
  · rw [hk, hk']

/-- A text is complete in one class of words at most, and in one other class at most. -/
theorem eq_of_complete (hc : c ∈ all) (hd : d ∈ all) (h : c.Complete text) (h' : d.Complete text)
    (hword : c.kind.IsWord ↔ d.kind.IsWord) : c = d := by
  apply eq_of_kind_eq hc hd
  by_cases hk : c.kind.IsWord
  · exact kind_eq_of_isWord hc hd h h' hk (hword.mp hk)
  · have hown := own_kind_eq_of_complete hc hd h h'
    rwa [TokenKind.own, TokenKind.own, if_neg hk, if_neg (mt hword.mpr hk)] at hown

theorem exists_identifier_of_isWord (hc : c ∈ all) (h : c.Complete text) (hword : c.kind.IsWord) :
    ∃ d ∈ all, d.kind = .identifier ∧ d.Complete text := by
  obtain ⟨l, hl, hkind⟩ := h.exists_has hc
  rw [TokenKind.own, if_pos hword] at hkind
  cases l with
  | name =>
    exact ⟨⟨.identifier, identifierFit⟩, by simp [all], rfl, completeIf_eq_complete.mpr hl⟩
  | numeral => cases hkind
  | symbol kind =>
    obtain ⟨c, -, hsymbol⟩ := hl
    rw [show kind = .identifier from hkind] at hsymbol
    exact absurd (symbolKind_mem hsymbol) (by decide)

theorem mem_completeKinds_iff :
    kind ∈ completeKinds classes text ↔ ∃ c ∈ classes, c.Complete text ∧ c.kind = kind := by
  simp [completeKinds, Complete, and_assoc]

theorem isOf_iff_of_isWord (hc : c ∈ all) (h : c.Complete text) (hword : c.kind.IsWord) :
    IsOf text kind ↔ c.kind = kind := by
  constructor
  · intro hkind
    obtain ⟨d, hd, hd', rfl⟩ := hkind.complete
    have hword' : d.kind.IsWord := by
      by_contra hne
      exact hkind.word_first hne c hc h hword
    exact kind_eq_of_isWord hc hd h hd' hword hword'
  · rintro rfl
    exact ⟨⟨c, hc, h, rfl⟩, fun hne => absurd hword hne⟩

theorem isOf_iff_of_not_isWord (hword : ∀ c ∈ all, c.Complete text → ¬ c.kind.IsWord) :
    IsOf text kind ↔ ∃ c ∈ all, c.Complete text ∧ c.kind = kind :=
  ⟨fun h => h.complete, fun h => ⟨h, fun _ => hword⟩⟩

section Orders
variable (hperm : classes.Perm all)
include hperm

theorem accepts_of_perm (text : List Char) : accepts classes text = accepts all text := by
  rw [Bool.eq_iff_iff, accepts_iff, accepts_iff]
  simp only [hperm.mem_iff]

theorem mem_completeKinds_of_perm (text : List Char) (kind : TokenKind) :
    kind ∈ completeKinds classes text ↔ ∃ c ∈ all, c.Complete text ∧ c.kind = kind := by
  rw [mem_completeKinds_iff]
  simp only [hperm.mem_iff]

/-- In whatever order the classes are, a text is given its kind by membership. -/
theorem classify_eq_some_iff : classify classes text = some kind ↔ IsOf text kind := by
  have hmem := fun {kind} => mem_completeKinds_of_perm hperm text kind
  unfold classify
  dsimp only
  by_cases hfunction : .function ∈ completeKinds classes text
  · obtain ⟨c, hc, hcomplete, hkind⟩ := hmem.mp hfunction
    rw [isOf_iff_of_isWord hc hcomplete (.inl hkind), hkind, if_pos (List.contains_iff_mem.mpr hfunction),
      Option.some_inj]
  · rw [if_neg (mt List.contains_iff_mem.mp hfunction)]
    by_cases hconstant : .constant ∈ completeKinds classes text
    · obtain ⟨c, hc, hcomplete, hkind⟩ := hmem.mp hconstant
      rw [isOf_iff_of_isWord hc hcomplete (.inr hkind), hkind,
        if_pos (List.contains_iff_mem.mpr hconstant), Option.some_inj]
    · rw [if_neg (mt List.contains_iff_mem.mp hconstant)]
      have hword : ∀ c ∈ all, c.Complete text → ¬ c.kind.IsWord := by
        rintro c hc hcomplete (hk | hk)
        · exact hfunction (hmem.mpr ⟨c, hc, hcomplete, hk⟩)
        · exact hconstant (hmem.mpr ⟨c, hc, hcomplete, hk⟩)
      rw [isOf_iff_of_not_isWord hword, ← hmem]
      apply head?_eq_some_iff_mem
      intro a ha b hb
      obtain ⟨c, hc, hcomplete, rfl⟩ := hmem.mp ha
      obtain ⟨d, hd, hcomplete', rfl⟩ := hmem.mp hb
      rw [eq_of_complete hc hd hcomplete hcomplete'
        (iff_of_false (hword c hc hcomplete) (hword d hd hcomplete'))]

theorem classify_of_perm (text : List Char) : classify classes text = classify all text := by
  apply Option.ext
  intro kind
  rw [classify_eq_some_iff hperm, classify_eq_some_iff (.refl all)]

end Orders

end TokenClass

section Scans
variable {classes classes' : List TokenClass}
  (haccepts : ∀ text, accepts classes text = accepts classes' text)
  (hclassify : ∀ text, classify classes text = classify classes' text)

include hclassify in
theorem Scanner.emit_congr (s : Scanner) : s.emit classes = s.emit classes' := by
  rw [emit, emit, hclassify]

include haccepts hclassify

theorem Scanner.step_congr (s : Scanner) (c : Char) : s.step classes c = s.step classes' c := by
  simp only [step, haccepts, emit_congr hclassify s]

/-- A scan asks the classes what they accept and how they classify, and nothing else. -/
theorem Scanner.run_congr (s : Scanner) : s.run classes = s.run classes' := by
  induction hturns : s.remaining using Nat.strongRecOn generalizing s with
  | ind turns ih =>
    cases hrest : s.rest with
    | nil => rw [run_of_nil hrest, run_of_nil hrest]
    | cons c rest =>
      have hstep := step_congr haccepts hclassify s c
      rw [run_of_cons hrest, run_of_cons hrest, ← hstep]
      cases hnext : s.step classes c with
      | error err => rfl
      | ok next => exact ih next.remaining (hturns ▸ remaining_step hrest hnext) next rfl

theorem tokenizeWith_congr (source : String) :
    tokenizeWith classes source = tokenizeWith classes' source := by
  have hemit : Scanner.emit classes = Scanner.emit classes' :=
    funext (Scanner.emit_congr hclassify)
  rw [tokenizeWith, tokenizeWith, Scanner.run_congr haccepts hclassify, hemit]

end Scans

/-- In whatever order the classes are, they accept the same texts, give them the same kinds, and take
sources to the same tokens. For a text is complete in one class at most, words of the vocabulary apart:
these are complete in the class of their sort and in that of names, and the former decides. -/
theorem tokenizeWith_of_perm (classes : List TokenClass) (hperm : classes.Perm all) :
    (∀ text, accepts classes text = accepts all text ∧ classify classes text = classify all text) ∧
    (∀ source, tokenizeWith classes source = tokenize source) ∧
    (∀ text, ∀ c ∈ all, ∀ d ∈ all, c.Complete text → d.Complete text →
      (c.kind.IsWord ↔ d.kind.IsWord) → c = d) ∧
    (∀ text, ∀ c ∈ all, c.Complete text → c.kind.IsWord →
      ∃ d ∈ all, d.kind = .identifier ∧ d.Complete text) ∧
    ∀ text kind, classify classes text = some kind ↔ IsOf text kind := by
  have haccepts := accepts_of_perm hperm
  have hclassify := classify_of_perm hperm
  refine ⟨fun text => ⟨haccepts text, hclassify text⟩, tokenizeWith_congr haccepts hclassify, ?_, ?_, ?_⟩
  · intro text c hc d hd h h' hword
    exact eq_of_complete hc hd h h' hword
  · intro text c hc h hword
    exact exists_identifier_of_isWord hc h hword
  · intro text kind
    exact classify_eq_some_iff hperm

/-- With the classes the other way round, `Pi` is still a constant and `max` a function, although the
class of names comes behind those of both. -/
theorem tokenizeWith_of_perm_reverse :
    all.reverse.Perm all ∧ classify all.reverse ['P', 'i'] = some .constant ∧
      tokenizeWith all.reverse "max(2, Pi)" = tokenize "max(2, Pi)" := by
  have hperm : all.reverse.Perm all := List.reverse_perm all
  obtain ⟨hsame, hscan, -⟩ := tokenizeWith_of_perm all.reverse hperm
  refine ⟨hperm, ?_, hscan _⟩
  rw [(hsame ['P', 'i']).2]
  decide +kernel

end Reckon
