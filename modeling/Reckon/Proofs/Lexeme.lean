import Reckon.Text.Blank
import Reckon.Token.Class

/-!
# The languages of lexemes

A token begins with a run of one of three languages: numerals, which may still lack the digits
behind their point, names, and single symbols. The first character of a run decides its language,
and a language that has a run has every shorter text that the run begins with. So a run can be grown
one character at a time.

The token classes together accept just the runs of these languages, and they agree on the kind of
each. The names of functions and constants need no language of their own, since they are names in
whatever letter case.
-/
namespace Reckon
open Text TokenClass

/-- Digits, perhaps with a point behind them, perhaps with digits behind the point. -/
def IsNumeralStart (text : List Char) : Prop :=
  ∃ whole places, text = whole ++ places ∧ whole ≠ [] ∧ (∀ c ∈ whole, c.isDigit) ∧
    (places = [] ∨ ∃ digits, places = '.' :: digits ∧ ∀ c ∈ digits, c.isDigit)

def symbolKind (c : Char) : Option TokenKind :=
  if ['+', '-', '*', '/', '^'].contains c then some .operator
  else if c = '(' then some .lparen
  else if c = ')' then some .rparen
  else if c = ',' then some .comma
  else none

/-- A language that runs are taken from. -/
inductive Language where
  | numeral
  | name
  | symbol (kind : TokenKind)

namespace Language

def ofStart? (c : Char) : Option Language :=
  if c.isDigit then some .numeral
  else if isNameStart c then some .name
  else (symbolKind c).map .symbol

def Has : Language → List Char → Prop
  | numeral, run => IsNumeralStart run
  | name, run => isName run
  | symbol kind, run => ∃ c, run = [c] ∧ symbolKind c = some kind

/-- The kind of a run that is neither a function nor a constant. -/
def ownKind : Language → TokenKind
  | numeral => .number
  | name => .identifier
  | symbol kind => kind

/-- The kind of a run, in whatever letter case it names a function or a constant. -/
def kind (l : Language) (run : List Char) : TokenKind :=
  if Vocabulary.isFunctionName (String.ofList run) then .function
  else if (Vocabulary.constant? (String.ofList run)).isSome then .constant
  else l.ownKind

end Language

section Characters
variable {c : Char}

theorem isDigit_iff : c.isDigit ↔ 48 ≤ c.toNat ∧ c.toNat ≤ 57 := by
  simp [Char.isDigit, UInt32.le_iff_toNat_le]

theorem isUpper_iff : c.isUpper ↔ 65 ≤ c.toNat ∧ c.toNat ≤ 90 := by
  have hval : c.isUpper = decide (c.val ≥ 65 ∧ c.val ≤ 90) := rfl
  simp [hval, UInt32.le_iff_toNat_le]

theorem isLower_iff : c.isLower ↔ 97 ≤ c.toNat ∧ c.toNat ≤ 122 := by
  have hval : c.isLower = (decide (c.val ≥ 97) && decide (c.val ≤ 122)) := rfl
  simp [hval, UInt32.le_iff_toNat_le]

theorem isNameStart_iff :
    isNameStart c ↔
      65 ≤ c.toNat ∧ c.toNat ≤ 90 ∨ 97 ≤ c.toNat ∧ c.toNat ≤ 122 ∨ c.toNat = 95 := by
  have halpha : c.isAlpha = (c.isUpper || c.isLower) := rfl
  rw [isNameStart, halpha, Bool.or_eq_true, Bool.or_eq_true, isUpper_iff, isLower_iff, beq_iff_eq,
    ← Char.toNat_inj, or_assoc]
  rfl

theorem isNamePart_iff : isNamePart c ↔ isNameStart c ∨ c.isDigit := by
  simp only [isNamePart, isNameStart, Char.isAlphanum, Bool.or_eq_true]
  grind

theorem not_isNameStart_of_isDigit (h : c.isDigit) : ¬ isNameStart c := by
  rw [isDigit_iff] at h
  rw [isNameStart_iff]
  omega

theorem toNat_toLower : c.toLower.toNat = if c.isUpper then c.toNat + 32 else c.toNat := by
  unfold Char.toLower
  have hval : c.val ≥ 'A'.val ∧ c.val ≤ 'Z'.val ↔ c.isUpper := decide_eq_true_iff.symm
  by_cases h : c.isUpper
  · have hrange := isUpper_iff.mp h
    rw [dif_pos (hval.mpr h), if_pos h]
    have hsum : (c.val + 32).toNat = c.toNat + 32 := by
      rw [UInt32.toNat_add, Char.toNat_val]
      simp
      omega
    exact hsum
  · rw [dif_neg (mt hval.mp h), if_neg h]

theorem isNameStart_toLower : isNameStart c.toLower = isNameStart c := by
  rw [Bool.eq_iff_iff, isNameStart_iff, isNameStart_iff, toNat_toLower]
  split
  · rename_i h
    rw [isUpper_iff] at h
    omega
  · rfl

theorem isNamePart_toLower : isNamePart c.toLower = isNamePart c := by
  rw [Bool.eq_iff_iff, isNamePart_iff, isNamePart_iff, isNameStart_toLower]
  apply or_congr_right
  rw [isDigit_iff, isDigit_iff, toNat_toLower]
  split
  · rename_i h
    rw [isUpper_iff] at h
    omega
  · rfl

theorem symbolKind_isSome_iff : (symbolKind c).isSome ↔ c ∈ "+-*/^(),".toList := by
  rw [show "+-*/^(),".toList = ['+', '-', '*', '/', '^', '(', ')', ','] from rfl]
  unfold symbolKind
  split
  · simp_all
    grind
  · grind

theorem symbol_facts (h : (symbolKind c).isSome) :
    ¬ isNamePart c ∧ ¬ c.isDigit ∧ ¬ isNameStart c ∧ ¬ isBlank c ∧ c ≠ '.' := by
  have hall : "+-*/^(),".toList.all fun c =>
      ¬ isNamePart c ∧ ¬ c.isDigit ∧ ¬ isNameStart c ∧ ¬ isBlank c ∧ c ≠ '.' := by decide
  exact of_decide_eq_true (List.all_eq_true.mp hall c (symbolKind_isSome_iff.mp h))

theorem symbolKind_mem {kind : TokenKind} (h : symbolKind c = some kind) :
    kind ∈ [TokenKind.operator, .lparen, .rparen, .comma] := by
  unfold symbolKind at h
  grind

theorem symbolKind_ne_word {kind : TokenKind} (h : symbolKind c = some kind) :
    kind ≠ .function ∧ kind ≠ .constant := by
  have hmem := symbolKind_mem h
  constructor <;> rintro rfl <;> exact absurd hmem (by decide)

theorem not_isBlank_of_isNamePart (h : isNamePart c) : ¬ isBlank c := by
  rw [isNamePart_iff, isNameStart_iff, isDigit_iff] at h
  simp only [isBlank, blankRanges, List.any_cons, List.any_nil, Bool.or_eq_true,
    Bool.and_eq_true, decide_eq_true_eq, Bool.false_eq_true, or_false]
  omega

end Characters

section Numerals
variable {text whole digits rest : List Char}

theorem takeWhile_digits (rest : List Char) (hwhole : ∀ c ∈ whole, c.isDigit)
    (hrest : ∀ c ∈ rest.head?, ¬ c.isDigit) : (whole ++ rest).takeWhile Char.isDigit = whole := by
  rw [List.takeWhile_append_of_pos hwhole]
  cases rest with
  | nil => simp
  | cons c rest => simp [hrest c rfl]

theorem dropWhile_digits (rest : List Char) (hwhole : ∀ c ∈ whole, c.isDigit)
    (hrest : ∀ c ∈ rest.head?, ¬ c.isDigit) : (whole ++ rest).dropWhile Char.isDigit = rest := by
  rw [List.dropWhile_append_of_pos hwhole]
  cases rest with
  | nil => simp
  | cons c rest => simp [hrest c rfl]

theorem numberFit_digits (hne : whole ≠ []) (hwhole : ∀ c ∈ whole, c.isDigit) :
    numberFit whole = .complete := by
  have htake := takeWhile_digits [] hwhole (by simp)
  have hdrop := dropWhile_digits [] hwhole (by simp)
  rw [List.append_nil] at htake hdrop
  simp [numberFit, htake, hdrop, hne]

theorem numberFit_point (hne : whole ≠ []) (hwhole : ∀ c ∈ whole, c.isDigit) :
    numberFit (whole ++ '.' :: digits) =
      if digits = [] then .unfinished else completeIf (digits.all Char.isDigit) := by
  have hpoint : ∀ c ∈ ('.' :: digits).head?, ¬ c.isDigit := by
    intro c hc
    cases hc
    decide
  rw [numberFit, takeWhile_digits _ hwhole hpoint, dropWhile_digits _ hwhole hpoint]
  cases digits <;> simp [hne]

theorem getLast?_ne_point (h : ∀ c ∈ text, c.isDigit) : text.getLast? ≠ some '.' := by
  intro hlast
  have hpoint := h '.' (List.mem_of_getLast? hlast)
  exact absurd hpoint (by decide)

theorem getLast?_places_ne_point (hne : digits ≠ []) (h : ∀ c ∈ digits, c.isDigit) :
    (whole ++ '.' :: digits).getLast? ≠ some '.' := by
  rw [List.append_cons, List.getLast?_append, Option.or_of_isSome (by simpa using hne)]
  exact getLast?_ne_point h

theorem IsNumeralStart.numberFit_eq (h : IsNumeralStart text) :
    numberFit text = if text.getLast? = some '.' then .unfinished else .complete := by
  obtain ⟨whole, places, rfl, hne, hwhole, rfl | ⟨_ | ⟨c, digits⟩, rfl, hdigits⟩⟩ := h
  · rw [List.append_nil, numberFit_digits hne hwhole, if_neg (getLast?_ne_point hwhole)]
  · rw [numberFit_point hne hwhole, List.getLast?_append]
    rfl
  · have hall : (c :: digits).all Char.isDigit := List.all_eq_true.mpr hdigits
    have hlast : (whole ++ '.' :: c :: digits).getLast? ≠ some '.' :=
      getLast?_places_ne_point (List.cons_ne_nil c digits) hdigits
    rw [numberFit_point hne hwhole, if_neg (List.cons_ne_nil c digits), hall, if_neg hlast]
    rfl

theorem isNumeralStart_of_numberFit (h : numberFit text ≠ .rejected) : IsNumeralStart text := by
  unfold numberFit at h
  split at h
  · exact absurd rfl h
  · rename_i hne
    have hwhole : ∀ c ∈ text.takeWhile Char.isDigit, c.isDigit :=
      List.all_eq_true.mp List.all_takeWhile
    refine ⟨_, _, List.takeWhile_append_dropWhile.symm, by simpa using hne, hwhole, ?_⟩
    split at h
    · rename_i hdrop
      exact .inl hdrop
    · rename_i hdrop
      exact .inr ⟨[], hdrop, by simp⟩
    · rename_i places _ hdrop
      exact .inr ⟨places, hdrop, by simpa using h⟩
    · exact absurd rfl h

theorem IsNumeralStart.digit_or_point (h : IsNumeralStart text) :
    ∀ c ∈ text, c.isDigit ∨ c = '.' := by
  obtain ⟨whole, places, rfl, -, hwhole, rfl | ⟨digits, rfl, hdigits⟩⟩ := h
  · simpa using fun c hc => .inl (hwhole c hc)
  · intro c hc
    rcases List.mem_append.mp hc with hc | hc
    · exact .inl (hwhole c hc)
    · rcases List.mem_cons.mp hc with rfl | hc
      · exact .inr rfl
      · exact .inl (hdigits c hc)

theorem IsNumeralStart.init (h : IsNumeralStart (text ++ rest)) (hne : text ≠ []) :
    IsNumeralStart text := by
  obtain ⟨whole, places, htext, hwholene, hwhole, hplaces⟩ := h
  rcases List.append_eq_append_iff.mp htext with ⟨as, rfl, -⟩ | ⟨bs, rfl, hbs⟩
  · refine ⟨text, [], (List.append_nil text).symm, hne, ?_, .inl rfl⟩
    intro c hc
    exact hwhole c (List.mem_append_left as hc)
  · refine ⟨whole, bs, rfl, hwholene, hwhole, ?_⟩
    cases bs with
    | nil => exact .inl rfl
    | cons c bs =>
      rcases hplaces with rfl | ⟨digits, rfl, hdigits⟩
      · cases hbs
      · cases hbs
        refine .inr ⟨bs, rfl, ?_⟩
        intro c hc
        exact hdigits c (List.mem_append_left rest hc)

end Numerals

section Names
variable {text rest : List Char}

theorem isNamePart_of_isName (h : isName text) : ∀ c ∈ text, isNamePart c := by
  cases text with
  | nil => cases h
  | cons c text =>
    rw [isName, Bool.and_eq_true, List.all_eq_true] at h
    intro d hd
    rcases List.mem_cons.mp hd with rfl | hd
    · exact isNamePart_of_isNameStart h.1
    · exact h.2 d hd

theorem getLast?_name_ne_point (h : isName text) : text.getLast? ≠ some '.' := by
  intro hlast
  exact absurd (isNamePart_of_isName h '.' (List.mem_of_getLast? hlast)) (by decide)

theorem isName_init (h : isName (text ++ rest)) (hne : text ≠ []) : isName text := by
  cases text with
  | nil => exact absurd rfl hne
  | cons c text =>
    simp only [List.cons_append, isName, List.all_append, Bool.and_eq_true] at h ⊢
    exact ⟨h.1, h.2.1⟩

theorem isName_map_toLower (text : List Char) : isName (text.map Char.toLower) = isName text := by
  cases text with
  | nil => rfl
  | cons c text =>
    have hparts : isNamePart ∘ Char.toLower = isNamePart := funext fun _ => isNamePart_toLower
    rw [List.map_cons, isName, isName, isNameStart_toLower, List.all_map, hparts]

theorem isName_of_isFunctionName (h : Vocabulary.isFunctionName (String.ofList text)) :
    isName text := by
  have hwords : ∀ word ∈ Vocabulary.functionNames, isName word.toList := by decide +kernel
  have hname := hwords _ (List.contains_iff_mem.mp h)
  rwa [toList_lower, isName_map_toLower, String.toList_ofList] at hname

theorem isName_of_constant (h : (Vocabulary.constant? (String.ofList text)).isSome) :
    isName text := by
  have hwords : ∀ word ∈ Vocabulary.constantTable.map Prod.fst, isName word.toList := by
    decide +kernel
  have hname := hwords (lower (String.ofList text)) ?_
  · rwa [toList_lower, isName_map_toLower, String.toList_ofList] at hname
  · obtain ⟨x, hx⟩ := Option.isSome_iff_exists.mp h
    obtain ⟨before, after, htable, -⟩ := List.lookup_eq_some_iff.mp hx
    rw [htable]
    simp

theorem functionFit_eq (text : List Char) :
    functionFit text = completeIf (Vocabulary.isFunctionName (String.ofList text)) := by
  rw [functionFit, Bool.and_eq_right_iff_imp.mpr isName_of_isFunctionName]

theorem constantFit_eq (text : List Char) :
    constantFit text = completeIf (Vocabulary.constant? (String.ofList text)).isSome := by
  rw [constantFit, Bool.and_eq_right_iff_imp.mpr isName_of_constant]

end Names

namespace Language
variable {l : Language} {c : Char} {run more : List Char}

theorem Has.ne_nil (h : l.Has run) : run ≠ [] := by
  cases l with
  | numeral =>
    obtain ⟨whole, places, rfl, hne, -⟩ := h
    exact List.append_ne_nil_of_left_ne_nil hne places
  | name =>
    rintro rfl
    cases h
  | symbol kind =>
    obtain ⟨c, rfl, -⟩ := h
    exact List.cons_ne_nil c []

theorem Has.ofStart?_eq (h : l.Has (c :: run)) : ofStart? c = some l := by
  cases l with
  | numeral =>
    obtain ⟨_ | ⟨d, whole⟩, places, htext, hne, hwhole, -⟩ := h
    · exact absurd rfl hne
    · cases htext
      rw [ofStart?, if_pos (hwhole c List.mem_cons_self)]
  | name =>
    obtain ⟨hstart, -⟩ := Bool.and_eq_true_iff.mp h
    rw [ofStart?, if_neg fun hd => not_isNameStart_of_isDigit hd hstart, if_pos hstart]
  | symbol kind =>
    obtain ⟨d, htext, hkind⟩ := h
    cases htext
    obtain ⟨-, hdigit, hstart, -⟩ := symbol_facts (Option.isSome_of_eq_some hkind)
    rw [ofStart?, if_neg hdigit, if_neg hstart, hkind]
    rfl

theorem has_singleton (h : ofStart? c = some l) : l.Has [c] := by
  unfold ofStart? at h
  split at h
  · rename_i hdigit
    cases h
    exact ⟨[c], [], rfl, List.cons_ne_nil c [], by simpa using hdigit, .inl rfl⟩
  · split at h
    · rename_i hstart
      cases h
      simpa [Has, isName] using hstart
    · obtain ⟨kind, hkind, rfl⟩ := Option.map_eq_some_iff.mp h
      exact ⟨c, rfl, hkind⟩

/-- What a run begins with is a run of its language. -/
theorem Has.init (h : l.Has (run ++ more)) (hne : run ≠ []) : l.Has run := by
  cases l with
  | numeral => exact IsNumeralStart.init h hne
  | name => exact isName_init h hne
  | symbol kind =>
    obtain ⟨c, hrun, hkind⟩ := h
    rcases List.append_eq_singleton_iff.mp hrun with ⟨rfl, -⟩ | ⟨rfl, -⟩
    · exact absurd rfl hne
    · exact ⟨c, rfl, hkind⟩

/-- A run goes on with a character of a name or with a point, if at all. -/
theorem Has.not_grown (h : l.Has run) (hc : ¬ isNamePart c ∧ c ≠ '.') : ¬ l.Has (run ++ [c]) := by
  intro hgrown
  cases l with
  | numeral =>
    rcases IsNumeralStart.digit_or_point hgrown c (by simp) with hdigit | heq
    · exact hc.1 (isNamePart_iff.mpr (.inr hdigit))
    · exact hc.2 heq
  | name => exact hc.1 (isNamePart_of_isName hgrown c (by simp))
  | symbol kind =>
    obtain ⟨d, hrun, -⟩ := hgrown
    rcases List.append_eq_singleton_iff.mp hrun with ⟨hnil, -⟩ | ⟨-, hnil⟩
    · exact h.ne_nil hnil
    · cases hnil

theorem Has.not_isBlank (h : l.Has run) : ∀ c ∈ run, ¬ isBlank c := by
  intro c hc
  cases l with
  | numeral =>
    rcases IsNumeralStart.digit_or_point h c hc with hdigit | rfl
    · exact not_isBlank_of_isNamePart (isNamePart_iff.mpr (.inr hdigit))
    · decide
  | name => exact not_isBlank_of_isNamePart (isNamePart_of_isName h c hc)
  | symbol kind =>
    obtain ⟨d, rfl, hkind⟩ := h
    cases List.mem_singleton.mp hc
    exact (symbol_facts (Option.isSome_of_eq_some hkind)).2.2.2.1

theorem symbol_fits (h : ∀ c, run = [c] → symbolKind c = none) :
    operatorFit run = .rejected ∧ ∀ c, (symbolKind c).isSome → singleFit c run = .rejected := by
  constructor
  · unfold operatorFit
    split
    · rename_i c
      have hnone := h c rfl
      unfold symbolKind at hnone
      split at hnone
      · cases hnone
      · rename_i hc
        simpa [completeIf] using hc
    · rfl
  · intro c hc
    have hne : run ≠ [c] := by
      intro heq
      rw [h c heq] at hc
      cases hc
    simp [singleFit, completeIf, hne]

/-- The classes accept the runs of the languages. -/
theorem accepts_iff_has : accepts all run ↔ ∃ l : Language, l.Has run := by
  constructor
  · intro h
    by_cases hsymbol : ∃ c kind, run = [c] ∧ symbolKind c = some kind
    · obtain ⟨c, kind, hrun, hkind⟩ := hsymbol
      exact ⟨.symbol kind, c, hrun, hkind⟩
    · have hnone : ∀ c, run = [c] → symbolKind c = none := fun c hc =>
        Option.eq_none_iff_forall_ne_some.mpr fun kind hkind => hsymbol ⟨c, kind, hc, hkind⟩
      obtain ⟨hoperator, hsingle⟩ := symbol_fits hnone
      obtain ⟨cls, hcls, hfit⟩ := accepts_iff.mp h
      simp only [all, List.mem_cons, List.not_mem_nil, or_false] at hcls
      rcases hcls with rfl | rfl | rfl | rfl | rfl | rfl | rfl | rfl
      · exact ⟨.numeral, isNumeralStart_of_numberFit hfit⟩
      · exact ⟨.name, by simpa [Has, identifierFit] using hfit⟩
      · exact absurd hoperator hfit
      · change functionFit run ≠ .rejected at hfit
        rw [functionFit_eq] at hfit
        exact ⟨.name, isName_of_isFunctionName (by simpa using hfit)⟩
      · change constantFit run ≠ .rejected at hfit
        rw [constantFit_eq] at hfit
        exact ⟨.name, isName_of_constant (Bool.of_not_eq_false (by simpa using hfit))⟩
      · exact absurd (hsingle '(' rfl) hfit
      · exact absurd (hsingle ')' rfl) hfit
      · exact absurd (hsingle ',' rfl) hfit
  · rintro ⟨l, h⟩
    cases l with
    | numeral =>
      apply accepts_iff.mpr
      refine ⟨_, List.mem_cons_self, ?_⟩
      have hfit := IsNumeralStart.numberFit_eq h
      simp only [hfit]
      split <;> decide
    | name =>
      apply accepts_iff.mpr
      have hname : isName run := h
      exact ⟨_, List.mem_cons_of_mem _ List.mem_cons_self, by simp [identifierFit, hname]⟩
    | symbol kind =>
      have hall : "+-*/^(),".toList.all fun c => accepts all [c] := by decide +kernel
      obtain ⟨c, rfl, hkind⟩ := h
      exact List.all_eq_true.mp hall c
        (symbolKind_isSome_iff.mp (Option.isSome_of_eq_some hkind))

theorem accepts_append_symbol (hne : run ≠ []) (hc : (symbolKind c).isSome) :
    accepts all (run ++ [c]) = false := by
  apply Bool.eq_false_iff.mpr
  intro haccepts
  obtain ⟨l, hgrown⟩ := accepts_iff_has.mp haccepts
  obtain ⟨hpart, -, -, -, hpoint⟩ := symbol_facts hc
  exact (hgrown.init hne).not_grown ⟨hpart, hpoint⟩ hgrown

theorem completeKinds_eq (h : ∀ c, run = [c] → symbolKind c = none) :
    completeKinds all run =
      (if numberFit run = .complete then [.number] else []) ++
      (if isName run then [.identifier] else []) ++
      (if Vocabulary.isFunctionName (String.ofList run) then [.function] else []) ++
      (if (Vocabulary.constant? (String.ofList run)).isSome then [.constant] else []) := by
  obtain ⟨hoperator, hsingle⟩ := symbol_fits h
  have hl := hsingle '(' rfl
  have hr := hsingle ')' rfl
  have hc := hsingle ',' rfl
  simp only [completeKinds, all, List.filter_cons, identifierFit, functionFit_eq, constantFit_eq,
    hoperator, hl, hr, hc, beq_iff_eq, completeIf_eq_complete, reduceCtorEq, if_false,
    List.filter_nil]
  repeat' split
  all_goals rfl

theorem ofStart?_of_symbol {kind : TokenKind} (h : symbolKind c = some kind) :
    ofStart? c = some (.symbol kind) := by
  have hsymbol : (Language.symbol kind).Has [c] := ⟨c, rfl, h⟩
  exact hsymbol.ofStart?_eq

theorem Has.symbolKind_eq_none (h : l.Has run) (hl : ∀ kind, l ≠ .symbol kind) :
    ∀ c, run = [c] → symbolKind c = none := by
  rintro c rfl
  apply Option.eq_none_iff_forall_ne_some.mpr
  intro kind hkind
  apply hl kind
  exact Option.some.inj (h.ofStart?_eq.symm.trans (ofStart?_of_symbol hkind))

/-- A run of another language names neither a function nor a constant. -/
theorem Has.not_isName (h : l.Has run) (hl : l ≠ .name) : ¬ isName run := by
  intro hname
  cases run with
  | nil => cases hname
  | cons c run =>
    have hstart := Has.ofStart?_eq (l := .name) hname
    exact hl (Option.some.inj (h.ofStart?_eq.symm.trans hstart))

/-- The classes agree on the kind of a run, unless it ends with the point of a numeral. -/
theorem Has.classify_eq (h : l.Has run) :
    classify all run = if run.getLast? = some '.' then none else some (l.kind run) := by
  cases l with
  | numeral =>
    have hname := h.not_isName nofun
    have hfunction : ¬ Vocabulary.isFunctionName (String.ofList run) :=
      mt isName_of_isFunctionName hname
    have hconstant : ¬ (Vocabulary.constant? (String.ofList run)).isSome :=
      mt isName_of_constant hname
    rw [classify, completeKinds_eq (h.symbolKind_eq_none nofun), IsNumeralStart.numberFit_eq h,
      kind, if_neg hname, if_neg hfunction, if_neg hconstant, if_neg hfunction, if_neg hconstant]
    split <;> rfl
  | name =>
    have hname : isName run := h
    have hlast : run.getLast? ≠ some '.' := getLast?_name_ne_point hname
    have hnumber : ¬ numberFit run = .complete := by
      intro hfit
      have hnumeral : Language.numeral.Has run := isNumeralStart_of_numberFit (by simp [hfit])
      exact hnumeral.not_isName nofun hname
    rw [classify, completeKinds_eq (h.symbolKind_eq_none nofun), kind, if_neg hnumber,
      if_pos hname, if_neg hlast]
    repeat' split
    all_goals simp_all [ownKind]
  | symbol kind =>
    have hall : "+-*/^(),".toList.all fun c => classify all [c] = symbolKind c ∧ c ≠ '.' := by
      decide +kernel
    have hname := h.not_isName nofun
    have hfunction := mt isName_of_isFunctionName hname
    have hconstant := mt isName_of_constant hname
    obtain ⟨c, rfl, hkind⟩ := h
    obtain ⟨hclassify, hpoint⟩ := of_decide_eq_true (List.all_eq_true.mp hall c
      (symbolKind_isSome_iff.mp (Option.isSome_of_eq_some hkind)))
    rw [hclassify, hkind, Language.kind, if_neg hfunction, if_neg hconstant,
      if_neg (by simpa using hpoint)]
    rfl

end Language

end Reckon
