import Reckon.Proofs.Agreement
import Reckon.Proofs.History
import Reckon.Proofs.Writing

/-!
# The variables of a session

The name in front of an equals sign is taken from the tokens of the text there, and so is a variable
from the tokens of an expression. What can be assigned to is therefore just what an expression
understands as a variable: a name that fits into a token and that no function or constant has in
any letter case. Blank characters around it count for nothing on either side of the sign.

Every name that a session binds is of this kind, because each line keeps it so. So the name alone on
a line is answered with the value, and a line that assigns a variable to itself changes nothing.
-/
namespace Reckon
open Text

structure IsVariable (text : String) : Prop where
  spelling : isName text.toList
  length_le : text.length ≤ lexemeLimit
  function : ¬ Vocabulary.isFunctionName text
  constant : Vocabulary.constant? text = none

section Names
variable {name left right : String} {p : Nat} {run : List Char} {l : Language}

/-- A variable is scanned into one token, whatever blank characters stand around it. -/
theorem IsVariable.tokenize_eq (h : IsVariable name) (hleft : ∀ c ∈ left.toList, isBlank c)
    (hright : ∀ c ∈ right.toList, isBlank c) :
    tokenize (left ++ name ++ right) =
      .ok [⟨.identifier, name, ⟨left.length, left.length + name.length⟩⟩,
        .endAt (left ++ name ++ right).length] := by
  have hhas : Language.name.Has name.toList := h.spelling
  have hlength : name.toList.length ≤ lexemeLimit := by
    rw [String.length_toList]
    exact h.length_le
  have hscans := hhas.scans hlength (getLast?_name_ne_point h.spelling) left.toList.length
  rw [Language.token, String.ofList_toList, if_neg h.function, h.constant, Option.isSome_none,
    if_neg Bool.false_ne_true] at hscans
  have hall := (separates_blanks hleft).append_scans (p := 0) (by simpa using hscans)
  have htokens := (hall.append_blanks hright).tokenize_eq
  simpa [Language.ownKind, String.length_toList, String.append_assoc, Nat.add_assoc] using htokens

theorem Language.Has.isVariable (h : l.Has run) (hlength : run.length ≤ lexemeLimit)
    (hkind : (l.token run p).kind = .identifier) : IsVariable (l.token run p).lexeme := by
  cases l with
  | numeral =>
    rw [h.token_eq nofun] at hkind
    cases hkind
  | symbol kind =>
    rw [h.token_eq nofun] at hkind
    obtain ⟨c, -, hsymbol⟩ := h
    have hmem := symbolKind_mem hsymbol
    rw [show kind = .identifier from hkind] at hmem
    exact absurd hmem (by decide)
  | name =>
    unfold token at hkind ⊢
    dsimp only at hkind ⊢
    split at hkind
    · cases hkind
    · rename_i hfunction
      split at hkind
      · cases hkind
      · rename_i hconstant
        rw [if_neg hfunction, if_neg hconstant]
        have hspelling : isName (String.ofList run).toList := by
          rw [String.toList_ofList]
          exact h
        exact ⟨hspelling, by simpa using hlength, hfunction, by simpa using hconstant⟩

theorem Munch.isVariable {text : List Char} {tokens : List Token}
    (h : Munch p text (.ok tokens)) : ∀ t ∈ tokens, t.kind = .identifier → IsVariable t.lexeme := by
  induction h using Munch.ok_induction with
  | done p =>
    intro t ht hkind
    cases List.mem_singleton.mp ht
    cases hkind
  | blank p c text tokens _ _ ih => exact ih
  | token p l run rest tokens htakes hlength _ _ ih =>
    exact List.forall_mem_cons.mpr ⟨htakes.has.isVariable hlength, ih⟩

theorem isVariable_of_tokenize {source : String} {tokens : List Token}
    (h : tokenize source = .ok tokens) :
    ∀ t ∈ tokens, t.kind = .identifier → IsVariable t.lexeme :=
  (munch_of_tokenize h).isVariable

end Names

section Lines
variable {name left right text : String} {v : Float} {env : Environment} {s : Session}
  {line : String} {lines : List String}

theorem Line.isVariable_of_target? (h : target? text = some name) : IsVariable name := by
  unfold target? at h
  split at h
  · rename_i t stop htokens
    split at h
    · rename_i hkinds
      cases h
      exact isVariable_of_tokenize htokens t List.mem_cons_self hkinds.1
    · cases h
  · cases h

namespace IsVariable

theorem target?_eq (h : IsVariable name) (hleft : ∀ c ∈ left.toList, isBlank c)
    (hright : ∀ c ∈ right.toList, isBlank c) : Line.target? (left ++ name ++ right) = some name := by
  rw [Line.target?, h.tokenize_eq hleft hright]
  rfl

theorem readExpr_eq (h : IsVariable name) (hleft : ∀ c ∈ left.toList, isBlank c)
    (hright : ∀ c ∈ right.toList, isBlank c) :
    readExpr (left ++ name ++ right) = .ok (.var name) := by
  rw [readExpr_eq_parse (h.tokenize_eq hleft hright)]
  have hfactor {span : Span} : Spells (.factor (.var name)) [⟨.identifier, name, span⟩] 0 :=
    .name (t := ⟨.identifier, name, span⟩) rfl
  rw [Expr.parse_of_spells (.single (.term (.single (.ofPower (.base hfactor))))) (Nat.zero_le _)]
  rfl

theorem not_mem_equals (h : IsVariable name) : '=' ∉ name.toList := by
  intro hmem
  exact absurd (isNamePart_of_isName h.spelling '=' hmem) (by decide)

end IsVariable

theorem Environment.set_of_get? (h : env.get? name = some v) : env.set name v = env := by
  apply ext_get?
  intro x
  rw [get?_set]
  split
  · rename_i hx
    rw [hx, h]
  · rfl

theorem calculate_variable (h : IsVariable name) (hvalue : env.get? name = some v)
    (hleft : ∀ c ∈ left.toList, isBlank c) (hright : ∀ c ∈ right.toList, isBlank c) :
    calculate (left ++ name ++ right) env = .ok v := by
  rw [calculate_eq_eval (h.readExpr_eq hleft hright), Expr.eval, hvalue]
  rfl

namespace Session

/-- Only variables are bound. -/
def Wellnamed (s : Session) : Prop :=
  ∀ name v, s.environment.get? name = some v → IsVariable name

theorem wellnamed_new : new.Wellnamed := by
  intro name v h
  cases h

theorem Assigns.isVariable (h : s.Assigns line name v) : IsVariable name := by
  obtain ⟨front, source, -, -, htarget, -⟩ := h
  exact Line.isVariable_of_target? htarget

theorem Wellnamed.respond (h : s.Wellnamed) (line : String) : (s.respond line).2.Wellnamed := by
  intro name v hvalue
  rcases get?_respond.mp hvalue with hassigns | ⟨-, hold⟩
  · exact hassigns.isVariable
  · exact h name v hold

theorem Wellnamed.after (h : s.Wellnamed) (lines : List String) : (s.after lines).Wellnamed := by
  induction lines generalizing s with
  | nil => exact h
  | cons line lines ih => exact ih (h.respond line)

theorem respond_variable (h : IsVariable name) (hvalue : s.environment.get? name = some v)
    (hleft : ∀ c ∈ left.toList, isBlank c) (hright : ∀ c ∈ right.toList, isBlank c) :
    s.respond (left ++ name ++ right) = (.ok (Number.render v), s) := by
  have hblank : ¬ isBlank '=' := by decide
  have hmem : '=' ∉ (left ++ name ++ right).toList := by
    simp only [String.toList_append, List.mem_append, not_or]
    exact ⟨⟨fun hc => hblank (hleft _ hc), h.not_mem_equals⟩, fun hc => hblank (hright _ hc)⟩
  rw [respond_of_not_mem hmem, evaluate_of_ok (calculate_variable h hvalue hleft hright)]
  rfl

/-- A variable is assigned the value of what stands behind the sign and a blank. -/
theorem assigns_of_calculate {source : String} (h : IsVariable name)
    (hvalue : calculate (" " ++ source) s.environment = .ok v) :
    s.Assigns (name ++ " = " ++ source) name v := by
  have hspace : ∀ c ∈ " ".toList, isBlank c := List.all_eq_true.mp (by decide)
  have hempty : ∀ c ∈ "".toList, isBlank c := by simp
  refine ⟨name.toList ++ [' '], ' ' :: source.toList, by simp, ?_, ?_, ?_⟩
  · simpa using h.not_mem_equals
  · have htarget := h.target?_eq hempty hspace
    rwa [show "" ++ name ++ " " = String.ofList (name.toList ++ [' ']) by simp] at htarget
  · rwa [show " " ++ source = String.ofList (' ' :: source.toList) by simp] at hvalue

theorem assigns_self (h : IsVariable name) (hvalue : s.environment.get? name = some v) :
    s.Assigns (name ++ " = " ++ name) name v := by
  have hspace : ∀ c ∈ " ".toList, isBlank c := List.all_eq_true.mp (by decide)
  have hempty : ∀ c ∈ "".toList, isBlank c := by simp
  have hcalculate := calculate_variable h hvalue hspace hempty
  rw [String.append_empty] at hcalculate
  exact assigns_of_calculate h hcalculate

/-- Whatever is bound in a session is spelled like a variable, and is scanned, read and assigned to
as one: the name is answered with its value, and to assign it to itself changes nothing. -/
theorem variables_readable (lines : List String) (name : String) (v : Float)
    (h : (new.after lines).environment.get? name = some v) :
    IsVariable name ∧
      tokenize name =
        .ok [⟨.identifier, name, ⟨0, name.length⟩⟩, .endAt name.length] ∧
      (∀ left right : String, (∀ c ∈ left.toList, isBlank c) → (∀ c ∈ right.toList, isBlank c) →
        (new.after lines).respond (left ++ name ++ right) =
          (.ok (Number.render v), new.after lines)) ∧
      (new.after lines).respond (name ++ " = " ++ name) =
        (.ok (name ++ " = " ++ Number.render v), new.after lines) := by
  have hname : IsVariable name := wellnamed_new.after lines name v h
  have hempty : ∀ c ∈ "".toList, isBlank c := by simp
  refine ⟨hname, ?_, fun left right => respond_variable hname h, ?_⟩
  · simpa using hname.tokenize_eq hempty hempty
  · rw [(assigns_self hname h).respond_eq, Environment.set_of_get? h]
    rfl

/-- The line `Rate = 2` binds a variable that the line `\tRate ` reads and `Rate = Rate` keeps. -/
theorem variables_readable_rate :
    (new.after ["Rate = 2"]).environment.get? "Rate" = some 2 ∧
      (new.after ["Rate = 2"]).respond "\tRate " = (.ok "2", new.after ["Rate = 2"]) ∧
      (new.after ["Rate = 2"]).respond "Rate = Rate" =
        (.ok "Rate = 2", new.after ["Rate = 2"]) := by
  have hvalue : (new.after ["Rate = 2"]).environment.get? "Rate" = some 2 := by decide +kernel
  have htext : Number.render 2 = "2" := by decide +kernel
  obtain ⟨-, -, hread, hkeep⟩ := variables_readable ["Rate = 2"] "Rate" 2 hvalue
  have hblanks : (∀ c ∈ "\t".toList, isBlank c) ∧ ∀ c ∈ " ".toList, isBlank c :=
    ⟨List.all_eq_true.mp (by decide), List.all_eq_true.mp (by decide)⟩
  have hline := hread "\t" " " hblanks.1 hblanks.2
  rw [htext] at hline hkeep
  exact ⟨hvalue, hline, hkeep⟩

end Session

end Lines

end Reckon
