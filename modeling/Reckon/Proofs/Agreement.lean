import Reckon.Calculation
import Reckon.Proofs.MaximalMunch
import Reckon.Proofs.NumberText
import Reckon.Proofs.Naming
import Reckon.Proofs.ViablePrefix

/-!
# The agreement of the stages

A name, an operator or a numeral is looked at three times: the scanner gives it a kind, the parser
gives it a place in a tree, and the evaluator looks it up. Each stage could refuse what the one
before it let through. On what comes from text none does.

Every token of a source carries a text that the tables know, in the spelling that they know it by.
So the parser reads every numeral and every constant, the nodes of its trees carry names that the
tables have, and the errors that are left to evaluation are those that depend on values and on the
number of arguments.
-/
namespace Reckon
open Text

/-- The text of a token is known for what the kind says: that of a function can be called, and that
of a name means nothing yet. -/
structure Token.Known (t : Token) : Prop extends t.Legible where
  function : t.kind = .function → (Vocabulary.callable? t.lexeme).isSome
  name : t.kind = .identifier →
    ¬ Vocabulary.isFunctionName t.lexeme ∧ Vocabulary.constant? t.lexeme = none

namespace Expr

/-- What a node looks up is there, a call has arguments, and a variable has a name of its own in
every letter case. -/
def Resolves : Expr → Prop
  | number _ => True
  | var name => ¬ Vocabulary.isFunctionName name ∧ Vocabulary.constant? name = none
  | unary op _ => (Vocabulary.unary? op).isSome
  | binary op _ _ => (Vocabulary.binary? op).isSome
  | call name args => (Vocabulary.callable? name).isSome ∧ args ≠ []

/-- Every node of the expression resolves. -/
def Sound (e : Expr) : Prop := ∀ node ∈ e.postorder, node.Resolves

end Expr

/-- The errors that evaluation can come to where every node resolves. -/
def EvalError.Possible : EvalError → Prop
  | undefinedVariable _ | divisionByZero => True
  | arityMismatch _ expected received =>
    (expected = 1 ∨ expected = 2) ∧ 1 ≤ received ∧ received ≠ expected
  | unknownOperator _ | unknownFunction _ => False

def Error.Possible : Error → Prop
  | lex _ => True
  | parse cause => ∀ lexeme position, cause ≠ .unreadableNumber lexeme position
  | eval cause => cause.Possible

section Lexemes
variable {c : Char} {run : List Char} {name text : String}

theorem toLower_toLower : c.toLower.toLower = c.toLower := by
  rw [← Char.toNat_inj, toNat_toLower, if_neg]
  rw [isUpper_iff, toNat_toLower]
  split
  · rename_i hupper
    rw [isUpper_iff] at hupper
    omega
  · rename_i hupper
    rwa [isUpper_iff] at hupper

theorem lower_lower : lower (lower text) = lower text := by
  rw [← String.toList_inj, toList_lower, toList_lower, List.map_map]
  exact List.map_congr_left fun _ _ => toLower_toLower

theorem Vocabulary.callable?_isSome_iff : (callable? name).isSome ↔ name ∈ functionNames := by
  rw [callable?_eq_function?, function?, mem_functionNames_iff]
  by_cases halpha : name.toList.all Char.isAlpha
  · simp [halpha, Option.isSome_or]
  · simp [halpha]

theorem Vocabulary.callable?_lower (h : isFunctionName name) :
    (callable? (lower name)).isSome :=
  callable?_isSome_iff.mpr (List.contains_iff_mem.mp h)

theorem Vocabulary.constant?_lower (name : String) : constant? (lower name) = constant? name := by
  rw [constant?, lower_lower, constant?]

theorem IsNumeralStart.read?_isSome (h : IsNumeralStart run) (hlast : run.getLast? ≠ some '.') :
    (Number.read? (String.ofList run)).isSome := by
  obtain ⟨n, rfl⟩ := Numeral.exists_chars_eq h hlast
  exact Option.isSome_of_eq_some n.read?_text

theorem Language.Has.known {l : Language} (h : l.Has run) (hlast : run.getLast? ≠ some '.')
    (p : Nat) : (l.token run p).Known := by
  cases l with
  | numeral =>
    rw [h.token_eq nofun]
    exact ⟨⟨fun _ => IsNumeralStart.read?_isSome h hlast, nofun⟩, nofun, nofun⟩
  | symbol kind =>
    rw [h.token_eq nofun]
    obtain ⟨c, -, hkind⟩ := h
    have hmem := symbolKind_mem hkind
    simp only [List.mem_cons, List.not_mem_nil, or_false] at hmem
    rcases hmem with rfl | rfl | rfl | rfl <;> exact ⟨⟨nofun, nofun⟩, nofun, nofun⟩
  | name =>
    unfold Language.token
    dsimp only
    split
    · rename_i hfunction
      exact ⟨⟨nofun, nofun⟩, fun _ => Vocabulary.callable?_lower hfunction, nofun⟩
    · rename_i hfunction
      split
      · rename_i hconstant
        refine ⟨⟨nofun, fun _ => ?_⟩, nofun, nofun⟩
        rwa [Vocabulary.constant?_lower]
      · rename_i hconstant
        exact ⟨⟨nofun, nofun⟩, nofun, fun _ => ⟨hfunction, by simpa using hconstant⟩⟩

/-- The texts of all tokens that the rules find are known. -/
theorem Munch.known {p : Nat} {text : List Char} {tokens : List Token}
    (h : Munch p text (.ok tokens)) : ∀ t ∈ tokens, t.Known := by
  induction h using Munch.ok_induction with
  | done p =>
    intro t ht
    cases List.mem_singleton.mp ht
    exact ⟨⟨nofun, nofun⟩, nofun, nofun⟩
  | blank p c text tokens _ _ ih => exact ih
  | token p l run rest tokens htakes _ hlast _ ih =>
    exact List.forall_mem_cons.mpr ⟨htakes.has.known hlast p, ih⟩

theorem known_of_tokenize {source : String} {tokens : List Token}
    (h : tokenize source = .ok tokens) : ∀ t ∈ tokens, t.Known :=
  (munch_of_tokenize h).known

end Lexemes

section Trees

/-- The operators of the grammar are those that the tables have. -/
theorem Vocabulary.operators_known :
    (∀ op ∈ ["-"], (unary? op).isSome) ∧
      ∀ op ∈ ["+", "-", "*", "/", "^"], (binary? op).isSome := by
  constructor <;> decide

theorem Expr.NamedIn.resolves {ts : List Token} {node : Expr} (h : node.NamedIn ts)
    (hknown : ∀ t ∈ ts, t.Known) : node.Resolves := by
  obtain ⟨hunary, hbinary⟩ := Vocabulary.operators_known
  cases node with
  | number => trivial
  | var name =>
    obtain ⟨t, ht, hk, rfl⟩ := h
    exact (hknown t ht).name hk
  | unary op e =>
    obtain ⟨t, -, hop, rfl⟩ := h
    exact hunary _ hop.2
  | binary op l r =>
    obtain ⟨t, -, hop, rfl⟩ := h
    exact hbinary _ hop.2
  | call name args =>
    obtain ⟨⟨t, ht, hk, rfl⟩, hargs⟩ := h
    exact ⟨(hknown t ht).function hk, hargs⟩

namespace Expr
variable {tokens : List Token} {env : Environment} {e : Expr}

theorem sound_of_parse (hknown : ∀ t ∈ tokens, t.Known) (h : Expr.parse tokens = .ok e) :
    e.Sound := by
  intro node hnode
  exact (named_of_parse h node hnode).resolves hknown

/-- A numeral and a constant are read wherever they stand among known tokens. -/
theorem exists_number_of_known (hknown : ∀ t ∈ tokens, t.Known) {c : Cursor}
    (hc : c.tokens = tokens) :
    (c.kind = .number → ∃ x after, (parseNumber c).result = (.ok (.number x), after)) ∧
      (c.kind = .constant → ∃ x after, (parseConstant c).result = (.ok (.number x), after)) := by
  obtain ⟨p, _ | ⟨t, ts⟩, d⟩ := c
  · exact ⟨nofun, nofun⟩
  · have hlegible : t.Legible := (hknown t (by simp [← hc, Cursor.tokens])).toLegible
    constructor <;> intro hk <;> change t.kind = _ at hk
    · obtain ⟨x, hx⟩ := Option.isSome_iff_exists.mp (hlegible.number hk)
      exact ⟨x, _, (Reads.number (by simp [hk]) hx).run_eq⟩
    · obtain ⟨x, hx⟩ := Option.isSome_iff_exists.mp (hlegible.constant hk)
      exact ⟨x, _, (Reads.constant (by simp [hk]) hx).run_eq⟩

theorem possible_of_parse (hknown : ∀ t ∈ tokens, t.Known) {cause : ParseError}
    (h : Expr.parse tokens = .error cause) : (Error.parse cause).Possible := by
  intro lexeme position
  rcases cases_of_parse_error h with ⟨c, hf⟩ | ⟨tree, p, t, after, d, -, -, rfl⟩
  · have hlegible : ∀ t ∈ tokens, t.Legible := fun t ht => (hknown t ht).toLegible
    obtain ⟨-, rfl | ⟨p, rfl⟩⟩ := hf.halts ⟨Nat.zero_le _, hlegible, trivial⟩
    · by_cases hend : c.kind = .eof
      · simp [Cursor.unexpected_of_eof hend]
      · obtain ⟨p, _ | ⟨t, after⟩, d⟩ := c
        · exact absurd rfl hend
        · simp [Cursor.unexpected_of_ne_eof hend]
    · simp
  · simp

/-- What is wrong with a node that resolves is its value or the number of its arguments. -/
theorem Resolves.possible (h : e.Resolves) {values : List Float} {cause : EvalError}
    (hfault : e.fault? env values = some cause) : cause.Possible := by
  cases e with
  | number => cases hfault
  | var name =>
    simp only [fault?, Option.ite_none_right_eq_some] at hfault
    obtain ⟨-, ⟨⟩⟩ := hfault
    trivial
  | unary op e =>
    simp only [fault?, Option.ite_none_right_eq_some] at hfault
    rw [Resolves, Vocabulary.unary?] at h
    simp [Option.isNone_iff_eq_none.mp hfault.1] at h
  | binary op l r =>
    rw [fault?] at hfault
    split at hfault
    · rename_i hnone
      rw [Resolves, Vocabulary.binary?] at h
      simp [Option.isNone_iff_eq_none.mp hnone] at h
    · split at hfault <;> cases hfault
      trivial
  | call name args =>
    obtain ⟨hname, hargs⟩ := h
    obtain ⟨function, hfunction⟩ := Option.isSome_iff_exists.mp hname
    rw [Vocabulary.callable?_eq_function?] at hfunction
    simp only [fault?, hfunction, Option.ite_none_left_eq_some] at hfault
    obtain ⟨harity, ⟨⟩⟩ := hfault
    refine ⟨?_, List.length_pos_iff.mpr hargs, Ne.symm harity⟩
    cases function <;> simp [Vocabulary.Callable.arity]

theorem Sound.possible (h : e.Sound) {cause : EvalError} (herr : e.eval env = .error cause) :
    cause.Possible := by
  obtain ⟨node, hnode, values, hfault⟩ := exists_fault_of_eval herr
  exact (h node hnode).possible hfault

end Expr

end Trees

/-- The stages agree on numerals, constants, operators and names: in what comes from a source each
stage finds all that it looks up, and no calculation fails for want of it. -/
theorem stages_agree (source : String) :
    (∀ tokens, tokenize source = .ok tokens →
      (∀ c : Cursor, c.tokens = tokens →
        (c.kind = .number → ∃ x after, (Expr.parseNumber c).result = (.ok (.number x), after)) ∧
        (c.kind = .constant →
          ∃ x after, (Expr.parseConstant c).result = (.ok (.number x), after))) ∧
      ∀ tree, Expr.parse tokens = .ok tree → ∀ node ∈ tree.postorder, node.Resolves) ∧
    ∀ env err, calculate source env = .error err → err.Possible := by
  constructor
  · intro tokens htokens
    have hknown := known_of_tokenize htokens
    exact ⟨fun c hc => Expr.exists_number_of_known hknown hc,
      fun tree htree => Expr.sound_of_parse hknown htree⟩
  · intro env err herr
    rcases calculate_eq_error_iff.mp herr with ⟨cause, -, rfl⟩ |
      ⟨tokens, cause, htokens, hparse, rfl⟩ | ⟨tokens, tree, cause, htokens, hparse, heval, rfl⟩
    · trivial
    · exact Expr.possible_of_parse (known_of_tokenize htokens) hparse
    · exact (Expr.sound_of_parse (known_of_tokenize htokens) hparse).possible heval

end Reckon
