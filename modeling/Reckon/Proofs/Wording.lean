import Reckon.Report
import Reckon.Proofs.Agreement
import Reckon.Proofs.Placement

/-!
# What errors quote

What an error quotes, at whatever stage, is taken from the source: a character that no token begins
with, the text of a token, or a text that is not quite one. The evaluator too knows only the texts of
tokens, since a tree has its names from them. None of these texts has a blank in it, and the words
around them are the program's own, so the headline of a report is one line.
-/
namespace Reckon
open Text

def LexError.quoted : LexError → List Char
  | unexpectedCharacter c _ => [c]
  | invalidToken lexeme _ => lexeme.toList
  | tokenTooLong .. => []

def ParseError.quoted : ParseError → List Char
  | unexpectedToken _ lexeme _ | trailingInput _ lexeme _ | unreadableNumber lexeme _ =>
    lexeme.toList
  | unexpectedEnd _ | nestingTooDeep .. => []

def EvalError.quoted : EvalError → List Char
  | undefinedVariable name | unknownOperator name | unknownFunction name | arityMismatch name .. =>
    name.toList
  | divisionByZero => []

/-- The text that an error quotes. -/
def Error.quoted : Error → List Char
  | lex cause => cause.quoted
  | parse cause => cause.quoted
  | eval cause => cause.quoted

section Quotations
variable {p : Nat} {text : List Char} {answer : Except LexError (List Token)} {ts : List Token}

theorem Language.Has.lexeme_not_isBlank {l : Language} {run : List Char} (h : l.Has run) (p : Nat) :
    ∀ c ∈ (l.token run p).lexeme.toList, ¬ isBlank c := by
  have hlower (hname : isName run) : ∀ c ∈ (lower (String.ofList run)).toList, ¬ isBlank c := by
    intro c hc
    rw [toList_lower, String.toList_ofList] at hc
    obtain ⟨d, hd, rfl⟩ := List.mem_map.mp hc
    apply not_isBlank_of_isNamePart
    rw [isNamePart_toLower]
    exact isNamePart_of_isName hname d hd
  unfold token
  dsimp only
  split
  · rename_i hfunction
    exact hlower (isName_of_isFunctionName hfunction)
  · split
    · rename_i hconstant
      exact hlower (isName_of_constant hconstant)
    · simpa using h.not_isBlank

/-- The text in an answer of the scanner: that of its tokens, or what its error quotes. -/
def scanText : Except LexError (List Token) → List Char
  | .ok tokens => tokens.flatMap (·.lexeme.toList)
  | .error cause => cause.quoted

theorem Munch.not_isBlank (h : Munch p text answer) : ∀ c ∈ scanText answer, ¬ isBlank c := by
  induction h with
  | done => simp [scanText, Token.endAt]
  | blank _ _ ih => exact ih
  | unexpected hblank _ => simpa [scanText, LexError.quoted] using hblank
  | tooLong _ _ => simp [scanText, LexError.quoted]
  | unfinished htakes _ _ => simpa [scanText, LexError.quoted] using htakes.has.not_isBlank
  | @token p l run rest answer htakes _ _ _ ih =>
    cases answer with
    | error cause => exact ih
    | ok tokens =>
      rw [Except.map, scanText, List.flatMap_cons]
      exact List.forall_mem_append.mpr ⟨htakes.has.lexeme_not_isBlank p, ih⟩

theorem Cursor.quoted_unexpected (c : Cursor) :
    c.unexpected.quoted = [] ∨ ∃ t ∈ c.tokens, c.unexpected.quoted = t.lexeme.toList := by
  by_cases hend : c.kind = .eof
  · rw [unexpected_of_eof hend]
    exact .inl rfl
  · obtain ⟨p, _ | ⟨t, ts⟩, d⟩ := c
    · exact absurd rfl hend
    · rw [unexpected_of_ne_eof hend]
      exact .inr ⟨t, by simp [tokens], rfl⟩

/-- What is wrong with a node is said with the text of one of the tokens. -/
theorem Expr.NamedIn.quoted {node : Expr} {env : Environment} {values : List Float}
    {cause : EvalError} (h : node.NamedIn ts) (hfault : node.fault? env values = some cause) :
    cause.quoted = [] ∨ ∃ t ∈ ts, cause.quoted = t.lexeme.toList := by
  cases node with
  | number => cases hfault
  | var name =>
    obtain ⟨t, ht, -, rfl⟩ := h
    simp only [fault?, Option.ite_none_right_eq_some] at hfault
    obtain ⟨-, ⟨⟩⟩ := hfault
    exact .inr ⟨t, ht, rfl⟩
  | unary op e =>
    obtain ⟨t, ht, -, rfl⟩ := h
    simp only [fault?, Option.ite_none_right_eq_some] at hfault
    obtain ⟨-, ⟨⟩⟩ := hfault
    exact .inr ⟨t, ht, rfl⟩
  | binary op l r =>
    obtain ⟨t, ht, -, rfl⟩ := h
    rw [fault?] at hfault
    split at hfault
    · cases hfault
      exact .inr ⟨t, ht, rfl⟩
    · split at hfault <;> cases hfault
      exact .inl rfl
  | call name args =>
    obtain ⟨⟨t, ht, -, rfl⟩, -⟩ := h
    rw [fault?] at hfault
    split at hfault
    · cases hfault
      exact .inr ⟨t, ht, rfl⟩
    · split at hfault <;> cases hfault
      exact .inr ⟨t, ht, rfl⟩

theorem Expr.quoted_of_parse {tokens : List Token} {cause : ParseError}
    (hknown : ∀ t ∈ tokens, t.Known) (h : Expr.parse tokens = .error cause) :
    cause.quoted = [] ∨ ∃ t ∈ tokens, cause.quoted = t.lexeme.toList := by
  rcases cases_of_parse_error h with ⟨c, hf⟩ | ⟨tree, p, t, after, d, hr, -, rfl⟩
  · have hlegible : ∀ t ∈ tokens, t.Legible := fun t ht => (hknown t ht).toLegible
    obtain ⟨us, hpasses, -⟩ := hf.isLocal
    have htokens : c.tokens = tokens := hpasses.tokens_eq
    obtain ⟨-, rfl | ⟨p, rfl⟩⟩ := hf.halts ⟨Nat.zero_le _, hlegible, trivial⟩
    · rw [← htokens]
      exact c.quoted_unexpected
    · exact .inl rfl
  · have htokens : Cursor.tokens ⟨p, t :: after, d⟩ = tokens := hr.tokens_eq
    exact .inr ⟨t, by simp [← htokens, Cursor.tokens], rfl⟩

theorem Expr.quoted_of_eval {tokens : List Token} {tree : Expr} {env : Environment}
    {cause : EvalError} (hparse : Expr.parse tokens = .ok tree)
    (h : tree.eval env = .error cause) :
    cause.quoted = [] ∨ ∃ t ∈ tokens, cause.quoted = t.lexeme.toList := by
  have hrun := runNodes_postorder env tree []
  rw [h] at hrun
  obtain ⟨before, node, after, left, hnodes, -, hfault⟩ := runNodes_eq_fault_iff.mp hrun
  exact (named_of_parse hparse node (by simp [hnodes])).quoted hfault

/-- Nothing that an error quotes has a blank. -/
theorem quoted_not_isBlank {source : String} {env : Environment} {err : Error}
    (h : calculate source env = .error err) : ∀ c ∈ err.quoted, ¬ isBlank c := by
  have htext : ∀ c ∈ scanText (tokenize source), ¬ isBlank c := (munch_of_tokenize rfl).not_isBlank
  have hquoted {tokens : List Token} {quoted : List Char} (htokens : tokenize source = .ok tokens)
      (hq : quoted = [] ∨ ∃ t ∈ tokens, quoted = t.lexeme.toList) : ∀ c ∈ quoted, ¬ isBlank c := by
    rw [htokens] at htext
    rcases hq with rfl | ⟨t, ht, rfl⟩
    · simp
    · intro c hc
      exact htext c (List.mem_flatMap.mpr ⟨t, ht, hc⟩)
  rcases calculate_eq_error_iff.mp h with ⟨cause, hlex, rfl⟩ | ⟨tokens, cause, htokens, hparse, rfl⟩ |
    ⟨tokens, tree, cause, htokens, hparse, heval, rfl⟩
  · rw [hlex] at htext
    exact htext
  · exact hquoted htokens (Expr.quoted_of_parse (known_of_tokenize htokens) hparse)
  · exact hquoted htokens (Expr.quoted_of_eval hparse heval)

end Quotations

def OneLine (text : String) : Prop := '\n' ∉ text.toList

section Headlines
variable {a b c : String}

instance (text : String) : Decidable (OneLine text) := inferInstanceAs (Decidable (¬ _))

theorem OneLine.append (ha : OneLine a) (hb : OneLine b) : OneLine (a ++ b) := by
  simpa [OneLine, String.toList_append] using And.intro ha hb

theorem oneLine_toString (n : Nat) : OneLine (toString n) := by
  intro hn
  exact absurd (Number.digits_toDigits n '\n' (by simpa using hn)) (by decide)

theorem oneLine_of_not_isBlank {text : String} (h : ∀ c ∈ text.toList, ¬ isBlank c) :
    OneLine text := by
  intro hn
  exact h '\n' hn (by decide)

theorem OneLine.between (ha : OneLine a) (hb : OneLine b) (hc : OneLine c) :
    OneLine (a ++ b ++ c) := (ha.append hb).append hc

theorem LexError.oneLine_tip {cause : LexError} (h : ∀ c ∈ cause.quoted, ¬ isBlank c) :
    OneLine cause.tip := by
  cases cause with
  | unexpectedCharacter c p =>
    have hc : OneLine (toString c) := oneLine_of_not_isBlank (by simpa [quoted, toString] using h)
    exact .between (by decide) hc (by decide)
  | invalidToken lexeme p => exact .between (by decide) (oneLine_of_not_isBlank h) (by decide)
  | tokenTooLong limit p => exact .between (by decide) (oneLine_toString limit) (by decide)

theorem TokenKind.oneLine_name (kind : TokenKind) : OneLine kind.name := by
  cases kind <;> decide

theorem ParseError.oneLine_tip {cause : ParseError} (h : ∀ c ∈ cause.quoted, ¬ isBlank c) :
    ∀ tip ∈ cause.tip?, OneLine tip := by
  cases cause with
  | unexpectedToken kind lexeme p =>
    have hkind := kind.oneLine_name
    intro tip htip
    unfold tip? at htip
    dsimp only at htip
    split at htip
    · cases htip
      exact .append (by decide) hkind
    · cases htip
      exact .between (.between (by decide) hkind (by decide)) (oneLine_of_not_isBlank h) (by decide)
  | unexpectedEnd p =>
    rintro tip ⟨⟩
    decide
  | trailingInput kind lexeme p =>
    rintro tip ⟨⟩
    exact .between (by decide) (oneLine_of_not_isBlank h) (by decide)
  | nestingTooDeep limit p =>
    rintro tip ⟨⟩
    exact .between (by decide) (oneLine_toString limit) (by decide)
  | unreadableNumber lexeme p => exact nofun

theorem EvalError.oneLine_tip {cause : EvalError} (h : ∀ c ∈ cause.quoted, ¬ isBlank c) :
    ∀ tip ∈ cause.tip?, OneLine tip := by
  cases cause with
  | undefinedVariable name =>
    rintro tip ⟨⟩
    have hname := oneLine_of_not_isBlank h
    exact .between (.between (by decide) hname (by decide)) hname (by decide)
  | unknownOperator name | unknownFunction name =>
    rintro tip ⟨⟩
    exact .between (by decide) (oneLine_of_not_isBlank h) (by decide)
  | arityMismatch name expected received =>
    rintro tip ⟨⟩
    have hname : OneLine ("`" ++ name ++ "` expects ") :=
      .between (by decide) (oneLine_of_not_isBlank h) (by decide)
    have hplural : OneLine (if expected = 1 then "" else "s") := by split <;> decide
    have hexpected := (hname.between (oneLine_toString expected)
      (show OneLine " argument" by decide)).between hplural (show OneLine ", received " by decide)
    exact hexpected.append (oneLine_toString received)
  | divisionByZero => exact nofun

theorem Error.oneLine_name (err : Error) : OneLine err.name := by
  cases err with
  | lex cause => cases cause <;> dsimp only [name, LexError.name] <;> decide
  | parse cause => cases cause <;> dsimp only [name, ParseError.name] <;> decide
  | eval cause => cases cause <;> dsimp only [name, EvalError.name] <;> decide

theorem Error.oneLine_tip {err : Error} (h : ∀ c ∈ err.quoted, ¬ isBlank c) :
    ∀ tip ∈ err.tip?, OneLine tip := by
  cases err with
  | lex cause =>
    rintro tip ⟨⟩
    exact cause.oneLine_tip h
  | parse cause => exact cause.oneLine_tip h
  | eval cause => exact cause.oneLine_tip h

/-- The headline of an error that quotes no blank is one line. -/
theorem Report.exists_headline {err : Error} (h : ∀ c ∈ err.quoted, ¬ isBlank c) :
    ∃ row, OneLine row ∧ headline err = row ++ "\n" := by
  have hname : OneLine ("Error: " ++ err.name) := .append (by decide) err.oneLine_name
  have htip := Error.oneLine_tip h
  cases hsome : err.tip? with
  | none => exact ⟨_, hname, headline_of_none hsome⟩
  | some tip =>
    have hall := (hname.append (show OneLine " (" by decide)).between (htip tip hsome)
      (show OneLine ")" by decide)
    refine ⟨_, hall, ?_⟩
    rw [headline_of_some hsome, show ")\n" = ")" ++ "\n" by decide, ← String.append_assoc]

end Headlines

end Reckon
