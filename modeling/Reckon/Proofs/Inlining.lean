import Reckon.Calculation
import Reckon.Proofs.Splicing
import Reckon.Proofs.ViablePrefix

/-!
# Assigning and inlining

A name that is bound to the value of an expression can as well be written out: the source with the
expression in parentheses wherever the name stands has the same value, and the same evaluation error
if it has none. So that is of scanning, of parsing and of evaluation at once. The words of the
source change as its text does, a derivation is changed as its words are, and a tree with another
tree in the place of a variable is evaluated as if the variable had the value of that tree.

The last step looks at the other tree in the environment from before the assignment, where the name
may be bound to anything or to nothing. Only the number of levels grows; that the changed source
stays within the limit is assumed.
-/
namespace Reckon
open Text

def Token.isVariable (t : Token) (name : String) : Bool :=
  t.kind == .identifier && t.lexeme == name

/-- The source with an expression in parentheses in the place of each token that is the name. -/
def inlined (name expression source : String) : String :=
  match tokenize source with
  | .error _ => source
  | .ok tokens =>
    let spans := (tokens.filter (·.isVariable name)).map Token.span
    String.ofList (splice ('(' :: (expression.toList ++ [')'])) 0 spans source.toList)

theorem inlined_of_tokenize {source : String} {tokens : List Token}
    (h : tokenize source = .ok tokens) (name expression : String) :
    inlined name expression source =
      String.ofList (splice ('(' :: (expression.toList ++ [')'])) 0
        ((tokens.filter (·.isVariable name)).map Token.span) source.toList) := by
  rw [inlined, h]

section Trees

mutual

/-- The expression with another one in the place of each variable of the name. -/
def Expr.subst (e : Expr) (name : String) (other : Expr) : Expr :=
  match e with
  | number x => number x
  | var x => if x = name then other else var x
  | unary op e => unary op (e.subst name other)
  | binary op l r => binary op (l.subst name other) (r.subst name other)
  | call f args => call f (Expr.substAll args name other)

def Expr.substAll (es : List Expr) (name : String) (other : Expr) : List Expr :=
  match es with
  | [] => []
  | e :: rest => e.subst name other :: Expr.substAll rest name other

end

variable {env : Environment} {name : String} {other : Expr} {v : Float}

theorem Expr.substAll_eq_map (es : List Expr) (name : String) (other : Expr) :
    Expr.substAll es name other = es.map (·.subst name other) := by
  induction es with
  | nil => rfl
  | cons e rest ih => rw [substAll, ih, List.map_cons]

mutual

/-- A tree with another tree in the place of a variable is evaluated as if the variable had the
value of the other tree. -/
theorem Expr.eval_subst (h : other.eval env = .ok v) (e : Expr) :
    (e.subst name other).eval env = e.eval (env.set name v) := by
  match e with
  | number x => rfl
  | var x =>
    rw [subst, eval, Environment.get?_set]
    by_cases hx : x = name
    · rw [if_pos hx, if_pos hx, h]
    · rw [if_neg hx, if_neg hx, eval]
  | unary op e => rw [subst, eval, eval, eval_subst h e]
  | binary op l r => rw [subst, eval, eval, eval_subst h l, eval_subst h r]
  | call f args => rw [subst, eval, eval, evalAll_substAll h args]

theorem Expr.evalAll_substAll (h : other.eval env = .ok v) (es : List Expr) :
    evalAll env (Expr.substAll es name other) = evalAll (env.set name v) es := by
  match es with
  | [] => rfl
  | e :: rest => rw [substAll, evalAll, evalAll, eval_subst h e, evalAll_substAll h rest]

end

end Trees

section Derivations

def Phrase.subst (phrase : Phrase) (name : String) (other : Expr) : Phrase :=
  match phrase with
  | chain k links e => chain k links (e.subst name other)
  | operand k e => operand k (e.subst name other)
  | power e => power (e.subst name other)
  | factor e => factor (e.subst name other)
  | arguments es => arguments (es.map (·.subst name other))

variable {phrase : Phrase} {t : Token} {ts us vs : List Token} {n : Nat}

theorem exists_of_words (ts : List Token) (h : us.map Token.word = (ts ++ t :: vs).map Token.word) :
    ∃ ts' t' vs', us = ts' ++ t' :: vs' ∧ ts'.map Token.word = ts.map Token.word ∧
      (t'.kind = t.kind ∧ t'.lexeme = t.lexeme) ∧ vs'.map Token.word = vs.map Token.word := by
  rw [List.map_append, List.map_cons] at h
  obtain ⟨ts', rest, rfl, hts, hrest⟩ := List.map_eq_append_iff.mp h
  obtain ⟨t', vs', rfl, ht, hvs⟩ := List.map_eq_cons_iff.mp hrest
  exact ⟨ts', t', vs', rfl, hts, Prod.mk.inj ht, hvs⟩

theorem Spells.of_words (h : Spells phrase ts n) (hwords : us.map Token.word = ts.map Token.word) :
    Spells phrase us n := by
  have hnil {ws : List Token} (hws : ws.map Token.word = [].map Token.word) : ws = [] :=
    List.map_eq_nil_iff.mp hws
  have hamong {t t' : Token} {ops : List String} (ht : t'.kind = t.kind ∧ t'.lexeme = t.lexeme)
      (hop : t.Among ops) : t'.Among ops := by
    rwa [Token.Among, ht.1, ht.2]
  induction h generalizing us with
  | number hk hx =>
    obtain ⟨as, t', bs, rfl, has, ht, hbs⟩ := exists_of_words [] hwords
    rw [hnil has, hnil hbs]
    exact .number (ht.1.trans hk) (ht.2 ▸ hx)
  | name hk =>
    obtain ⟨as, t', bs, rfl, has, ht, hbs⟩ := exists_of_words [] hwords
    rw [hnil has, hnil hbs, ← ht.2]
    exact .name (ht.1.trans hk)
  | constant hk hx =>
    obtain ⟨as, t', bs, rfl, has, ht, hbs⟩ := exists_of_words [] hwords
    rw [hnil has, hnil hbs]
    exact .constant (ht.1.trans hk) (ht.2 ▸ hx)
  | negation hop _ ih =>
    obtain ⟨as, t', bs, rfl, has, ht, hbs⟩ := exists_of_words [] hwords
    rw [hnil has, ← ht.2]
    exact .negation (hamong ht hop) (ih hbs)
  | group hl _ hr ih =>
    obtain ⟨as, l', bs, rfl, has, hl', hbs⟩ := exists_of_words [] hwords
    obtain ⟨cs, r', ds, rfl, hcs, hr', hds⟩ := exists_of_words _ hbs
    rw [hnil has, hnil hds]
    exact .group (hl'.1.trans hl) (ih hcs) (hr'.1.trans hr)
  | call hf hl _ hr ih =>
    obtain ⟨as, f', bs, rfl, has, hf', hbs⟩ := exists_of_words [] hwords
    obtain ⟨cs, l', ds, rfl, hcs, hl', hds⟩ := exists_of_words [] hbs
    obtain ⟨es, r', fs, rfl, hes, hr', hfs⟩ := exists_of_words _ hds
    rw [hnil has, hnil hcs, hnil hfs, ← hf'.2]
    exact .call (hf'.1.trans hf) (hl'.1.trans hl) (ih hes) (hr'.1.trans hr)
  | next _ hk _ ih ih' =>
    obtain ⟨as, t', bs, rfl, has, ht, hbs⟩ := exists_of_words _ hwords
    exact .next (ih has) (ht.1.trans hk) (ih' hbs)
  | raised _ hop _ ih ih' =>
    obtain ⟨as, t', bs, rfl, has, ht, hbs⟩ := exists_of_words _ hwords
    rw [← ht.2]
    exact .raised (ih has) (hamong ht hop) (ih' hbs)
  | link _ hop _ ih ih' =>
    obtain ⟨as, t', bs, rfl, has, ht, hbs⟩ := exists_of_words _ hwords
    rw [← ht.2]
    exact .link (ih has) (hamong ht hop) (ih' hbs)
  | first _ ih => exact .first (ih hwords)
  | base _ ih => exact .base (ih hwords)
  | ofPower _ ih => exact .ofPower (ih hwords)
  | term _ ih => exact .term (ih hwords)
  | single _ ih => exact .single (ih hwords)

/-- The tokens with others in the place of each one that is the name. -/
def substTokens (name : String) (others ts : List Token) : List Token :=
  ts.flatMap fun t => if t.isVariable name then others else [t]

/-- Other tokens that spell a factor may stand in the place of a name. -/
theorem Spells.subst {other : Expr} {m : Nat} (h : Spells phrase ts n)
    (hother : Spells (.factor other) us m) (name : String) :
    ∃ k, Spells (phrase.subst name other) (substTokens name us ts) k := by
  have happend (ts vs : List Token) :
      substTokens name us (ts ++ vs) = substTokens name us ts ++ substTokens name us vs :=
    List.flatMap_append
  have hkeep {t : Token} (ht : t.kind ≠ .identifier) (ts : List Token) :
      substTokens name us (t :: ts) = t :: substTokens name us ts := by
    simp [substTokens, Token.isVariable, ht]
  induction h with
  | number hk hx => exact ⟨_, by rw [hkeep (by simp [hk])]; exact .number hk hx⟩
  | constant hk hx => exact ⟨_, by rw [hkeep (by simp [hk])]; exact .constant hk hx⟩
  | @name t hk =>
    by_cases hname : t.lexeme = name
    · refine ⟨m, ?_⟩
      simpa [substTokens, Token.isVariable, hk, hname, Phrase.subst, Expr.subst] using hother
    · refine ⟨0, ?_⟩
      have hs : Spells (.factor (.var t.lexeme)) [t] 0 := .name hk
      simpa [substTokens, Token.isVariable, hk, hname, Phrase.subst, Expr.subst] using hs
  | negation hop _ ih =>
    obtain ⟨k, hs⟩ := ih
    rw [hkeep (by simp [hop.1])]
    exact ⟨_, .negation hop hs⟩
  | group hl _ hr ih =>
    obtain ⟨k, hs⟩ := ih
    rw [hkeep (by simp [hl]), happend, hkeep (by simp [hr])]
    exact ⟨_, .group hl hs hr⟩
  | call hf hl _ hr ih =>
    obtain ⟨k, hs⟩ := ih
    rw [hkeep (by simp [hf]), hkeep (by simp [hl]), happend, hkeep (by simp [hr]), Phrase.subst,
      Expr.subst, Expr.substAll_eq_map]
    exact ⟨_, .call hf hl hs hr⟩
  | first _ ih =>
    obtain ⟨k, hs⟩ := ih
    exact ⟨_, .first hs⟩
  | next _ hk _ ih ih' =>
    obtain ⟨k, hs⟩ := ih
    obtain ⟨k', hs'⟩ := ih'
    rw [happend, hkeep (by simp [hk]), Phrase.subst, List.map_append]
    exact ⟨_, .next hs hk hs'⟩
  | base _ ih =>
    obtain ⟨k, hs⟩ := ih
    exact ⟨_, .base hs⟩
  | raised _ hop _ ih ih' =>
    obtain ⟨k, hs⟩ := ih
    obtain ⟨k', hs'⟩ := ih'
    rw [happend, hkeep (by simp [hop.1])]
    exact ⟨_, .raised hs hop hs'⟩
  | ofPower _ ih =>
    obtain ⟨k, hs⟩ := ih
    exact ⟨_, .ofPower hs⟩
  | term _ ih =>
    obtain ⟨k, hs⟩ := ih
    exact ⟨_, .term hs⟩
  | single _ ih =>
    obtain ⟨k, hs⟩ := ih
    exact ⟨_, .single hs⟩
  | link _ hop _ ih ih' =>
    obtain ⟨k, hs⟩ := ih
    obtain ⟨k', hs'⟩ := ih'
    rw [happend, hkeep (by simp [hop.1])]
    exact ⟨_, .link hs hop hs'⟩

end Derivations

section Sources
variable {env : Environment} {name expression source : String} {tokens others : List Token}
  {tree other : Expr} {v : Float}

def enclosed (ts : List Token) : List Token := opening :: (ts ++ [closing])

/-- The words of the changed source are those of the source, with those of the expression in
parentheses in the place of the name. -/
theorem tokenize_inlined (hsource : tokenize source = .ok tokens)
    (hexpression : tokenize expression = .ok others) (name : String) :
    ∃ ts p, tokenize (inlined name expression source) = .ok (ts ++ [.endAt p]) ∧
      ts.map Token.word =
        (substTokens name (enclosed (Expr.body others)) (Expr.body tokens)).map Token.word := by
  have hmunch := munch_of_tokenize hsource
  have hmunch' := munch_of_tokenize hexpression
  have hinsert (q : Nat) : ∃ us, us.map Token.word = (enclosed (Expr.body others)).map Token.word ∧
      Separates ('(' :: (expression.toList ++ [')'])) q us := by
    obtain ⟨us, hwords, hscans⟩ := hmunch'.scans (q + 1)
    refine ⟨_, ?_, hscans.parenthesised⟩
    simp [enclosed, hwords, Token.word, opening, closing]
  have hhit (t : Token) (ht : t.isVariable name) : t.kind ≠ .eof := by
    simp only [Token.isVariable, Bool.and_eq_true, beq_iff_eq] at ht
    simp [ht.1]
  obtain ⟨ts, hwords, hscans⟩ := hmunch.scans_splice (·.isVariable name) hhit
    (fun _ => parted_cons (by decide)) hinsert 0
  have htokens := hscans.tokenize_eq
  rw [← inlined_of_tokenize hsource] at htokens
  refine ⟨ts, _, htokens, ?_⟩
  rw [hwords, substTokens, List.map_flatMap]
  congr
  funext t
  split <;> rfl

/-- The changed source is read as the changed tree, unless there are too many levels. -/
theorem readExpr_inlined (hsource : readExpr source = .ok tree)
    (hexpression : readExpr expression = .ok other) (name : String) :
    readExpr (inlined name expression source) = .ok (tree.subst name other) ∨
      ∃ p, readExpr (inlined name expression source) =
        .error (.parse (.nestingTooDeep depthLimit p)) := by
  obtain ⟨tokens, htokens, hparse⟩ := readExpr_eq_ok_iff.mp hsource
  obtain ⟨others, hothers, hparse'⟩ := readExpr_eq_ok_iff.mp hexpression
  obtain ⟨i, n, hs, -⟩ := Expr.exists_spells_of_parse hparse
  obtain ⟨j, m, hs', -⟩ := Expr.exists_spells_of_parse hparse'
  obtain ⟨ts, p, hinlined, hwords⟩ := tokenize_inlined htokens hothers name
  have hgroup : Spells (.factor other) (enclosed (Expr.body others)) (1 + m) := .group rfl hs' rfl
  obtain ⟨k, hsubst⟩ := hs.subst hgroup name
  have hts : Spells (.chain .sum i (tree.subst name other)) ts k := hsubst.of_words hwords
  have hbody : Expr.body (ts ++ [.endAt p]) = ts :=
    Expr.body_append hts.ne_eof (by simp [Expr.Ended, Token.endAt])
  rw [readExpr_eq_parse hinlined]
  rw [← hbody] at hts
  by_cases hk : k ≤ depthLimit
  · rw [Expr.parse_of_spells hts hk]
    exact .inl rfl
  · obtain ⟨position, hdeep⟩ := Expr.parse_of_spells_of_lt hts (Nat.not_le.mp hk)
    rw [hdeep]
    exact .inr ⟨position, rfl⟩

/-- To assign an expression to a name and use the name is to write the expression in its place. -/
theorem calculate_inlined (env : Environment) (name expression source : String) {v : Float}
    (hvalue : calculate expression env = .ok v) (hsource : readExpr source = .ok tree)
    (hlevels : ∀ limit p,
      readExpr (inlined name expression source) ≠ .error (.parse (.nestingTooDeep limit p))) :
    ∃ other, readExpr expression = .ok other ∧
      readExpr (inlined name expression source) = .ok (tree.subst name other) ∧
      calculate source (env.set name v) = calculate (inlined name expression source) env := by
  obtain ⟨other, hexpression, heval⟩ := calculate_eq_ok_iff.mp hvalue
  rcases readExpr_inlined hsource hexpression name with hinlined | ⟨p, hdeep⟩
  · refine ⟨other, hexpression, hinlined, ?_⟩
    rw [calculate_eq_eval hsource, calculate_eq_eval hinlined, Expr.eval_subst heval]
  · exact absurd hdeep (hlevels depthLimit p)

/-- Where `x` is `1-2`, its square is that of the difference: `x*x` is `(1-2)*(1-2)`. -/
theorem calculate_inlined_difference :
    calculate "1-2" .empty = .ok (-1) ∧
      readExpr "x*x" = .ok (.binary "*" (.var "x") (.var "x")) ∧
      (∀ limit p, readExpr (inlined "x" "1-2" "x*x") ≠ .error (.parse (.nestingTooDeep limit p))) ∧
      inlined "x" "1-2" "x*x" = "(1-2)*(1-2)" ∧
      ∃ other, readExpr "1-2" = .ok other ∧
        readExpr (inlined "x" "1-2" "x*x") =
          .ok ((Expr.binary "*" (.var "x") (.var "x")).subst "x" other) ∧
        calculate "x*x" (Environment.empty.set "x" (-1)) =
          calculate (inlined "x" "1-2" "x*x") .empty := by
  have hvalue : calculate "1-2" .empty = .ok (-1) := by
    apply eq_ok_of_toOption
    decide +kernel
  have hsource : readExpr "x*x" = .ok (.binary "*" (.var "x") (.var "x")) := by
    apply eq_ok_of_toOption
    decide +kernel
  have hread : (readExpr (inlined "x" "1-2" "x*x")).toOption.isSome := by decide +kernel
  have hlevels : ∀ limit p,
      readExpr (inlined "x" "1-2" "x*x") ≠ .error (.parse (.nestingTooDeep limit p)) := by
    intro limit p hdeep
    rw [hdeep] at hread
    cases hread
  exact ⟨hvalue, hsource, hlevels, by decide +kernel,
    calculate_inlined .empty "x" "1-2" "x*x" hvalue hsource hlevels⟩

end Sources

end Reckon
