import Reckon.Proofs.Acceptance
import Reckon.Proofs.Postorder

/-!
# The names in a tree

What a node of a tree looks up is the text of one of the tokens that spell the tree: a variable that
of a name, an operation that of an operator which stands in front of or between its operands, and a
call that of a function. A call has arguments.
-/
namespace Reckon

namespace Expr

/-- What the node looks up is the text of one of the tokens, of the kind that suits the node. -/
def NamedIn (ts : List Token) : Expr → Prop
  | number _ => True
  | var name => ∃ t ∈ ts, t.kind = .identifier ∧ t.lexeme = name
  | unary op _ => ∃ t ∈ ts, t.Among ["-"] ∧ t.lexeme = op
  | binary op _ _ => ∃ t ∈ ts, t.Among ["+", "-", "*", "/", "^"] ∧ t.lexeme = op
  | call name args => (∃ t ∈ ts, t.kind = .function ∧ t.lexeme = name) ∧ args ≠ []

theorem NamedIn.mono {ts us : List Token} {node : Expr} (h : node.NamedIn ts)
    (hsub : ∀ t ∈ ts, t ∈ us) : node.NamedIn us := by
  cases node with
  | number => trivial
  | var | unary | binary =>
    obtain ⟨t, ht, hnamed⟩ := h
    exact ⟨t, hsub t ht, hnamed⟩
  | call =>
    obtain ⟨⟨t, ht, hnamed⟩, hargs⟩ := h
    exact ⟨⟨t, hsub t ht, hnamed⟩, hargs⟩

end Expr

section Phrases
variable {phrase : Phrase} {t : Token} {ts tokens : List Token} {n : Nat}

def Phrase.trees : Phrase → List Expr
  | chain _ _ e | operand _ e | power e | factor e => [e]
  | arguments es => es

def Phrase.nodes (phrase : Phrase) : List Expr := phrase.trees.flatMap Expr.postorder

theorem Spells.trees_ne_nil (h : Spells phrase ts n) : phrase.trees ≠ [] := by
  cases h <;> simp [Phrase.trees]

theorem Token.Among.binary {ops : List String} (h : t.Among ops)
    (hops : ops = ["^"] ∨ ∃ k : Chain, ops = k.operators) : t.Among ["+", "-", "*", "/", "^"] := by
  have hsub : ∀ op ∈ ops, op ∈ ["+", "-", "*", "/", "^"] := by
    rcases hops with rfl | ⟨k, rfl⟩
    · decide
    · cases k <;> decide
  exact ⟨h.1, hsub _ h.2⟩

theorem Spells.named (h : Spells phrase ts n) : ∀ node ∈ phrase.nodes, node.NamedIn ts := by
  have hmono {nodes : List Expr} {us : List Token} (vs : List Token)
      (hnodes : ∀ node ∈ nodes, node.NamedIn us) (hsub : ∀ t ∈ us, t ∈ vs) :
      ∀ node ∈ nodes, node.NamedIn vs :=
    fun node hnode => (hnodes node hnode).mono hsub
  have hbinary {t : Token} {us vs : List Token} {left right : Expr} {ops : List String}
      (hops : ops = ["^"] ∨ ∃ k : Chain, ops = k.operators) (ht : t.Among ops)
      (hleft : ∀ node ∈ left.postorder, node.NamedIn us)
      (hright : ∀ node ∈ right.postorder, node.NamedIn vs) :
      ∀ node ∈ (Expr.binary t.lexeme left right).postorder, node.NamedIn (us ++ t :: vs) := by
    have hnode : (Expr.binary t.lexeme left right).NamedIn (us ++ t :: vs) :=
      ⟨t, by simp, ht.binary hops, rfl⟩
    exact List.forall_mem_append.mpr ⟨List.forall_mem_append.mpr
      ⟨hmono _ hleft (by simp +contextual), hmono _ hright (by simp +contextual)⟩,
      by simpa using hnode⟩
  induction h with
  | number | constant => simp [Phrase.nodes, Phrase.trees, Expr.postorder, Expr.NamedIn]
  | @name t hk => simp [Phrase.nodes, Phrase.trees, Expr.postorder, Expr.NamedIn, hk]
  | @negation t ts e n ht _ ih =>
    have hnode : (Expr.unary t.lexeme e).NamedIn (t :: ts) := ⟨t, List.mem_cons_self, ht, rfl⟩
    simp only [Phrase.nodes, Phrase.trees, List.flatMap_singleton] at ih ⊢
    exact List.forall_mem_append.mpr
      ⟨hmono _ ih (by simp +contextual), by simpa using hnode⟩
  | group _ _ _ ih => exact hmono _ ih (by simp +contextual)
  | @call f l r ts es n hf _ hs _ ih =>
    have hnode : (Expr.call f.lexeme es).NamedIn (f :: l :: (ts ++ [r])) :=
      ⟨⟨f, List.mem_cons_self, hf, rfl⟩, hs.trees_ne_nil⟩
    simp only [Phrase.nodes, Phrase.trees, List.flatMap_singleton, Expr.postorder,
      Expr.postorderAll_eq_flatMap] at ih ⊢
    exact List.forall_mem_append.mpr
      ⟨hmono _ ih (by simp +contextual), by simpa using hnode⟩
  | first _ ih | base _ ih | ofPower _ ih | term _ ih | single _ ih => exact ih
  | next _ _ _ ih ih' =>
    rw [Phrase.nodes, Phrase.trees, List.flatMap_append]
    exact List.forall_mem_append.mpr
      ⟨hmono _ ih (by simp +contextual), hmono _ ih' (by simp +contextual)⟩
  | raised _ ht _ ih ih' =>
    simp only [Phrase.nodes, Phrase.trees, List.flatMap_singleton] at ih ih' ⊢
    exact hbinary (.inl rfl) ht ih ih'
  | link _ ht _ ih ih' =>
    simp only [Phrase.nodes, Phrase.trees, List.flatMap_singleton] at ih ih' ⊢
    exact hbinary (.inr ⟨_, rfl⟩) ht ih ih'

/-- The nodes of a parsed tree are named by the tokens. -/
theorem Expr.named_of_parse {tree : Expr} (h : Expr.parse tokens = .ok tree) :
    ∀ node ∈ tree.postorder, node.NamedIn tokens := by
  obtain ⟨i, n, hs, -⟩ := exists_spells_of_parse h
  intro node hnode
  exact (hs.named node (by simpa [Phrase.nodes, Phrase.trees] using hnode)).mono
    fun t ht => (List.takeWhile_sublist _).subset ht

end Phrases

end Reckon
