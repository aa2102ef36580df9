import Reckon.Expr.Printer
import Reckon.Proofs.NumberText
import Reckon.Proofs.Writing

/-!
# Parsing what was printed

A printed expression is parsed to the same tree, with the same bits in its numbers, if its names are
names that the source could have and its leaves are short enough to be tokens. Since the printer
puts every operation in parentheses, its text is a factor whatever stands around it, and needs more
levels than the source that the tree may have come from. The levels are counted by `need`: within
the limit the tree comes back, and beyond it parsing fails at the limit and in no other way.

Nothing is assumed about the text of numbers; that it is a numeral and reads back is proved in
`Reckon.Proofs.NumberText`.
-/
namespace Reckon
open Text

namespace Expr

mutual

/-- The levels that are open at once while the text of an expression is parsed. -/
def need : Expr → Nat
  | number _ | var _ => 0
  | unary _ e => 2 + e.need
  | binary _ l r => 1 + max l.need (1 + r.need)
  | call _ args => 1 + needAll args

def needAll : List Expr → Nat
  | [] => 0
  | e :: rest => max e.need (needAll rest)

end

/-- The expressions whose text can be a source: operators and functions that exist, variables that
are not spelled like a function or a constant, and leaves that fit into a token. -/
inductive Printable : Expr → Prop
  | number {x : Float} :
      Number.Plain x → (Number.render x).length ≤ lexemeLimit → Printable (.number x)
  | var {name : String} :
      isName name.toList → name.length ≤ lexemeLimit → ¬ Vocabulary.isFunctionName name →
      Vocabulary.constant? name = none → Printable (.var name)
  | unary {e : Expr} : Printable e → Printable (.unary "-" e)
  | binary {op : String} {l r : Expr} :
      op ∈ ["+", "-", "*", "/", "^"] → Printable l → Printable r → Printable (.binary op l r)
  | call {name : String} {args : List Expr} :
      name ∈ Vocabulary.functionNames → args ≠ [] → (∀ e ∈ args, Printable e) →
      Printable (.call name args)

theorem needAll_append (es : List Expr) (e : Expr) :
    needAll (es ++ [e]) = max (needAll es) e.need := by
  induction es with
  | nil => simp [needAll]
  | cons e' es ih => rw [List.cons_append, needAll, needAll, ih, Nat.max_assoc]

theorem written_arguments {rest es : List Expr} (hne : es ≠ [])
    (hes : (Phrase.arguments es).Written (", ".intercalate (renderAll es)).toList (needAll es))
    (hrest : ∀ e ∈ rest, (Phrase.factor e).Written e.render.toList e.need) :
    (Phrase.arguments (es ++ rest)).Written (", ".intercalate (renderAll (es ++ rest))).toList
      (needAll (es ++ rest)) := by
  induction rest generalizing es with
  | nil => rwa [List.append_nil]
  | cons e rest ih =>
    have hnext := hes.next (hrest e List.mem_cons_self).expression
    have htext : (", ".intercalate (renderAll es)).toList ++ [',', ' '] ++ e.render.toList =
        (", ".intercalate (renderAll (es ++ [e]))).toList := by
      have hmap : es.map render ≠ [] := by simpa using hne
      rw [renderAll_eq_map, renderAll_eq_map, List.map_append, List.map_singleton,
        String.intercalate_append_of_ne_nil hmap (List.cons_ne_nil _ _),
        String.intercalate_singleton, String.toList_append, String.toList_append]
      rfl
    rw [htext, ← needAll_append] at hnext
    rw [List.append_cons]
    exact ih (by simp) hnext fun e' he' => hrest e' (List.mem_cons_of_mem e he')

/-- The text of an expression is a factor. -/
theorem Printable.written {t : Expr} (h : t.Printable) :
    (Phrase.factor t).Written t.render.toList t.need := by
  induction h with
  | @number x hplain hlength =>
    obtain ⟨hnumeral, hlast⟩ := hplain.isNumeralStart_render
    rw [render, need]
    refine .number hnumeral hlast (by rwa [String.length_toList]) ?_
    rw [String.ofList_toList, hplain.read?_render]
  | @var name hname hlength hfunction hconstant =>
    rw [render, need]
    exact .name hname hlength hfunction hconstant
  | @unary e _ ih =>
    have hgroup := ih.negation.expression.group
    have hlevels : 1 + (1 + e.need) = 2 + e.need := by omega
    rw [hlevels] at hgroup
    rw [render, need]
    simpa using hgroup
  | @binary op l r hop _ _ ihl ihr =>
    obtain ⟨i, hoperation⟩ := ihl.operation hop ihr
    rw [render, need]
    simpa using hoperation.group
  | @call name args hname hne _ ih =>
    obtain ⟨first, rest, rfl⟩ := List.exists_cons_of_ne_nil hne
    have hfirst : (Phrase.arguments [first]).Written
        (", ".intercalate (renderAll [first])).toList (needAll [first]) := by
      rw [renderAll, renderAll, String.intercalate_singleton, needAll, needAll, Nat.max_zero]
      exact (ih first List.mem_cons_self).expression.imp fun _ hs => .first hs
    have hargs := written_arguments (List.cons_ne_nil first []) hfirst fun e he =>
      ih e (List.mem_cons_of_mem first he)
    rw [render, need]
    simpa using hargs.call hname

/-- Parsing undoes printing within the limit, and fails at the limit beyond it. -/
theorem parse_render {t : Expr} (h : t.Printable) :
    ∃ tokens, tokenize t.render = .ok tokens ∧
      (t.need ≤ depthLimit → Expr.parse tokens = .ok t) ∧
      (depthLimit < t.need →
        ∃ position, Expr.parse tokens = .error (.nestingTooDeep depthLimit position)) :=
  parse_of_written h.written.expression

/-- The hypothesis holds of `(0.5 ^ (-max(x, 2)))`. -/
theorem parse_render_half_power :
    ∃ t : Expr, t = .binary "^" (.number (Float.ofBits 0x3fe0000000000000))
        (.unary "-" (.call "max" [.var "x", .number (Float.ofBits 0x4000000000000000)])) ∧
      ∃ tokens, tokenize t.render = .ok tokens ∧
        (t.need ≤ depthLimit → Expr.parse tokens = .ok t) ∧
        (depthLimit < t.need →
          ∃ position, Expr.parse tokens = .error (.nestingTooDeep depthLimit position)) := by
  refine ⟨_, rfl, parse_render (.binary (by decide) (.number ?_ ?_) (.unary (.call ?_ ?_ ?_)))⟩
  · exact ⟨by decide +kernel, by decide +kernel⟩
  · decide +kernel
  · decide +kernel
  · exact List.cons_ne_nil _ _
  · intro e he
    simp only [List.mem_cons, List.not_mem_nil, or_false] at he
    rcases he with rfl | rfl
    · exact .var rfl (by decide) (by decide +kernel) (by decide +kernel)
    · exact .number ⟨by decide +kernel, by decide +kernel⟩ (by decide +kernel)

end Expr

end Reckon
