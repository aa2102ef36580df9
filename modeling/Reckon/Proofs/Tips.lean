import Mathlib.Data.List.Dedup
import Reckon.Proofs.Concatenation
import Reckon.Proofs.Dependence

/-!
# Following a tip

A source that misses a variable is reported with the tip to assign to it. The tip can be followed with
any expression that has a value: what is missed is a name of the source and can be assigned to, and
from then on it is bound, since a session forgets nothing.

So each tip is about a name that no tip was about before, and the names are among those of the source.
However the tips are followed, and whatever lines are run in between, there is an end to them after as
many as the source has names.
-/
namespace Reckon
open Text

section Reports
variable {err : Error} {source x y : String}

theorem Report.exists_render (err : Error) (source : String) :
    ∃ rest, render err source = "Error: " ++ err.name ++ rest := by
  have hheadline : ∃ rest, headline err = "Error: " ++ err.name ++ rest := by
    cases htip : err.tip? with
    | none => exact ⟨"\n", headline_of_none htip⟩
    | some tip =>
      refine ⟨" (" ++ tip ++ ")\n", ?_⟩
      rw [headline_of_some htip]
      simp only [String.append_assoc]
  obtain ⟨rest, hrest⟩ := hheadline
  unfold render
  split
  · exact ⟨rest, hrest⟩
  · rename_i place _
    exact ⟨rest ++ excerpt place, by rw [hrest, String.append_assoc]⟩

theorem Error.le_length_name (err : Error) : 3 ≤ err.name.toList.length := by
  cases err with
  | lex cause => cases cause <;> dsimp only [name, LexError.name] <;> decide
  | parse cause => cases cause <;> dsimp only [name, ParseError.name] <;> decide
  | eval cause => cases cause <;> dsimp only [name, EvalError.name] <;> decide

/-- The first three letters of its name tell a missing variable from the other errors. -/
theorem Error.take_name_eq_iff :
    err.name.toList.take 3 = ['U', 'n', 'd'] ↔ ∃ x, err = .eval (.undefinedVariable x) := by
  constructor
  · intro h
    cases err with
    | lex cause =>
      cases cause <;> dsimp only [name, LexError.name] at h <;> exact absurd h (by decide)
    | parse cause =>
      cases cause <;> dsimp only [name, ParseError.name] at h <;> exact absurd h (by decide)
    | eval cause =>
      cases cause with
      | undefinedVariable x => exact ⟨x, rfl⟩
      | unknownOperator | unknownFunction | arityMismatch | divisionByZero =>
        dsimp only [name, EvalError.name] at h
        exact absurd h (by decide)
  · rintro ⟨x, rfl⟩
    dsimp only [name, EvalError.name]
    decide

theorem Report.render_undefinedVariable_inj
    (h : render (.eval (.undefinedVariable x)) source =
      render (.eval (.undefinedVariable y)) source) : x = y := by
  obtain ⟨front, middle, back, hshape⟩ : ∃ front middle back : List Char, ∀ z,
      (render (.eval (.undefinedVariable z)) source).toList =
        front ++ (z.toList ++ (middle ++ (z.toList ++ back))) := by
    refine ⟨("Error: " ++ "UndefinedVariable" ++ " (" ++ "Variable `").toList,
      "` is not defined, assign it with `".toList, (" = ...`" ++ ")\n").toList, fun z => ?_⟩
    have htip : (Error.eval (.undefinedVariable z)).tip? = some ("Variable `" ++ z ++
        "` is not defined, assign it with `" ++ z ++ " = ...`") := rfl
    change (headline (.eval (.undefinedVariable z))).toList = _
    rw [headline_of_some htip]
    dsimp only [Error.name, EvalError.name]
    simp only [String.toList_append, List.append_assoc]
  have hlists := congrArg String.toList h
  rw [hshape, hshape] at hlists
  have hbehind := List.append_cancel_left hlists
  have hlengths := congrArg List.length hbehind
  simp only [List.length_append] at hlengths
  exact String.toList_inj.mp (List.append_inj_left hbehind (by omega))

theorem Report.eq_of_render_eq
    (h : render err source = render (.eval (.undefinedVariable x)) source) :
    err = .eval (.undefinedVariable x) := by
  obtain ⟨rest, hrest⟩ := exists_render err source
  obtain ⟨rest', hrest'⟩ := exists_render (.eval (.undefinedVariable x)) source
  have hlists := congrArg String.toList h
  rw [hrest, hrest'] at hlists
  simp only [String.toList_append, List.append_assoc] at hlists
  have hnames := congrArg (List.take 3) (List.append_cancel_left hlists)
  rw [List.take_append_of_le_length err.le_length_name,
    List.take_append_of_le_length (Error.le_length_name _)] at hnames
  have hmissing := Error.take_name_eq_iff.mpr ⟨x, rfl⟩
  obtain ⟨y, rfl⟩ := Error.take_name_eq_iff.mp (hnames.trans hmissing)
  rw [render_undefinedVariable_inj h]

end Reports

namespace Session

/-- The source has no value in the session because the name is not bound. -/
def Misses (s : Session) (source name : String) : Prop :=
  calculate source s.environment = .error (.eval (.undefinedVariable name))

def Binds (s : Session) (name : String) : Prop := ∃ v, s.environment.get? name = some v

/-- A session goes on with lines of any kind and with tips that are followed: where the source misses a
name, the name is assigned the value of some source that has one. The names of the tips are listed, the
last one first. -/
inductive Follows (source : String) (s : Session) : List String → Session → Prop
  | start : Follows source s [] s
  | line {names : List String} {t : Session} (line : String) :
      Follows source s names t → Follows source s names (t.respond line).2
  | tip {names : List String} {t : Session} {name expression : String} {v : Float} :
      Follows source s names t → t.Misses source name →
      calculate expression t.environment = .ok v →
      Follows source s (name :: names) (t.respond (name ++ " = " ++ expression)).2

variable {s t : Session} {source name expression x : String} {v : Float} {names lines : List String}

/-- The report of a line without an equals sign says whether a name is missed, and which. -/
theorem respond_eq_report_iff (h : '=' ∉ source.toList) :
    (s.respond source).1 = .error (Report.render (.eval (.undefinedVariable name)) source) ↔
      s.Misses source name := by
  rw [respond_of_not_mem h, Misses]
  cases hvalue : calculate source s.environment with
  | ok v =>
    rw [evaluate_of_ok hvalue]
    exact ⟨nofun, nofun⟩
  | error err =>
    rw [evaluate_of_error hvalue]
    constructor
    · intro hreport
      rw [Report.eq_of_render_eq (Except.error.inj hreport)]
    · rintro ⟨⟩
      rfl

theorem Misses.not_binds (h : s.Misses source name) : ¬ s.Binds name := by
  rintro ⟨v, hv⟩
  rw [(unbound_of_calculate h).2] at hv
  cases hv

theorem Misses.nodup_cons (h : s.Misses source name) (hnodup : names.Nodup)
    (hbound : ∀ x ∈ names, s.Binds x) : (name :: names).Nodup :=
  hnodup.cons fun hmem => h.not_binds (hbound name hmem)

theorem Binds.respond (h : s.Binds x) (line : String) : (s.respond line).2.Binds x := by
  obtain ⟨v, hv⟩ := h
  by_cases hassigns : ∃ w, s.Assigns line x w
  · obtain ⟨w, hw⟩ := hassigns
    exact ⟨w, get?_respond.mpr (.inl hw)⟩
  · exact ⟨v, get?_respond.mpr (.inr ⟨not_exists.mp hassigns, hv⟩)⟩

theorem Binds.after (h : s.Binds x) (lines : List String) : (s.after lines).Binds x := by
  induction lines generalizing s with
  | nil => exact h
  | cons line lines ih => exact ih (h.respond line)

theorem Misses.assigns (h : s.Misses source name)
    (hvalue : calculate expression s.environment = .ok v) :
    s.Assigns (name ++ " = " ++ expression) name v := by
  have hspace : ∀ c ∈ " ".toList, isBlank c := List.all_eq_true.mp (by decide)
  have hname : IsVariable name := isVariable_of_mem_namesIn (unbound_of_calculate h).1
  exact assigns_of_calculate hname (calculate_behind_blanks hvalue hspace)

theorem Assigns.binds {line : String} (h : s.Assigns line name v) :
    (s.respond line).2.Binds name :=
  ⟨v, get?_respond.mpr (.inl h)⟩

/-- The tips are about different names of the source, all of which are bound. -/
theorem Follows.names_bound (h : s.Follows source names t) :
    names.Nodup ∧ ∀ x ∈ names, x ∈ namesIn source ∧ t.Binds x := by
  induction h with
  | start => simp
  | line line _ ih => exact ⟨ih.1, fun x hx => ⟨(ih.2 x hx).1, (ih.2 x hx).2.respond line⟩⟩
  | tip _ hmisses hvalue ih =>
    obtain ⟨hnodup, hbound⟩ := ih
    refine ⟨hmisses.nodup_cons hnodup fun x hx => (hbound x hx).2, ?_⟩
    intro x hx
    rcases List.mem_cons.mp hx with rfl | hx
    · exact ⟨(unbound_of_calculate hmisses).1, (hmisses.assigns hvalue).binds⟩
    · exact ⟨(hbound x hx).1, (hbound x hx).2.respond _⟩

theorem Follows.length_le (h : s.Follows source names t) :
    names.length ≤ (namesIn source).dedup.length := by
  obtain ⟨hnodup, hbound⟩ := h.names_bound
  exact hnodup.length_le_of_subset fun x hx => List.mem_dedup.mpr (hbound x hx).1

/-- As long as a name is missed, there were fewer tips than names. -/
theorem Follows.length_lt (h : s.Follows source names t) (hmisses : t.Misses source name) :
    names.length < (namesIn source).dedup.length := by
  obtain ⟨hnodup, hbound⟩ := h.names_bound
  have hnew : (name :: names).Nodup :=
    hmisses.nodup_cons hnodup fun x hx => (hbound x hx).2
  have hle : (name :: names).length ≤ (namesIn source).dedup.length := by
    apply hnew.length_le_of_subset
    rw [List.cons_subset, List.mem_dedup]
    exact ⟨(unbound_of_calculate hmisses).1, fun x hx => List.mem_dedup.mpr (hbound x hx).1⟩
  exact hle

/-- A source without an equals sign is reported to miss a name exactly if it does. The name can then be
assigned whatever has a value, and is not missed again. However that is repeated, and whatever lines
are run in between, it is done at most as often as the source has different names, and then none is
missed any more. -/
theorem tips_come_to_an_end (s : Session) (source : String) (hsource : '=' ∉ source.toList) :
    (∀ name, (s.respond source).1 =
        .error (Report.render (.eval (.undefinedVariable name)) source) ↔ s.Misses source name) ∧
      (∀ name expression v, s.Misses source name →
        calculate expression s.environment = .ok v →
        (s.respond (name ++ " = " ++ expression)).1 = .ok (name ++ " = " ++ Number.render v) ∧
          ∀ lines, ¬ ((s.respond (name ++ " = " ++ expression)).2.after lines).Misses source name) ∧
      ∀ names t, s.Follows source names t →
        names.length ≤ (namesIn source).dedup.length ∧
          (names.length = (namesIn source).dedup.length → ∀ name, ¬ t.Misses source name) := by
  refine ⟨fun name => respond_eq_report_iff hsource, ?_, ?_⟩
  · intro name expression v hmisses hvalue
    have hassigns := hmisses.assigns hvalue
    constructor
    · rw [hassigns.respond_eq]
      rfl
    · intro lines hagain
      exact hagain.not_binds (hassigns.binds.after lines)
  · intro names t hfollows
    refine ⟨hfollows.length_le, fun hall name hmisses => ?_⟩
    exact absurd hall (Nat.ne_of_lt (hfollows.length_lt hmisses))

/-- The source `x+y*x` misses `x` and then, with another line in between, `y`, which is assigned twice
the `x` of that line. After these two tips it misses nothing. -/
theorem tips_come_to_an_end_two_names :
    '=' ∉ "x+y*x".toList ∧ new.Misses "x+y*x" "x" ∧
      (new.respond ("x" ++ " = " ++ "2")).1 = .ok ("x" ++ " = " ++ Number.render 2) ∧
      ∃ t, new.Follows "x+y*x" ["y", "x"] t ∧ ∀ name, ¬ t.Misses "x+y*x" name := by
  have hsource : '=' ∉ "x+y*x".toList := by decide
  have hx : new.Misses "x+y*x" "x" := by
    rw [Misses]
    decide +kernel
  have htwo : calculate "2" new.environment = .ok 2 := by
    apply eq_ok_of_toOption
    decide +kernel
  have hfirst : new.Follows "x+y*x" ["x"]
      ((new.respond ("x" ++ " = " ++ "2")).2.respond "x = 5").2 :=
    .line "x = 5" (.tip .start hx htwo)
  have hy : ((new.respond ("x" ++ " = " ++ "2")).2.respond "x = 5").2.Misses "x+y*x" "y" := by
    rw [Misses]
    decide +kernel
  have hten : calculate "2*x" ((new.respond ("x" ++ " = " ++ "2")).2.respond "x = 5").2.environment =
      .ok 10 := by
    apply eq_ok_of_toOption
    decide +kernel
  have hsecond := hfirst.tip hy hten
  obtain ⟨-, hfollow, hcount⟩ := tips_come_to_an_end new "x+y*x" hsource
  exact ⟨hsource, hx, (hfollow "x" "2" 2 hx htwo).1, _, hsecond,
    (hcount _ _ hsecond).2 (by decide +kernel)⟩

end Session

end Reckon
