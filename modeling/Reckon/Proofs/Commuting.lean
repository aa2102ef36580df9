import Reckon.Proofs.Dependence

/-!
# Lines that commute

A line reads the names in its expression and writes the name that it assigns to, if it is an
assignment. What it is answered, and what it makes of a variable, depends on nothing but what the names
that it reads are bound to; and of all variables it can change only the one that it writes.

So lines do not notice one another as long as none writes what another one reads or writes. Each of
them is answered as if it were the first, the reports of errors included, and in whatever order they
are run, the session afterwards is the same.
-/
namespace Reckon

namespace Line

def name? : Line → Option String
  | .assignment name _ => some name
  | .expression _ | .badTarget _ => none

def names (l : Line) : List String :=
  match l.source? with
  | some source => namesIn source
  | none => []

/-- What the first line assigns to is neither assigned to nor read by the second. -/
def Spares (l m : Line) : Prop := ∀ x ∈ l.name?, x ∉ m.name? ∧ x ∉ m.names

instance (l m : Line) : Decidable (l.Spares m) :=
  inferInstanceAs (Decidable (∀ x ∈ l.name?, x ∉ m.name? ∧ x ∉ m.names))

/-- Neither line assigns to a name that the other one assigns to or reads. -/
structure Independent (text text' : String) : Prop where
  spares : (ofText text).Spares (ofText text')
  spared : (ofText text').Spares (ofText text)

theorem Independent.symm {text text' : String} (h : Independent text text') :
    Independent text' text :=
  ⟨h.spared, h.spares⟩

end Line

namespace Session

def AgreeOn (names : List String) (s t : Session) : Prop :=
  ∀ x ∈ names, s.environment.get? x = t.environment.get? x

section Lines
variable {s t : Session} {line text text' source x : String} {lines lines' : List String}

theorem eq_of_get? (h : ∀ x, s.environment.get? x = t.environment.get? x) : s = t := by
  cases s
  cases t
  exact congrArg Session.mk (Environment.ext_get? h)

theorem evaluate_congr (h : AgreeOn (namesIn source) s t) : s.evaluate source = t.evaluate source := by
  rw [evaluate, evaluate, calculate_congr h]

theorem respond_congr (h : AgreeOn (Line.ofText line).names s t) :
    (s.respond line).1 = (t.respond line).1 := by
  cases hline : Line.ofText line with
  | expression source =>
    rw [hline] at h
    rw [respond_of_expression hline, respond_of_expression hline, evaluate_congr h]
  | assignment name source =>
    rw [hline] at h
    have hsame := evaluate_congr h
    cases hvalue : t.evaluate source with
    | ok v =>
      rw [respond_of_assignment hline (hsame.trans hvalue), respond_of_assignment hline hvalue]
    | error report =>
      rw [respond_of_failed_assignment hline (hsame.trans hvalue),
        respond_of_failed_assignment hline hvalue]
  | badTarget target => rw [respond_of_badTarget hline, respond_of_badTarget hline]

/-- What a line makes of a variable depends only on the names that it reads and on the variable. -/
theorem get?_respond_congr (h : AgreeOn (Line.ofText line).names s t)
    (hx : s.environment.get? x = t.environment.get? x) :
    (s.respond line).2.environment.get? x = (t.respond line).2.environment.get? x := by
  cases hline : Line.ofText line with
  | expression source => rwa [respond_of_expression hline, respond_of_expression hline]
  | assignment name source =>
    rw [hline] at h
    have hsame := evaluate_congr h
    cases hvalue : t.evaluate source with
    | ok v =>
      rw [respond_of_assignment hline (hsame.trans hvalue), respond_of_assignment hline hvalue,
        Environment.get?_set, Environment.get?_set, hx]
    | error report =>
      rwa [respond_of_failed_assignment hline (hsame.trans hvalue),
        respond_of_failed_assignment hline hvalue]
  | badTarget target => rwa [respond_of_badTarget hline, respond_of_badTarget hline]

theorem get?_respond_of_not_mem (s : Session) (hx : x ∉ (Line.ofText line).name?) :
    (s.respond line).2.environment.get? x = s.environment.get? x := by
  cases hline : Line.ofText line with
  | expression source => rw [respond_of_expression hline]
  | assignment name source =>
    rw [hline] at hx
    have hne : x ≠ name := fun heq => hx (congrArg some heq.symm)
    cases hvalue : s.evaluate source with
    | ok v => rw [respond_of_assignment hline hvalue, Environment.get?_set, if_neg hne]
    | error report => rw [respond_of_failed_assignment hline hvalue]
  | badTarget target => rw [respond_of_badTarget hline]

/-- A line that spares another one is not noticed by it. -/
theorem agreeOn_respond (s : Session) (h : (Line.ofText text).Spares (Line.ofText text')) :
    AgreeOn (Line.ofText text').names (s.respond text).2 s := by
  intro x hx
  exact s.get?_respond_of_not_mem fun hname => (h x hname).2 hx

/-- Behind a line that spares it, a line makes of the other variables what it makes of them alone. -/
theorem get?_respond_respond (s : Session) (h : (Line.ofText text).Spares (Line.ofText text'))
    (hx : x ∉ (Line.ofText text).name?) :
    ((s.respond text).2.respond text').2.environment.get? x =
      (s.respond text').2.environment.get? x :=
  get?_respond_congr (s.agreeOn_respond h) (s.get?_respond_of_not_mem hx)

theorem respond_respond_comm (s : Session) (h : Line.Independent text text') :
    ((s.respond text).2.respond text').2 = ((s.respond text').2.respond text).2 := by
  apply eq_of_get?
  intro x
  by_cases hx : x ∈ (Line.ofText text).name?
  · have hx' : x ∉ (Line.ofText text').name? := (h.spares x hx).1
    rw [get?_respond_of_not_mem _ hx', s.get?_respond_respond h.spared hx']
  · rw [s.get?_respond_respond h.spares hx, get?_respond_of_not_mem _ hx]

/-- Independent lines are answered as if each were the first. -/
theorem answers_of_independent (s : Session) (h : lines.Pairwise Line.Independent) :
    s.answers lines = lines.map fun line => (s.respond line).1 := by
  induction lines generalizing s with
  | nil => rfl
  | cons text lines ih =>
    have hrest : ∀ text' ∈ lines, ((s.respond text).2.respond text').1 = (s.respond text').1 := by
      intro text' hmem
      exact respond_congr (s.agreeOn_respond (List.rel_of_pairwise_cons h hmem).spares)
    rw [answers, List.map_cons, ih _ h.of_cons, List.map_congr_left hrest]

theorem after_perm (hperm : lines.Perm lines') (s : Session)
    (h : lines.Pairwise Line.Independent) : s.after lines = s.after lines' := by
  induction hperm generalizing s with
  | nil => rfl
  | cons text _ ih => exact ih (s.respond text).2 h.of_cons
  | swap text text' lines =>
    have hpair : Line.Independent text' text := List.rel_of_pairwise_cons h List.mem_cons_self
    exact congrArg (after · lines) (s.respond_respond_comm hpair)
  | trans hperm _ ih ih' =>
    exact (ih s h).trans (ih' s ((hperm.pairwise_iff Line.Independent.symm).mp h))

/-- Two lines of which neither assigns to a name that the other one assigns to or reads have the same
answers in either order, namely those that they have alone, and lead to the same session. -/
theorem independent_lines_commute (s : Session) (text text' : String)
    (h : Line.Independent text text') :
    s.answers [text, text'] = [(s.respond text).1, (s.respond text').1] ∧
      s.answers [text', text] = [(s.respond text').1, (s.respond text).1] ∧
      s.after [text, text'] = s.after [text', text] := by
  have hpair : [text, text'].Pairwise Line.Independent := List.pairwise_pair.mpr h
  have hpair' : [text', text].Pairwise Line.Independent := List.pairwise_pair.mpr h.symm
  exact ⟨s.answers_of_independent hpair, s.answers_of_independent hpair',
    after_perm (.swap text' text []) s hpair⟩

/-- Where `x` is 4, `half = x / 2` and `x / 0` are answered `half = 2` and with a report in either
order. -/
theorem independent_lines_commute_half :
    Line.Independent "half = x / 2" "x / 0" ∧
      (new.after ["x = 4"]).answers ["half = x / 2", "x / 0"] =
        [.ok "half = 2", .error "Error: DivisionByZero\n"] ∧
      (new.after ["x = 4"]).answers ["x / 0", "half = x / 2"] =
        [.error "Error: DivisionByZero\n", .ok "half = 2"] ∧
      (new.after ["x = 4"]).after ["half = x / 2", "x / 0"] =
        (new.after ["x = 4"]).after ["x / 0", "half = x / 2"] := by
  have hindependent : Line.Independent "half = x / 2" "x / 0" :=
    ⟨by decide +kernel, by decide +kernel⟩
  have hhalf : ((new.after ["x = 4"]).respond "half = x / 2").1 = .ok "half = 2" := by
    decide +kernel
  have hzero : ((new.after ["x = 4"]).respond "x / 0").1 = .error "Error: DivisionByZero\n" := by
    decide +kernel
  obtain ⟨hanswers, hanswers', hafter⟩ :=
    independent_lines_commute (new.after ["x = 4"]) _ _ hindependent
  rw [hhalf, hzero] at hanswers hanswers'
  exact ⟨hindependent, hanswers, hanswers', hafter⟩

end Lines

end Session

end Reckon
