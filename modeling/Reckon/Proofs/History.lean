import Reckon.Session

/-!
# What a session remembers

A session is run line by line. A line either leaves the session as it was or assigns a value to one
name, and the session in front of the line decides which. So the variables of a session are the
names that some line has assigned, each with the value of the last line that did, and a line that
assigned nothing might as well not have been there: without it the other lines have the answers that
they have with it.

The value of an assignment is that of its expression in the session just before the line, where the
name may still have its old value.
-/
namespace Reckon
open Text

namespace Line
variable {text : String} {front source : List Char}

theorem ofText_of_not_mem (h : '=' ∉ text.toList) : ofText text = .expression text := by
  have hall : ∀ c ∈ text.toList, (c != '=') = true := by
    intro c hc
    exact bne_iff_ne.mpr fun he => h (he ▸ hc)
  have hrest : (text.toList ++ []).dropWhile (· != '=') = [].dropWhile (· != '=') :=
    List.dropWhile_append_of_pos hall
  rw [List.append_nil, List.dropWhile_nil] at hrest
  rw [ofText, hrest]

theorem ofText_of_append (htext : text.toList = front ++ '=' :: source) (hfront : '=' ∉ front) :
    ofText text =
      match target? (String.ofList front) with
      | some name => .assignment name (String.ofList source)
      | none => .badTarget (trim (String.ofList front)) := by
  have hall : ∀ c ∈ front, (c != '=') = true := by
    intro c hc
    exact bne_iff_ne.mpr fun he => hfront (he ▸ hc)
  have htake : text.toList.takeWhile (· != '=') = front := by
    rw [htext, List.takeWhile_append_of_pos hall, List.takeWhile_cons_of_neg (by simp),
      List.append_nil]
  have hdrop : text.toList.dropWhile (· != '=') = '=' :: source := by
    rw [htext, List.dropWhile_append_of_pos hall, List.dropWhile_cons_of_neg (by simp)]
  cases htarget : target? (String.ofList front) <;> simp only [ofText, htake, hdrop, htarget]

end Line

namespace Session

def after (s : Session) (lines : List String) : Session :=
  lines.foldl (fun s line => (s.respond line).2) s

def answers (s : Session) : List String → List (Except String String)
  | [] => []
  | line :: rest => (s.respond line).1 :: (s.respond line).2.answers rest

/-- The line assigns the value to the name: the name stands in front of the first equals sign, and
behind it an expression that has the value in the session. -/
def Assigns (s : Session) (line name : String) (v : Float) : Prop :=
  ∃ front source, line.toList = front ++ '=' :: source ∧ '=' ∉ front ∧
    Line.target? (String.ofList front) = some name ∧
    calculate (String.ofList source) s.environment = .ok v

/-- The line is answered with an error or has no equals sign. -/
def Idle (s : Session) (line : String) : Prop :=
  (∃ report, (s.respond line).1 = .error report) ∨ '=' ∉ line.toList

def NeverAssigns (s : Session) (lines : List String) (name : String) : Prop :=
  ∀ before line later, lines = before ++ line :: later →
    ∀ v, ¬ (s.after before).Assigns line name v

def LastAssigns (s : Session) (lines : List String) (name : String) (v : Float) : Prop :=
  ∃ before line later, lines = before ++ line :: later ∧ (s.after before).Assigns line name v ∧
    (s.after (before ++ [line])).NeverAssigns later name

section Lines
variable {s : Session} {line name source x : String} {v w : Float} {before later lines : List String}

theorem respond_of_expression (h : Line.ofText line = .expression source) :
    s.respond line = ((s.evaluate source).map Number.render, s) := by
  rw [respond, h]
  cases hvalue : s.evaluate source <;> simp only [hvalue] <;> rfl

theorem respond_of_assignment (h : Line.ofText line = .assignment name source)
    (hvalue : s.evaluate source = .ok v) :
    s.respond line = (.ok (s!"{name} = " ++ Number.render v), ⟨s.environment.set name v⟩) := by
  rw [respond, h]
  simp only [hvalue]

theorem respond_of_failed_assignment {report : String}
    (h : Line.ofText line = .assignment name source) (hvalue : s.evaluate source = .error report) :
    s.respond line = (.error report, s) := by
  rw [respond, h]
  simp only [hvalue]

theorem respond_of_badTarget {target : String} (h : Line.ofText line = .badTarget target) :
    s.respond line = (.error s!"Error: cannot assign to `{target}`\n", s) := by
  rw [respond, h]

theorem evaluate_of_ok (h : calculate source s.environment = .ok v) : s.evaluate source = .ok v := by
  rw [evaluate, h]
  rfl

theorem evaluate_of_error {err : Error} (h : calculate source s.environment = .error err) :
    s.evaluate source = .error (Report.render err source) := by
  rw [evaluate, h]
  rfl

theorem respond_of_not_mem (h : '=' ∉ line.toList) :
    s.respond line = ((s.evaluate line).map Number.render, s) :=
  respond_of_expression (Line.ofText_of_not_mem h)

theorem Assigns.respond_eq (h : s.Assigns line name v) :
    s.respond line = (.ok (s!"{name} = " ++ Number.render v), ⟨s.environment.set name v⟩) := by
  obtain ⟨front, source, hline, hfront, htarget, hvalue⟩ := h
  have hparts := Line.ofText_of_append hline hfront
  rw [htarget] at hparts
  exact respond_of_assignment hparts (evaluate_of_ok hvalue)

theorem idle_or_assigns (s : Session) (line : String) :
    s.Idle line ∧ (s.respond line).2 = s ∨ ∃ name v, s.Assigns line name v := by
  by_cases hmem : '=' ∈ line.toList
  · obtain ⟨front, source, hline, hfront⟩ := List.eq_append_cons_of_mem hmem
    have hparts := Line.ofText_of_append hline hfront
    cases htarget : Line.target? (String.ofList front) with
    | none =>
      rw [htarget] at hparts
      rw [Idle, respond_of_badTarget hparts]
      exact .inl ⟨.inl ⟨_, rfl⟩, rfl⟩
    | some name =>
      rw [htarget] at hparts
      cases hvalue : calculate (String.ofList source) s.environment with
      | ok v => exact .inr ⟨name, v, front, source, hline, hfront, htarget, hvalue⟩
      | error err =>
        rw [Idle, respond_of_failed_assignment hparts (evaluate_of_error hvalue)]
        exact .inl ⟨.inl ⟨_, rfl⟩, rfl⟩
  · rw [respond_of_not_mem hmem]
    exact .inl ⟨.inr hmem, rfl⟩

theorem Assigns.not_idle (h : s.Assigns line name v) : ¬ s.Idle line := by
  rintro (⟨report, herror⟩ | hmem)
  · rw [h.respond_eq] at herror
    cases herror
  · obtain ⟨front, source, hline, -⟩ := h
    exact hmem (by simp [hline])

theorem Idle.respond_snd (h : s.Idle line) : (s.respond line).2 = s := by
  rcases s.idle_or_assigns line with ⟨-, hsame⟩ | ⟨name, v, hassigns⟩
  · exact hsame
  · exact absurd h hassigns.not_idle

theorem idle_iff : s.Idle line ↔ ∀ name v, ¬ s.Assigns line name v := by
  constructor
  · intro hidle name v hassigns
    exact hassigns.not_idle hidle
  · intro hnothing
    rcases s.idle_or_assigns line with ⟨hidle, -⟩ | ⟨name, v, hassigns⟩
    · exact hidle
    · exact absurd hassigns (hnothing name v)

theorem Assigns.unique (h : s.Assigns line name v) (h' : s.Assigns line x w) :
    name = x ∧ v = w := by
  obtain ⟨front, source, hline, hfront, htarget, hvalue⟩ := h
  obtain ⟨front', source', hline', hfront', htarget', hvalue'⟩ := h'
  have hparts := Line.ofText_of_append hline hfront
  rw [Line.ofText_of_append hline' hfront', htarget, htarget'] at hparts
  obtain ⟨hname, hsource⟩ := Line.assignment.inj hparts
  rw [hsource] at hvalue'
  exact ⟨hname.symm, Except.ok.inj (hvalue.symm.trans hvalue')⟩

/-- What one line makes of a variable. -/
theorem get?_respond :
    (s.respond line).2.environment.get? x = some v ↔
      s.Assigns line x v ∨ (∀ w, ¬ s.Assigns line x w) ∧ s.environment.get? x = some v := by
  rcases s.idle_or_assigns line with ⟨hidle, hsame⟩ | ⟨name, w, hassigns⟩
  · have hnever : ∀ w, ¬ s.Assigns line x w := fun w hw => hw.not_idle hidle
    simp [hsame, hnever]
  · rw [hassigns.respond_eq, Environment.get?_set]
    by_cases hx : x = name
    · subst hx
      rw [if_pos rfl]
      constructor
      · rintro ⟨⟩
        exact .inl hassigns
      · rintro (h | ⟨h, -⟩)
        · rw [(hassigns.unique h).2]
        · exact absurd hassigns (h w)
    · have hnever : ∀ u, ¬ s.Assigns line x u := fun u hu => hx (hu.unique hassigns).1
      simp [hx, hnever]

theorem neverAssigns_cons :
    s.NeverAssigns (line :: lines) x ↔
      (∀ v, ¬ s.Assigns line x v) ∧ (s.respond line).2.NeverAssigns lines x := by
  constructor
  · intro h
    refine ⟨h [] line lines rfl, ?_⟩
    rintro before other later rfl
    exact h (line :: before) other later rfl
  · rintro ⟨hline, hrest⟩ (_ | ⟨first, before⟩) other later hlines
    · cases hlines
      exact hline
    · cases hlines
      exact hrest before other later rfl

theorem lastAssigns_cons :
    s.LastAssigns (line :: lines) x v ↔
      s.Assigns line x v ∧ (s.respond line).2.NeverAssigns lines x ∨
        (s.respond line).2.LastAssigns lines x v := by
  constructor
  · rintro ⟨_ | ⟨first, before⟩, other, later, hlines, hassigns, hnever⟩
    · cases hlines
      exact .inl ⟨hassigns, hnever⟩
    · cases hlines
      exact .inr ⟨before, other, later, rfl, hassigns, hnever⟩
  · rintro (⟨hassigns, hnever⟩ | ⟨before, other, later, rfl, hassigns, hnever⟩)
    · exact ⟨[], line, lines, rfl, hassigns, hnever⟩
    · exact ⟨line :: before, other, later, rfl, hassigns, hnever⟩

theorem get?_after :
    (s.after lines).environment.get? x = some v ↔
      s.LastAssigns lines x v ∨ s.NeverAssigns lines x ∧ s.environment.get? x = some v := by
  induction lines generalizing s with
  | nil =>
    have hlast : ¬ s.LastAssigns [] x v := by
      rintro ⟨before, line, later, hlines, -⟩
      simp at hlines
    have hnever : s.NeverAssigns [] x := by
      intro before line later hlines
      simp at hlines
    simp [after, hlast, hnever]
  | cons line rest ih =>
    have hcons : s.after (line :: rest) = (s.respond line).2.after rest := rfl
    rw [hcons, ih, get?_respond, lastAssigns_cons, neverAssigns_cons]
    grind

/-- A line that leaves the session as it was makes no difference to the others. -/
theorem answers_of_respond_snd (h : ((s.after before).respond line).2 = s.after before) :
    s.answers (before ++ later) = (s.answers (before ++ line :: later)).eraseIdx before.length ∧
      s.after (before ++ later) = s.after (before ++ line :: later) := by
  induction before generalizing s with
  | nil =>
    have hsame : (s.respond line).2 = s := h
    simp [answers, after, hsame]
  | cons first before ih =>
    obtain ⟨hanswers, hafter⟩ := ih h
    exact ⟨congrArg ((s.respond first).1 :: ·) hanswers, hafter⟩

/-- A session has the variables that its lines have assigned, each with the value that the last line
to assign it found. The lines that are not idle are those that assign, and an idle line makes no
difference to the session nor to what the other lines are answered. -/
theorem environment_eq_history (lines : List String) :
    (∀ x v, (new.after lines).environment.get? x = some v ↔ new.LastAssigns lines x v) ∧
      ∀ before line later, lines = before ++ line :: later →
        ((new.after before).Idle line ↔ ∀ x v, ¬ (new.after before).Assigns line x v) ∧
        ((new.after before).Idle line →
          ((new.after before).respond line).2 = new.after before ∧
          new.answers (before ++ later) = (new.answers lines).eraseIdx before.length ∧
          new.after (before ++ later) = new.after lines) := by
  constructor
  · intro x v
    have hempty : new.environment.get? x ≠ some v := by simp [new]
    rw [get?_after]
    simp [hempty]
  · intro before line later hlines
    refine ⟨idle_iff, fun hidle => ?_⟩
    rw [hlines]
    exact ⟨hidle.respond_snd, answers_of_respond_snd hidle.respond_snd⟩

end Lines

end Session

end Reckon
