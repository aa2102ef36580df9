import Reckon.Calculation
import Reckon.Report

/-!
# Sessions

A session takes one line after another and remembers the variables assigned. A line with an equals
sign assigns the value of what follows the first one to the name in front of it; any other line is
an expression to evaluate. A line that fails leaves the session as it was.

`Session.respond` gives the text of every answer and of every report. The program breaks off at a line
whose report cannot be drawn, and `Session.attempt` says where; variables have no part in it.
-/
namespace Reckon
open Text

/-- What a line asks for. -/
inductive Line where
  | expression (source : String)
  | assignment (name source : String)
  /-- An assignment to something that is not a name. -/
  | badTarget (target : String)
deriving DecidableEq, Repr

namespace Line

/-- The name in front of an equals sign: a text that is one name and nothing else. -/
def target? (text : String) : Option String :=
  match tokenize text with
  | .ok [name, stop] =>
    if name.kind = .identifier ∧ stop.kind = .eof then some name.lexeme else none
  | _ => none

def ofText (text : String) : Line :=
  let front := text.toList.takeWhile (· != '=')
  match text.toList.dropWhile (· != '=') with
  | [] => .expression text
  | _ :: source =>
    match target? (String.ofList front) with
    | some name => .assignment name (String.ofList source)
    | none => .badTarget (trim (String.ofList front))

/-- The source of the expression that a line evaluates, if it comes to that. -/
def source? : Line → Option String
  | .expression source | .assignment _ source => some source
  | .badTarget _ => none

/-- Whether the source of the line spells no expression and the report of that cannot be drawn. -/
def breaksOff (line : Line) : Bool :=
  match line.source? with
  | none => false
  | some source =>
    match readExpr source with
    | .ok _ => false
    | .error e => !decide (Report.Drawable e source)

theorem breaksOff_of_error {line : Line} {source : String} {e : Error}
    (hsource : line.source? = some source) (hread : readExpr source = .error e) :
    line.breaksOff = !decide (Report.Drawable e source) := by
  simp [breaksOff, hsource, hread]

end Line

structure Session where
  environment : Environment
deriving DecidableEq

namespace Session

def new : Session := ⟨.empty⟩

/-- The value of a source in the session, or the report of the error. -/
def evaluate (s : Session) (source : String) : Except String Float :=
  (calculate source s.environment).mapError fun e => Report.render e source

/-- Runs one line: the text to show, or the report of the error, and the session afterwards. -/
def respond (s : Session) (text : String) : Except String String × Session :=
  match Line.ofText text with
  | .expression source =>
    match s.evaluate source with
    | .ok x => (.ok (Number.render x), s)
    | .error report => (.error report, s)
  | .assignment name source =>
    match s.evaluate source with
    | .ok x => (.ok (s!"{name} = " ++ Number.render x), ⟨s.environment.set name x⟩)
    | .error report => (.error report, s)
  | .badTarget target => (.error s!"Error: cannot assign to `{target}`\n", s)

/-- The value of a source in the session, or the report of the error, if it can be drawn. -/
def evaluate? (s : Session) (source : String) : Option (Except String Float) :=
  match calculate source s.environment with
  | .ok x => some (.ok x)
  | .error e => (Report.render? e source).map .error

/-- Runs one line, if the report that it may come to can be drawn. -/
def attempt (s : Session) (text : String) : Option (Except String String × Session) :=
  match (Line.ofText text).source? with
  | none => some (s.respond text)
  | some source => (s.evaluate? source).map fun _ => s.respond text

theorem evaluate?_of_readExpr_ok {s : Session} {source : String} {tree : Expr}
    (h : readExpr source = .ok tree) : s.evaluate? source = some (s.evaluate source) := by
  rw [evaluate?, evaluate, calculate_eq_eval h]
  cases tree.eval s.environment with
  | ok x => rfl
  | error cause =>
    have hdrawable := Report.drawable_of_no_position (e := .eval cause) rfl source
    simp [Report.render?, hdrawable]

/-- The session has no say in whether the program breaks off at a line. -/
theorem attempt_eq (s : Session) (text : String) :
    s.attempt text = if (Line.ofText text).breaksOff then none else some (s.respond text) := by
  cases hsource : (Line.ofText text).source? with
  | none => simp [attempt, Line.breaksOff, hsource]
  | some source =>
    cases hread : readExpr source with
    | ok tree =>
      have hgoes : (Line.ofText text).breaksOff = false := by
        simp [Line.breaksOff, hsource, hread]
      simp [attempt, hsource, evaluate?_of_readExpr_ok hread, hgoes]
    | error e =>
      have hbreaks := Line.breaksOff_of_error hsource hread
      have hcalculate := calculate_eq_error hread s.environment
      by_cases hdrawable : Report.Drawable e source <;>
        simp [attempt, hsource, evaluate?, hcalculate, Report.render?, hbreaks, hdrawable]

end Session

end Reckon
