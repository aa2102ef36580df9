import Reckon.Proofs.Conversation

/-!
# Verbosity

A verbose run does what a plain one does and shows more of it. What happens in a run (prompts, lines
with what comes of them, a line that the program breaks off at, bytes that are refused) depends on the words of the command line and on the
input, and so does the status the run ends with; the flags are not looked at. What a run writes is a
log of its events, each with its writes, and only the log differs: in a verbose run what is shown of a
line stands in front of what is said about it in every run.
-/
namespace Reckon.Shell
open Text

inductive Sink where
  | stdout
  | stderr
deriving DecidableEq, Repr

structure Write where
  sink : Sink
  text : String
deriving DecidableEq, Repr

/-- All that some writes, one after another, bring to a stream. -/
def Sink.received (sink : Sink) (log : List Write) : String :=
  String.join ((log.filter (·.sink = sink)).map Write.text)

@[simp] theorem Sink.received_nil (sink : Sink) : sink.received [] = "" := rfl

@[simp] theorem Sink.received_append (sink : Sink) (log log' : List Write) :
    sink.received (log ++ log') = sink.received log ++ sink.received log' := by
  simp [received]

theorem Sink.received_cons (sink : Sink) (w : Write) (log : List Write) :
    sink.received (w :: log) = (if w.sink = sink then w.text else "") ++ sink.received log := by
  by_cases h : w.sink = sink <;> simp [received, h]

/-- What is shown of a source: the tokens, if it can be scanned, and then the tree, if they spell one. -/
def exhibit (source : String) : List Write :=
  match tokenize source with
  | .error _ => []
  | .ok tokens =>
    ⟨.stdout, "Tokens: " ++ Token.listing tokens ++ "\n"⟩ ::
      match Expr.parse tokens with
      | .error _ => []
      | .ok tree => [⟨.stdout, "AST: " ++ tree.render ++ "\n"⟩]

theorem stderr_received_exhibit (source : String) : Sink.stderr.received (exhibit source) = "" := by
  unfold exhibit
  cases tokenize source with
  | error => rfl
  | ok tokens => cases hparse : Expr.parse tokens <;> simp [Sink.received, hparse]

theorem stdout_received_exhibit (source : String) :
    Sink.stdout.received (exhibit source) =
      String.join ((stages source).map fun shown => shown ++ "\n") := by
  unfold exhibit stages
  cases tokenize source with
  | error => rfl
  | ok tokens => cases hparse : Expr.parse tokens <;> simp [Sink.received, hparse]

/-- What a verbose run shows of a line: its source, if it comes to that. -/
def display (text : String) : List Write :=
  match (Line.ofText text).source? with
  | none => []
  | some source => exhibit source

theorem stderr_received_display (text : String) : Sink.stderr.received (display text) = "" := by
  cases hsource : (Line.ofText text).source? with
  | none => simp [display, hsource]
  | some source => simp [display, hsource, stderr_received_exhibit]

theorem stdout_received_display (text : String) :
    Sink.stdout.received (display text) = trace true text := by
  cases hsource : (Line.ofText text).source? with
  | none => simp [display, trace, hsource]
  | some source => simp [display, trace, hsource, stdout_received_exhibit]

/-- Something that happens in a run. -/
inductive Event where
  | prompt
  /-- A line is run, and an answer or the report of an error comes of it. -/
  | line (text : String) (outcome : Except String String)
  /-- A line is run, and the program breaks off. -/
  | crash (text notice : String)
  /-- Bytes that are no text are refused. -/
  | garbled
deriving Repr

namespace Event

/-- What every run writes when the event happens. -/
def said : Event → List Write
  | prompt => [⟨.stdout, Shell.prompt⟩]
  | line _ (.ok answer) => [⟨.stdout, answer ++ "\n"⟩]
  | line _ (.error report) => [⟨.stderr, report⟩]
  | crash _ notice => [⟨.stderr, notice⟩]
  | garbled => [⟨.stderr, undecodable⟩]

/-- What only a verbose run writes, and writes first. -/
def shown : Event → List Write
  | line text _ | crash text _ => display text
  | prompt | garbled => []

def writes (verbose : Bool) (e : Event) : List Write :=
  if verbose then e.shown ++ e.said else e.said

theorem stderr_received_writes (verbose : Bool) (e : Event) :
    Sink.stderr.received (e.writes verbose) = Sink.stderr.received e.said := by
  have hshown : Sink.stderr.received e.shown = "" := by
    cases e with
    | prompt | garbled => rfl
    | line text | crash text => exact stderr_received_display text
  cases verbose <;> simp [writes, hshown]

theorem stdout_received_writes {text : String} {e : Event} (h : e.shown = display text)
    (verbose : Bool) :
    Sink.stdout.received (e.writes verbose) =
      trace verbose text ++ Sink.stdout.received e.said := by
  cases verbose with
  | false => simp [writes, trace]
  | true => simp [writes, h, stdout_received_display]

end Event

/-- What happens in a run, and the status that it ends with. -/
structure Course where
  events : List Event
  status : Nat

namespace Course

def after (events : List Event) (c : Course) : Course := { c with events := events ++ c.events }

def log (verbose : Bool) (c : Course) : List Write := c.events.flatMap (Event.writes verbose)

/-- What is left behind by a run that takes this course. -/
def transcript (verbose : Bool) (c : Course) : Transcript :=
  ⟨Sink.stdout.received (c.log verbose), Sink.stderr.received (c.log verbose), c.status⟩

theorem transcript_after (verbose : Bool) (events : List Event) (c : Course) :
    (c.after events).transcript verbose =
      (c.transcript verbose).after
        (Sink.stdout.received (events.flatMap (Event.writes verbose)))
        (Sink.stderr.received (events.flatMap (Event.writes verbose))) := by
  simp [transcript, after, log, Transcript.after]

theorem stderr_received_log (verbose : Bool) (c : Course) :
    Sink.stderr.received (c.log verbose) = Sink.stderr.received (c.events.flatMap Event.said) := by
  unfold log
  induction c.events with
  | nil => rfl
  | cons e events ih => simp [Event.stderr_received_writes, ih]

end Course

section Lines
variable {session next : Session} {text : String} {outcome : Except String String}

theorem reply_of_attempt_none (h : session.attempt text = none) (notice : String) (verbose : Bool) :
    reply notice verbose session text =
      ⟨Sink.stdout.received ((Event.crash text notice).writes verbose),
        Sink.stderr.received ((Event.crash text notice).writes verbose), crashStatus, none⟩ := by
  rw [Event.stdout_received_writes rfl, Event.stderr_received_writes, reply, h]
  simp [Event.said, Sink.received]

theorem reply_of_attempt_some (h : session.attempt text = some (outcome, next)) (notice : String)
    (verbose : Bool) :
    reply notice verbose session text =
      ⟨Sink.stdout.received ((Event.line text outcome).writes verbose),
        Sink.stderr.received ((Event.line text outcome).writes verbose),
        if outcome.isOk then 0 else 1, some next⟩ := by
  rw [Event.stdout_received_writes rfl, Event.stderr_received_writes, reply, h]
  cases outcome with
  | error report => simp [Event.said, Sink.received, Except.isOk, Except.toBool]
  | ok answer => simp [Event.said, Sink.received, Except.isOk, Except.toBool, String.append_assoc]

end Lines

/-- The course of a conversation over these pieces of the input. -/
def converse (notice : String) (session : Session) : List (List UInt8) → Course
  | [] => ⟨[.prompt], 0⟩
  | piece :: rest =>
    match Request.ofBytes piece with
    | .garbled => ⟨[.prompt, .garbled], 1⟩
    | .farewell => ⟨[.prompt], 0⟩
    | .nothing => (converse notice session rest).after [.prompt]
    | .line text =>
      match session.attempt text with
      | none => ⟨[.prompt, .crash text notice], crashStatus⟩
      | some (outcome, next) =>
        (converse notice next rest).after [.prompt, .line text outcome]

def course (arguments : List String) (stdin : List UInt8) (notice : String) : Course :=
  match arguments.filter fun a => !isVerboseFlag a with
  | [] => converse notice .new (cutAfter isNewline stdin)
  | word :: words =>
    let text := " ".intercalate (word :: words)
    match Session.new.attempt text with
    | none => ⟨[.crash text notice], crashStatus⟩
    | some (outcome, _) => ⟨[.line text outcome], if outcome.isOk then 0 else 1⟩

theorem interact_eq_transcript (notice : String) (verbose : Bool) (session : Session)
    (pieces : List (List UInt8)) :
    interact notice verbose session pieces =
      (converse notice session pieces).transcript verbose := by
  induction pieces generalizing session with
  | nil => cases verbose <;> rfl
  | cons piece rest ih =>
    rw [interact, turn_eq, converse]
    cases Request.ofBytes piece with
    | garbled | farewell => cases verbose <;> rfl
    | nothing =>
      dsimp only
      rw [ih, Course.transcript_after]
      cases verbose <;> rfl
    | line text =>
      dsimp only
      cases hattempt : session.attempt text with
      | none =>
        rw [reply_of_attempt_none hattempt]
        cases verbose <;>
          simp [Turn.ofReply, Course.transcript, Course.log, Event.writes, Event.shown, Event.said,
            Sink.received_cons]
      | some answer =>
        obtain ⟨outcome, next⟩ := answer
        rw [reply_of_attempt_some hattempt]
        dsimp only [Turn.ofReply]
        rw [ih, Course.transcript_after]
        cases verbose <;> simp [Event.writes, Event.shown, Event.said, Sink.received_cons]

/-- A run leaves behind what its course says, of which it shows more if there is a flag. -/
theorem run_eq_transcript (arguments : List String) (stdin : List UInt8) (notice : String) :
    run arguments stdin notice =
      (course arguments stdin notice).transcript (arguments.any isVerboseFlag) := by
  unfold run course Command.ofArguments
  dsimp only
  cases arguments.filter fun a => !isVerboseFlag a with
  | nil => exact interact_eq_transcript ..
  | cons word words =>
    dsimp only [List.isEmpty_cons]
    rw [if_neg Bool.false_ne_true]
    cases hattempt : Session.new.attempt (" ".intercalate (word :: words)) with
    | none =>
      rw [reply_of_attempt_none hattempt]
      simp [Course.transcript, Course.log]
    | some answer =>
      rw [reply_of_attempt_some hattempt]
      simp [Course.transcript, Course.log]

/-- The second list is the first with flags put in, any number of them at any places. -/
inductive Flagged : List String → List String → Prop
  | nil : Flagged [] []
  | keep (argument : String) {as bs : List String} :
    Flagged as bs → Flagged (argument :: as) (argument :: bs)
  | insert {flag : String} {as bs : List String} :
    isVerboseFlag flag → Flagged as bs → Flagged as (flag :: bs)

variable {arguments flagged : List String}

theorem Flagged.filter_eq (h : Flagged arguments flagged) :
    (flagged.filter fun a => !isVerboseFlag a) = arguments.filter fun a => !isVerboseFlag a := by
  induction h with
  | nil => rfl
  | keep argument _ ih => rw [List.filter_cons, List.filter_cons, ih]
  | insert hflag _ ih => rw [List.filter_cons_of_neg (by simp [hflag]), ih]

theorem Flagged.course_eq (h : Flagged arguments flagged) (stdin : List UInt8) (notice : String) :
    course flagged stdin notice = course arguments stdin notice := by
  rw [course, h.filter_eq]
  rfl

/-- Flags, wherever they are put among the arguments, change neither the status nor what is written to
standard error. What happens in the run is the same, and what is written about it too; a run with a flag
only shows more of every line, in front of what comes of it. -/
theorem run_of_flagged (h : Flagged arguments flagged) (stdin : List UInt8) (notice : String) :
    (run flagged stdin notice).status = (run arguments stdin notice).status ∧
      (run flagged stdin notice).stderr = (run arguments stdin notice).stderr ∧
      run arguments stdin notice =
        (course arguments stdin notice).transcript (arguments.any isVerboseFlag) ∧
      run flagged stdin notice =
        (course arguments stdin notice).transcript (flagged.any isVerboseFlag) := by
  have hflagged := run_eq_transcript flagged stdin notice
  rw [h.course_eq] at hflagged
  have hplain := run_eq_transcript arguments stdin notice
  refine ⟨?_, ?_, hplain, hflagged⟩
  · rw [hflagged, hplain]
    rfl
  · rw [hflagged, hplain]
    exact (Course.stderr_received_log _ _).trans (Course.stderr_received_log _ _).symm

/-- A flag between two words shows the tokens and the tree of their line, and the error is the same. -/
theorem run_of_flagged_unknown_name :
    Flagged ["2", "* x"] ["2", "--verbose", "* x"] ∧
      (run ["2", "--verbose", "* x"] []).status = 1 ∧
      (run ["2", "--verbose", "* x"] []).stderr = (run ["2", "* x"] []).stderr ∧
      (run ["2", "* x"] []).stdout = "" ∧
      (run ["2", "--verbose", "* x"] []).stdout =
        "Tokens: Number(2) Operator(*) Identifier(x) EOF\nAST: (2 * x)\n" := by
  have hflagged : Flagged ["2", "* x"] ["2", "--verbose", "* x"] :=
    .keep _ (.insert (by decide) (.keep _ .nil))
  obtain ⟨hstatus, hstderr, hplain, hverbose⟩ := run_of_flagged hflagged [] ""
  refine ⟨hflagged, ?_, hstderr, ?_, ?_⟩
  · rw [hstatus, hplain]
    decide +kernel
  · rw [hplain]
    decide +kernel
  · rw [hverbose]
    decide +kernel

end Reckon.Shell
