import Reckon.Session

/-!
# The shell

The program evaluates the words of its command line, or, if there are none, the lines of its
standard input one by one after a prompt. The flags `-v` and `--verbose`, wherever they stand, ask
for the tokens and the expression of everything that is evaluated.

All that the program prints is computed here from the arguments and the bytes of the input. A line
of the input is cut behind its newline byte before it is decoded, so bytes that are no text spoil
only the line that they are in, and nothing behind a line that ends the program is looked at.

A line whose report cannot be drawn ends the program as well: it breaks off with a notice of the
run-time system in place of the report. The wording of the notice is not the program's, so it is a
parameter. That the program has the memory, the stack and the streams that it needs is taken for
granted.
-/
namespace Reckon.Shell
open Text

/-- What a run of the program leaves behind. -/
structure Transcript where
  stdout : String
  stderr : String
  /-- The exit status. -/
  status : Nat
deriving DecidableEq, Repr

/-- The transcript of a run that has already printed something. -/
def Transcript.after (stdout stderr : String) (t : Transcript) : Transcript :=
  { t with stdout := stdout ++ t.stdout, stderr := stderr ++ t.stderr }

/-- What the arguments of the command line ask for. -/
structure Command where
  verbose : Bool
  /-- The expression's words, if it stands on the command line. -/
  words : List String
deriving DecidableEq, Repr

def isVerboseFlag (argument : String) : Bool := argument == "-v" || argument == "--verbose"

def Command.ofArguments (arguments : List String) : Command :=
  ⟨arguments.any isVerboseFlag, arguments.filter fun a => !isVerboseFlag a⟩

/-- What is printed to standard output before the answer to a line. -/
def trace (verbose : Bool) (line : String) : String :=
  if verbose then
    String.join (((Line.ofText line).source?.elim [] stages).map fun shown => shown ++ "\n")
  else ""

def crashStatus : Nat := 101

/-- What a line has printed to standard output and to standard error. -/
structure Reply where
  stdout : String
  stderr : String
  /-- The exit status, if the line is all there is to run. -/
  status : Nat
  /-- The session afterwards, unless the program has broken off. -/
  next? : Option Session

def reply (notice : String) (verbose : Bool) (session : Session) (line : String) : Reply :=
  match session.attempt line with
  | none => ⟨trace verbose line, notice, crashStatus, none⟩
  | some (.ok text, next) => ⟨trace verbose line ++ text ++ "\n", "", 0, some next⟩
  | some (.error report, next) => ⟨trace verbose line, report, 1, some next⟩

def prompt : String := "> "

def undecodable : String := "Failed to read input: stream did not contain valid UTF-8\n"

/-- What a line of input leads to. -/
inductive Turn where
  /-- The program prints something and ends. -/
  | stop (stdout stderr : String) (status : Nat)
  /-- The program prints something and goes on. -/
  | go (stdout stderr : String) (next : Session)

def Turn.ofReply (r : Reply) : Turn :=
  match r.next? with
  | none => .stop r.stdout r.stderr r.status
  | some next => .go r.stdout r.stderr next

def turn (notice : String) (verbose : Bool) (session : Session) (bytes : List UInt8) : Turn :=
  match String.fromUTF8? ⟨bytes.toArray⟩ with
  | none => .stop "" undecodable 1
  | some text =>
    let line := trim text
    if line.isEmpty then .go "" "" session
    else if line = "exit" ∨ line = "quit" then .stop "" "" 0
    else .ofReply (reply notice verbose session line)

/-- Takes the lines of the input one by one, with a prompt before each and before its end. -/
def interact (notice : String) (verbose : Bool) (session : Session) :
    List (List UInt8) → Transcript
  | [] => ⟨prompt, "", 0⟩
  | bytes :: rest =>
    match turn notice verbose session bytes with
    | .stop stdout stderr status => ⟨prompt ++ stdout, stderr, status⟩
    | .go stdout stderr next =>
      (interact notice verbose next rest).after (prompt ++ stdout) stderr

def isNewline (byte : UInt8) : Bool := byte == 10

/-- Runs the program on its arguments and the bytes of its standard input. If it breaks off, the
run-time system says so with the notice. -/
def run (arguments : List String) (stdin : List UInt8) (notice : String := "") : Transcript :=
  let command := Command.ofArguments arguments
  if command.words.isEmpty then
    interact notice command.verbose .new (cutAfter isNewline stdin)
  else
    let r := reply notice command.verbose .new (" ".intercalate command.words)
    ⟨r.stdout, r.stderr, r.status⟩

end Reckon.Shell
