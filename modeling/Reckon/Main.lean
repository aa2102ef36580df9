import Reckon.Shell

/-!
# The program

The shell at work: bytes are read up to the next newline, the shell takes its turn, and what the
turn prints is written before the next bytes are read.
-/
namespace Reckon.Main

/-- The bytes up to and with the next newline, or up to the end of the input. -/
partial def readLine (input : IO.FS.Stream) (line : Array UInt8) : IO (Array UInt8) := do
  let bytes ← input.read 1
  match bytes.data[0]? with
  | none => return line
  | some byte =>
    if Shell.isNewline byte then return line.push byte
    else readLine input (line.push byte)

/-- What is said when the program breaks off. -/
def notice : String := "Formatting argument out of range\n"

/-- Takes turns until the shell stops or the input ends. -/
partial def converse (verbose : Bool) (session : Session) : IO UInt32 := do
  let output ← IO.getStdout
  output.putStr Shell.prompt
  output.flush
  let line ← readLine (← IO.getStdin) #[]
  if line.isEmpty then return 0
  match Shell.turn notice verbose session line.toList with
  | .stop stdout stderr status =>
    output.putStr stdout
    (← IO.getStderr).putStr stderr
    return status.toUInt32
  | .go stdout stderr next =>
    output.putStr stdout
    (← IO.getStderr).putStr stderr
    converse verbose next

end Reckon.Main

open Reckon in
def main (arguments : List String) : IO UInt32 := do
  let command := Shell.Command.ofArguments arguments
  if command.words.isEmpty then Main.converse command.verbose .new
  else
    let transcript := Shell.run arguments [] Main.notice
    (← IO.getStdout).putStr transcript.stdout
    (← IO.getStderr).putStr transcript.stderr
    return transcript.status.toUInt32
