import Reckon.Shell
import Reckon.Proofs.ArrowWidth

/-!
# Conversations

The shell reads its input piece by piece, each up to and with the next newline. What a piece asks for
depends on its bytes alone: it may be no text, be blank, take leave, or be a line for the session. The
first piece that is no text, takes leave, or is a line that the program breaks off at ends the
conversation, and until then the session answers the lines one after another as if there were no shell
around it. So what a run of the shell prints is a fold over the pieces in front of the last one read,
and the bytes behind that piece are never looked at.

That reading stops behind a newline byte and that bytes which are no text are refused as a whole are
properties of the standard input that `Reckon.Shell` takes for granted.
-/
namespace Reckon.Shell
open Text

/-- What a piece of the input asks for. -/
inductive Request where
  /-- The bytes are no text. -/
  | garbled
  | nothing
  | farewell
  | line (text : String)
deriving DecidableEq, Repr

namespace Request

/-- What some bytes ask for. The blanks around a line do not count. -/
def ofBytes (bytes : List UInt8) : Request :=
  match String.fromUTF8? ⟨bytes.toArray⟩ with
  | none => .garbled
  | some text =>
    if trim text = "" then .nothing
    else if trim text = "exit" ∨ trim text = "quit" then .farewell
    else .line (trim text)

/-- Whether the conversation ends here: with a message, with leave taken, or because the program breaks
off at the line. -/
def Stops : Request → Prop
  | garbled | farewell => True
  | nothing => False
  | line text => (Line.ofText text).breaksOff

instance : DecidablePred Stops
  | garbled | farewell => isTrue trivial
  | nothing => isFalse id
  | line text => inferInstanceAs (Decidable ((Line.ofText text).breaksOff = true))

end Request

/-- What has been said so far: all that was printed, and the session. -/
structure Dialogue where
  stdout : String
  stderr : String
  session : Session

namespace Dialogue

def start : Dialogue := ⟨"", "", .new⟩

/-- A prompt is printed, and what is asked for is answered by the session. -/
def hear (d : Dialogue) : Request → Dialogue
  | .line text =>
    match d.session.respond text with
    | (.ok answer, next) => ⟨d.stdout ++ prompt ++ answer ++ "\n", d.stderr, next⟩
    | (.error report, next) => ⟨d.stdout ++ prompt, d.stderr ++ report, next⟩
  | .garbled | .nothing | .farewell => { d with stdout := d.stdout ++ prompt }

/-- One more prompt is printed, and the conversation ends: at a request that stops it, or at the end
of the input. -/
def close (notice : String) (d : Dialogue) : Option Request → Transcript
  | some .garbled => ⟨d.stdout ++ prompt, d.stderr ++ undecodable, 1⟩
  | some (.line _) => ⟨d.stdout ++ prompt, d.stderr ++ notice, crashStatus⟩
  | none | some .farewell | some .nothing => ⟨d.stdout ++ prompt, d.stderr, 0⟩

end Dialogue

/-- The input is cut behind its newlines. Of the pieces the first ones are heard, and the next one, if
there is one, stops the conversation. -/
structure Heard (stdin : List UInt8) (heard rest : List (List UInt8)) : Prop where
  cut : Cut isNewline stdin (heard ++ rest)
  goes : ∀ piece ∈ heard, ¬ (Request.ofBytes piece).Stops
  stops : ∀ piece ∈ rest.head?, (Request.ofBytes piece).Stops

variable {piece : List UInt8} {heard rest : List (List UInt8)} {notice : String}

theorem turn_eq (notice : String) (verbose : Bool) (session : Session) (piece : List UInt8) :
    turn notice verbose session piece =
      match Request.ofBytes piece with
      | .garbled => .stop "" undecodable 1
      | .nothing => .go "" "" session
      | .farewell => .stop "" "" 0
      | .line text => .ofReply (reply notice verbose session text) := by
  unfold turn Request.ofBytes
  cases String.fromUTF8? ⟨piece.toArray⟩ with
  | none => rfl
  | some text =>
    dsimp only
    by_cases hempty : trim text = ""
    · rw [if_pos hempty, if_pos (by simp [hempty])]
    · rw [if_neg hempty, if_neg (by simpa using hempty)]
      by_cases hleave : trim text = "exit" ∨ trim text = "quit"
      · rw [if_pos hleave, if_pos hleave]
      · rw [if_neg hleave, if_neg hleave]

theorem attempt_eq_respond {text : String} (h : ¬ (Request.line text).Stops) (session : Session) :
    session.attempt text = some (session.respond text) := by
  rw [session.attempt_eq]
  exact if_neg h

theorem attempt_eq_none {text : String} (h : (Request.line text).Stops) (session : Session) :
    session.attempt text = none := by
  rw [session.attempt_eq]
  exact if_pos h

/-- A piece that does not stop the conversation takes it one step further. -/
theorem interact_hear (h : ¬ (Request.ofBytes piece).Stops) (rest : List (List UInt8))
    (d : Dialogue) :
    (interact notice false d.session (piece :: rest)).after d.stdout d.stderr =
      (interact notice false (d.hear (.ofBytes piece)).session rest).after
        (d.hear (.ofBytes piece)).stdout (d.hear (.ofBytes piece)).stderr := by
  rw [interact, turn_eq]
  cases hrequest : Request.ofBytes piece with
  | garbled | farewell =>
    rw [hrequest] at h
    exact absurd trivial h
  | nothing => simp [Dialogue.hear, Transcript.after, String.append_assoc]
  | line text =>
    rw [hrequest] at h
    dsimp only [Dialogue.hear, reply]
    rw [attempt_eq_respond h]
    rcases d.session.respond text with ⟨report | answer, next⟩ <;>
      simp [Turn.ofReply, Transcript.after, trace, String.append_assoc]

theorem interact_stop (h : (Request.ofBytes piece).Stops) (later : List (List UInt8)) (d : Dialogue) :
    (interact notice false d.session (piece :: later)).after d.stdout d.stderr =
      d.close notice (some (.ofBytes piece)) := by
  rw [interact, turn_eq]
  cases hrequest : Request.ofBytes piece with
  | garbled => simp [Dialogue.close, Transcript.after]
  | farewell => simp [Dialogue.close, Transcript.after]
  | nothing =>
    rw [hrequest] at h
    exact h.elim
  | line text =>
    rw [hrequest] at h
    dsimp only [reply]
    rw [attempt_eq_none h]
    simp [Turn.ofReply, Dialogue.close, Transcript.after, trace]

/-- The pieces in front of the one that stops the conversation are heard one after another. -/
theorem interact_append (hheard : ∀ piece ∈ heard, ¬ (Request.ofBytes piece).Stops)
    (hrest : ∀ piece ∈ rest.head?, (Request.ofBytes piece).Stops) (d : Dialogue) :
    (interact notice false d.session (heard ++ rest)).after d.stdout d.stderr =
      ((heard.map .ofBytes).foldl Dialogue.hear d).close notice (rest.head?.map .ofBytes) := by
  induction heard generalizing d with
  | nil =>
    cases rest with
    | nil => simp [interact, Dialogue.close, Transcript.after]
    | cons piece later => exact interact_stop (hrest piece rfl) later d
  | cons piece heard ih =>
    obtain ⟨hpiece, hheard⟩ := List.forall_mem_cons.mp hheard
    rw [List.cons_append, interact_hear hpiece, ih hheard]
    rfl

theorem Heard.run_eq {arguments : List String} {stdin : List UInt8} (h : Heard stdin heard rest)
    (harguments : Command.ofArguments arguments = ⟨false, []⟩) (notice : String) :
    run arguments stdin notice =
      ((heard.map .ofBytes).foldl Dialogue.hear .start).close notice (rest.head?.map .ofBytes) := by
  have hrun : run arguments stdin notice = interact notice false .new (heard ++ rest) := by
    rw [run, harguments, h.cut.cutAfter_eq]
    rfl
  rw [hrun, ← interact_append h.goes h.stops]
  simp [Dialogue.start, Transcript.after]

theorem exists_heard (stdin : List UInt8) : ∃ heard rest, Heard stdin heard rest := by
  let goes (piece : List UInt8) : Bool := !(Request.ofBytes piece).Stops
  have hcut := cut_cutAfter isNewline stdin
  rw [← List.takeWhile_append_dropWhile (p := goes) (l := cutAfter isNewline stdin)] at hcut
  refine ⟨_, _, hcut, ?_, ?_⟩
  · intro piece hpiece
    simpa [goes] using List.all_eq_true.mp List.all_takeWhile piece hpiece
  · intro piece hpiece
    have hhead := List.head?_dropWhile_not goes (cutAfter isNewline stdin)
    rw [hpiece] at hhead
    simpa [goes] using hhead

section Endings
open Line

def lineBytes (text : String) : List UInt8 := (text.push '\n').toUTF8.data.toList

theorem toList_toUTF8 (text : String) :
    text.toUTF8.data.toList = text.toList.flatMap String.utf8EncodeChar := by
  obtain ⟨chars, rfl⟩ : ∃ chars, text = String.ofList chars := ⟨text.toList, by simp⟩
  simp [List.utf8Encode]

theorem lineBytes_eq (text : String) : lineBytes text = text.toUTF8.data.toList ++ [10] := by
  rw [lineBytes, toList_toUTF8, toList_toUTF8, String.toList_push, List.flatMap_append]
  rfl

theorem fromUTF8?_toUTF8 (text : String) :
    String.fromUTF8? ⟨text.toUTF8.data.toList.toArray⟩ = some text := by
  simp only [String.fromUTF8?, String.toUTF8_eq_toByteArray, Array.toArray_toList,
    dif_pos text.isValidUTF8]
  rfl

theorem trim_distantFault (n : Nat) : trim ((distantFault n).push '\n') = distantFault n := by
  have htext : ((distantFault n).push '\n').toList =
      '1' :: (List.replicate n ' ' ++ ['#', '\n']) := by
    simp [distantFault]
  have hnewline : isBlank '\n' = true := by decide
  have hfault : isBlank '#' = false := by decide
  rw [trim, htext, dropBlanks, List.dropWhile_cons_of_neg (by decide), dropBlanksEnd]
  simp [dropBlanks, hnewline, hfault]
  rfl

theorem ofBytes_distantFault (n : Nat) :
    Request.ofBytes (lineBytes (distantFault n)) = .line (distantFault n) := by
  have hchar : '#' ∈ (distantFault n).toList := by simp [distantFault]
  have hlines (word : String) (hword : '#' ∉ word.toList) : distantFault n ≠ word :=
    fun heq => hword (heq ▸ hchar)
  rw [Request.ofBytes, lineBytes, fromUTF8?_toUTF8]
  dsimp only
  rw [trim_distantFault, if_neg (hlines "" (by decide)),
    if_neg (not_or.mpr ⟨hlines "exit" (by decide), hlines "quit" (by decide)⟩)]

theorem heard_distantFault {n : Nat} (hn : 65534 ≤ n) (later : List UInt8) :
    Heard (lineBytes (distantFault n) ++ later) []
      (lineBytes (distantFault n) :: cutAfter isNewline later) := by
  refine ⟨?_, by simp, ?_⟩
  · have hclear : ∀ b ∈ (distantFault n).toUTF8.data.toList, ¬ isNewline b := by
      intro b hb
      rw [toList_toUTF8, List.mem_flatMap] at hb
      obtain ⟨c, hc, hb⟩ := hb
      have hchars : c = '1' ∨ n ≠ 0 ∧ c = ' ' ∨ c = '#' := by simpa [distantFault] using hc
      rcases hchars with rfl | ⟨-, rfl⟩ | rfl <;> cases List.mem_singleton.mp hb <;> decide
    have hnewline : isNewline 10 := by decide
    rw [lineBytes_eq, List.append_assoc]
    exact .piece hclear hnewline (cut_cutAfter isNewline later)
  · intro piece hpiece
    obtain rfl := Option.some.inj hpiece
    rw [ofBytes_distantFault]
    exact (breaksOff_distantFault_iff n).mpr hn

/-- At a fault that is too far behind the number the program breaks off, whatever comes later. -/
theorem run_distantFault {n : Nat} (hn : 65534 ≤ n) (later : List UInt8) (notice : String) :
    run [] (lineBytes (distantFault n) ++ later) notice = ⟨"> ", notice, 101⟩ := by
  rw [(heard_distantFault hn later).run_eq rfl, List.head?_cons, Option.map_some,
    ofBytes_distantFault]
  simp [Dialogue.start, Dialogue.close, prompt, crashStatus]

end Endings

/-- A run without words on the command line is a conversation: the pieces of the input are heard one
after another up to the first that stops it, or to the end of the input. Whatever follows the newline
of the piece that stops it makes no difference. The session responds to every line but those that the
program breaks off at, whatever the session, and none of fewer than `arrowLimit` characters is one. -/
theorem run_eq_foldl (arguments : List String) (stdin : List UInt8) (notice : String)
    (harguments : Command.ofArguments arguments = ⟨false, []⟩) :
    (∀ (session : Session) (text : String), session.attempt text =
      if (Request.line text).Stops then none else some (session.respond text)) ∧
    (∀ text : String, text.length < Report.arrowLimit → ¬ (Request.line text).Stops) ∧
    (∃ heard rest, Heard stdin heard rest) ∧
      ∀ heard rest, Heard stdin heard rest →
        run arguments stdin notice = ((heard.map .ofBytes).foldl Dialogue.hear .start).close notice
          (rest.head?.map .ofBytes) ∧
        ∀ piece later byte, rest = piece :: later → piece.getLast? = some byte → isNewline byte →
          ∀ more, run arguments (heard.flatten ++ piece ++ more) notice =
            run arguments stdin notice := by
  refine ⟨Session.attempt_eq, fun text h => Bool.eq_false_iff.mp (Line.breaksOff_of_length h),
    exists_heard stdin, fun heard rest h => ⟨h.run_eq harguments notice, ?_⟩⟩
  rintro piece later byte rfl hlast hnewline more
  have hcut := h.cut.replace hlast hnewline (cut_cutAfter isNewline more)
  have hmore : Heard (heard.flatten ++ piece ++ more) heard (piece :: cutAfter isNewline more) :=
    ⟨hcut, h.goes, h.stops⟩
  rw [hmore.run_eq harguments, h.run_eq harguments]
  rfl

/-- After the lines `x = 2` and `quit` the program has answered the first and ended, and does not see
that the byte behind them is no text. With 65535 spaces in front of a fault it breaks off, and the line
behind is not read. -/
theorem run_eq_foldl_quit_and_crash :
    run [] ("x = 2\nquit\n".toUTF8.data.toList ++ [0xff]) = ⟨"> x = 2\n> ", "", 0⟩ ∧
      run [] (lineBytes (Line.distantFault 65535) ++ lineBytes "1") "out of range\n" =
        ⟨"> ", "out of range\n", 101⟩ := by
  refine ⟨?_, run_distantFault (by decide) _ _⟩
  obtain ⟨line, hline⟩ : ∃ bytes, bytes = "x = 2\n".toUTF8.data.toList := ⟨_, rfl⟩
  obtain ⟨quit, hquit⟩ : ∃ bytes, bytes = "quit\n".toUTF8.data.toList := ⟨_, rfl⟩
  have hbytes : "x = 2\nquit\n".toUTF8.data.toList = line ++ quit := by
    rw [hline, hquit]
    decide +kernel
  have hheard : Heard (line ++ quit) [line] [quit] := by
    refine ⟨?_, ?_, ?_⟩
    · have hcut := cut_cutAfter isNewline (line ++ quit)
      have hpieces : cutAfter isNewline (line ++ quit) = [line] ++ [quit] := by
        rw [hline, hquit]
        decide +kernel
      rwa [hpieces] at hcut
    · rw [hline]
      decide +kernel
    · rw [hquit]
      decide +kernel
  obtain ⟨-, -, -, hall⟩ := run_eq_foldl [] (line ++ quit) "" rfl
  obtain ⟨hrun, hmore⟩ := hall [line] [quit] hheard
  have hlast : quit.getLast? = some 10 := by
    rw [hquit]
    decide +kernel
  have hprinted := hmore quit [] 10 rfl hlast rfl [0xff]
  rw [List.flatten_singleton] at hprinted
  rw [hbytes, hprinted, hrun, hline, hquit]
  decide +kernel

end Reckon.Shell
