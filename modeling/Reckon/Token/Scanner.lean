import Reckon.Error
import Reckon.Text.Blank
import Reckon.Token.Class

/-!
# Scanning

A scanner takes characters one at a time for as long as some token class accepts the text taken. A
character that no class lets the text grow by ends it: the pending text becomes a token, and the
same character is looked at again. Blank characters end a pending text too, and are dropped.

A turn of the scan either passes a character or turns the pending text into a token. `remaining`
counts two for each character ahead and one for a pending text, so it falls with every turn, and a
source of `n` characters takes at most `2 * n` turns.
-/
namespace Reckon
open Text TokenClass

/-- The most characters that a token may have. -/
def lexemeLimit : Nat := 256

/-- The token of a finished text. Functions and constants are spelled in lower case. -/
def Token.ofLexeme (kind : TokenKind) (text : List Char) (start : Nat) : Token :=
  let lexeme := String.ofList text
  ⟨kind, if kind = .function ∨ kind = .constant then lower lexeme else lexeme,
    ⟨start, start + text.length⟩⟩

/-- A source that is being scanned. -/
structure Scanner where
  /-- The characters ahead. -/
  rest : List Char
  /-- The number of characters passed. -/
  position : Nat
  /-- The text that is growing into a token; it ends where the characters ahead begin. -/
  pending : List Char
  /-- Where the pending text starts, if there is one. -/
  start : Nat
  /-- The tokens found so far. -/
  tokens : Array Token

namespace Scanner

def ofSource (source : String) : Scanner := ⟨source.toList, 0, [], 0, #[]⟩

def current? (s : Scanner) : Option Char := s.rest.head?

def atEnd (s : Scanner) : Bool := s.rest.isEmpty

def advance (s : Scanner) : Scanner :=
  { s with rest := s.rest.tail, position := s.position + 1 }

def push (s : Scanner) (t : Token) : Scanner := { s with tokens := s.tokens.push t }

/-- Makes a token of the pending text, if there is one. -/
def emit (classes : List TokenClass) (s : Scanner) : Except LexError Scanner :=
  if s.pending.isEmpty then .ok s
  else match classify classes s.pending with
    | none => .error (.invalidToken (String.ofList s.pending) s.start)
    | some kind => .ok { s.push (.ofLexeme kind s.pending s.start) with pending := [] }

/-- One turn of the scan, with the character `c` ahead. -/
def step (classes : List TokenClass) (s : Scanner) (c : Char) : Except LexError Scanner :=
  let start := if s.pending.isEmpty then s.position else s.start
  let grown := s.pending ++ [c]
  if isBlank c then (s.emit classes).map advance
  else if accepts classes grown then
    if lexemeLimit ≤ s.position - start then .error (.tokenTooLong lexemeLimit start)
    else .ok { s.advance with pending := grown, start := start }
  else if s.pending.isEmpty then .error (.unexpectedCharacter c s.position)
  else s.emit classes

/-- A bound on the turns that are left. -/
def remaining (s : Scanner) : Nat :=
  2 * s.rest.length + if s.pending.isEmpty then 0 else 1

theorem emit_eq_ok {classes : List TokenClass} {s s' : Scanner}
    (h : s.emit classes = .ok s') :
    s'.pending = [] ∧ s'.rest = s.rest ∧ s'.position = s.position := by
  unfold emit at h
  split at h
  · rename_i hc
    cases h
    exact ⟨List.isEmpty_iff.1 hc, rfl, rfl⟩
  · split at h <;> cases h
    exact ⟨rfl, rfl, rfl⟩

theorem emit_of_isEmpty {classes : List TokenClass} {s : Scanner} (h : s.pending = []) :
    s.emit classes = .ok s := by
  simp [emit, h]

section Turns
variable {classes : List TokenClass} {s s' : Scanner} {c : Char} {rest : List Char}

/-- A blank character is passed once nothing is pending. -/
theorem step_of_isBlank (h : isBlank c) : s.step classes c = (s.emit classes).map advance := by
  simp [step, h]

/-- The pending text grows if the classes accept it and it is short enough. -/
theorem step_of_accepts (hblank : ¬ isBlank c) (h : accepts classes (s.pending ++ [c])) :
    s.step classes c =
      let start := if s.pending.isEmpty then s.position else s.start
      if lexemeLimit ≤ s.position - start then .error (.tokenTooLong lexemeLimit start)
      else .ok { s.advance with pending := s.pending ++ [c], start := start } := by
  simp only [step, hblank, h, if_true, if_false, Bool.false_eq_true]

theorem step_of_not_accepts (hblank : ¬ isBlank c)
    (h : accepts classes (s.pending ++ [c]) = false) :
    s.step classes c =
      if s.pending.isEmpty then .error (.unexpectedCharacter c s.position)
      else s.emit classes := by
  simp only [step, hblank, h, if_false, Bool.false_eq_true]

/-- What a turn does, unless it fails. -/
inductive Turn (classes : List TokenClass) (s : Scanner) (c : Char) : Scanner → Prop
  /-- A blank character ends the pending text and is passed. -/
  | blank {emitted : Scanner} : isBlank c → s.emit classes = .ok emitted →
      Turn classes s c emitted.advance
  /-- The pending text grows by a character that it is accepted with. -/
  | grow {start : Nat} : ¬ isBlank c → accepts classes (s.pending ++ [c]) →
      start = (if s.pending.isEmpty then s.position else s.start) →
      s.position - start < lexemeLimit →
      Turn classes s c { s.advance with pending := s.pending ++ [c], start := start }
  /-- A character that the pending text is not accepted with ends it and is left ahead. -/
  | reject {emitted : Scanner} : ¬ isBlank c → accepts classes (s.pending ++ [c]) = false →
      s.pending ≠ [] → s.emit classes = .ok emitted → Turn classes s c emitted

theorem turn_of_step (h : s.step classes c = .ok s') : Turn classes s c s' := by
  by_cases hblank : isBlank c
  · rw [step_of_isBlank hblank] at h
    cases hemit : s.emit classes with
    | error e =>
      rw [hemit] at h
      cases h
    | ok emitted =>
      rw [hemit] at h
      cases h
      exact .blank hblank hemit
  · cases haccepts : accepts classes (s.pending ++ [c]) with
    | true =>
      rw [step_of_accepts hblank haccepts] at h
      generalize hstart : (if s.pending.isEmpty then s.position else s.start) = start at h
      dsimp only at h
      split at h
      · cases h
      · rename_i hshort
        cases h
        exact .grow hblank haccepts hstart.symm (Nat.not_le.mp hshort)
    | false =>
      rw [step_of_not_accepts hblank haccepts] at h
      split at h
      · cases h
      · rename_i hpending
        exact .reject hblank haccepts (mt List.isEmpty_iff.mpr hpending) h

theorem remaining_step (hr : s.rest = c :: rest) (h : s.step classes c = .ok s') :
    s'.remaining < s.remaining := by
  cases turn_of_step h with
  | blank _ hemit =>
    obtain ⟨hpending, hrest, -⟩ := emit_eq_ok hemit
    simp only [remaining, advance, hpending, hrest, hr, List.tail_cons, List.length_cons,
      List.isEmpty_nil, if_true]
    omega
  | grow =>
    simp only [remaining, advance, hr, List.tail_cons, List.length_cons]
    split <;> split <;> omega
  | reject _ _ hne hemit =>
    obtain ⟨hpending, hrest, -⟩ := emit_eq_ok hemit
    simp [remaining, hpending, hrest, hne]

end Turns

/-- Takes turns until no character is ahead. -/
def run (classes : List TokenClass) (s : Scanner) : Except LexError Scanner :=
  match _hr : s.rest with
  | [] => .ok s
  | c :: _ =>
    match _hs : s.step classes c with
    | .error e => .error e
    | .ok next => next.run classes
termination_by s.remaining
decreasing_by exact remaining_step _hr _hs

theorem run_of_nil {classes : List TokenClass} {s : Scanner} (h : s.rest = []) :
    s.run classes = .ok s := by
  unfold run
  split
  · rfl
  · rename_i hcons
    rw [h] at hcons
    cases hcons

theorem run_of_cons {classes : List TokenClass} {s : Scanner} {c : Char} {rest : List Char}
    (h : s.rest = c :: rest) : s.run classes = (s.step classes c).bind (run classes) := by
  rw [run]
  split
  · rename_i hnil
    rw [h] at hnil
    cases hnil
  · rename_i hcons
    rw [h] at hcons
    cases hcons
    split <;> rename_i hs <;> rw [hs] <;> rfl

end Scanner

/-- The tokens of a source, ending with the one that stands for its end. -/
def tokenizeWith (classes : List TokenClass) (source : String) : Except LexError (List Token) := do
  let scanned ← (Scanner.ofSource source).run classes
  let finished ← scanned.emit classes
  return (finished.push (.endAt finished.position)).tokens.toList

/-- The tokens of a source in the classes of the expression language. -/
def tokenize (source : String) : Except LexError (List Token) := tokenizeWith TokenClass.all source

end Reckon
