import Reckon.Error

/-!
# Reading tokens

A cursor is a place in a list of tokens together with the number of nesting levels entered there.
It only moves forward, and it never passes the end of the source: that token, or the end of the
list where the token is missing, fails whatever would pass it.

Running something at a cursor gives an `Outcome`. A success has passed at least one token, which the
type records, so whatever goes on from there has less ahead of it. A failure keeps the cursor it was
found at: a reader that fails inside a chain does not leave the levels of the chain.
-/
namespace Reckon

/-- The most levels of nesting that may be entered. -/
def depthLimit : Nat := 256

/-- A place in a list of tokens. -/
structure Cursor where
  /-- The tokens passed, the last one first. -/
  passed : List Token
  /-- The tokens ahead. -/
  ahead : List Token
  /-- The levels entered and not left. -/
  depth : Nat
deriving DecidableEq, Repr

/-- What comes of running something with `size` tokens ahead. -/
inductive Outcome (size : Nat) (α : Type) where
  | ok (value : α) (after : Cursor) (shorter : after.ahead.length < size)
  | error (cause : ParseError) (after : Cursor)

namespace Outcome
variable {α β : Type} {m n : Nat}

def map (f : α → β) : Outcome n α → Outcome n β
  | ok a after h => ok (f a) after h
  | error e after => error e after

def weaken (h : m ≤ n) : Outcome m α → Outcome n α
  | ok a after lt => ok a after (Nat.lt_of_lt_of_le lt h)
  | error e after => error e after

/-- Goes on after a success with something that may pass no token. -/
def andThen (r : Outcome n α)
    (next : α → (after : Cursor) → after.ahead.length < n → Outcome (after.ahead.length + 1) β) :
    Outcome n β :=
  match r with
  | ok a after h => (next a after h).weaken h
  | error e after => error e after

/-- Goes on after a success with something that passes a token too. -/
def andAlso (r : Outcome n α)
    (next : α → (after : Cursor) → after.ahead.length < n → Outcome after.ahead.length β) :
    Outcome n β :=
  match r with
  | ok a after h => (next a after h).weaken (Nat.le_of_lt h)
  | error e after => error e after

/-- The value or the error, and the cursor it was come to at. -/
def result : Outcome n α → Except ParseError α × Cursor
  | ok a after _ => (.ok a, after)
  | error e after => (.error e, after)

@[simp] theorem result_ok (a : α) (after : Cursor) (h : after.ahead.length < n) :
    (ok a after h).result = (.ok a, after) := rfl

@[simp] theorem result_error (e : ParseError) (after : Cursor) :
    (error e after : Outcome n α).result = (.error e, after) := rfl

/-- Outcomes with the same result are equal. -/
theorem ext_result {r r' : Outcome n α} (h : r.result = r'.result) : r = r' := by
  cases r <;> cases r' <;> simp_all

@[simp] theorem result_map (f : α → β) (r : Outcome n α) :
    (r.map f).result = (r.result.1.map f, r.result.2) := by
  cases r <;> rfl

@[simp] theorem result_weaken (h : m ≤ n) (r : Outcome m α) :
    (r.weaken h).result = r.result := by
  cases r <;> rfl

theorem length_ahead_lt {r : Outcome n α} {a : α} {after : Cursor}
    (h : r.result = (.ok a, after)) : after.ahead.length < n := by
  cases r with
  | ok b c hc =>
    obtain ⟨-, rfl⟩ := Prod.mk.inj h
    exact hc
  | error e c => simp at h

theorem andThen_of_ok {r : Outcome n α} {a : α} {after : Cursor}
    {next : α → (after : Cursor) → after.ahead.length < n → Outcome (after.ahead.length + 1) β}
    (h : r.result = (.ok a, after)) :
    r.andThen next = (next a after (length_ahead_lt h)).weaken (length_ahead_lt h) := by
  cases r with
  | ok b c hc =>
    cases h
    rfl
  | error e c => simp at h

theorem andAlso_of_ok {r : Outcome n α} {a : α} {after : Cursor}
    {next : α → (after : Cursor) → after.ahead.length < n → Outcome after.ahead.length β}
    (h : r.result = (.ok a, after)) :
    r.andAlso next =
      (next a after (length_ahead_lt h)).weaken (Nat.le_of_lt (length_ahead_lt h)) := by
  cases r with
  | ok b c hc =>
    cases h
    rfl
  | error e c => simp at h

theorem andThen_of_error {r : Outcome n α} {e : ParseError} {after : Cursor}
    {next : α → (after : Cursor) → after.ahead.length < n → Outcome (after.ahead.length + 1) β}
    (h : r.result = (.error e, after)) : r.andThen next = error e after := by
  cases r with
  | ok b c hc => simp at h
  | error e' c =>
    cases h
    rfl

theorem andAlso_of_error {r : Outcome n α} {e : ParseError} {after : Cursor}
    {next : α → (after : Cursor) → after.ahead.length < n → Outcome after.ahead.length β}
    (h : r.result = (.error e, after)) : r.andAlso next = error e after := by
  cases r with
  | ok b c hc => simp at h
  | error e' c =>
    cases h
    rfl

theorem result_andThen_of_ok {r : Outcome n α} {a : α} {after : Cursor}
    {next : α → (after : Cursor) → after.ahead.length < n → Outcome (after.ahead.length + 1) β}
    (h : r.result = (.ok a, after)) :
    (r.andThen next).result = (next a after (length_ahead_lt h)).result := by
  rw [andThen_of_ok h, result_weaken]

theorem result_andAlso_of_ok {r : Outcome n α} {a : α} {after : Cursor}
    {next : α → (after : Cursor) → after.ahead.length < n → Outcome after.ahead.length β}
    (h : r.result = (.ok a, after)) :
    (r.andAlso next).result = (next a after (length_ahead_lt h)).result := by
  rw [andAlso_of_ok h, result_weaken]

/-- Having had more ahead at the start makes no difference to what goes on. -/
theorem result_andAlso_weaken {hm : m ≤ n} {r : Outcome m α}
    {next : α → (after : Cursor) → Outcome after.ahead.length β} :
    ((r.weaken hm).andAlso fun a after _ => next a after).result =
      (r.andAlso fun a after _ => next a after).result := by
  cases r with
  | ok a c hc =>
    rw [weaken, andAlso, andAlso, result_weaken, result_weaken]
  | error e c => rfl

end Outcome

namespace Cursor

def ofTokens (tokens : List Token) : Cursor := ⟨[], tokens, 0⟩

def tokens (c : Cursor) : List Token := c.passed.reverse ++ c.ahead

def current? (c : Cursor) : Option Token := c.ahead.head?

/-- The kind of the current token; past the last token the source has ended. -/
def kind (c : Cursor) : TokenKind :=
  match c.ahead with
  | t :: _ => t.kind
  | [] => .eof

/-- The position of the current token; past the last token, the position that token ends at. -/
def position (c : Cursor) : Nat :=
  match c.ahead, c.passed with
  | t :: _, _ => t.span.start
  | [], t :: _ => t.span.stop
  | [], [] => 0

/-- The complaint that the current token is not what is needed. -/
def unexpected (c : Cursor) : ParseError :=
  match c.ahead with
  | t :: _ =>
    if t.kind = .eof then .unexpectedEnd c.position
    else .unexpectedToken t.kind t.lexeme t.span.start
  | [] => .unexpectedEnd c.position

def advance : (c : Cursor) → Outcome c.ahead.length Token
  | ⟨passed, t :: rest, depth⟩ =>
    if t.kind = .eof then .error (.unexpectedEnd t.span.start) ⟨passed, t :: rest, depth⟩
    else .ok t ⟨t :: passed, rest, depth⟩ (Nat.lt_succ_self _)
  | ⟨passed, [], depth⟩ =>
    .error (.unexpectedEnd (position ⟨passed, [], depth⟩)) ⟨passed, [], depth⟩

theorem advance_of_ne_eof {passed rest : List Token} {t : Token} {depth : Nat}
    (h : t.kind ≠ .eof) :
    (advance ⟨passed, t :: rest, depth⟩).result = (.ok t, ⟨t :: passed, rest, depth⟩) := by
  simp [advance, h]

theorem advance_of_eof {c : Cursor} (h : c.kind = .eof) :
    c.advance.result = (.error (.unexpectedEnd c.position), c) := by
  obtain ⟨passed, _ | ⟨t, rest⟩, depth⟩ := c
  · rfl
  · have ht : t.kind = .eof := h
    simp [advance, ht, position]

/-- Passes the current token if it is of the kind needed. -/
def expect (kind : TokenKind) (c : Cursor) : Outcome c.ahead.length Token :=
  if c.kind = kind then c.advance else .error c.unexpected c

/-- The current token's text, if it is one of these operators. -/
def operator? (operators : List String) (c : Cursor) : Option String :=
  match c.ahead with
  | t :: _ => if operators.any t.isOperator then some t.lexeme else none
  | [] => none

def deeper (c : Cursor) : Cursor := { c with depth := c.depth + 1 }

/-- The same place, with levels left; the outermost level is never left. -/
def leave (levels : Nat) (c : Cursor) : Cursor := { c with depth := c.depth - levels }

@[simp] theorem ahead_deeper (c : Cursor) : c.deeper.ahead = c.ahead := rfl

@[simp] theorem ahead_leave (levels : Nat) (c : Cursor) : (c.leave levels).ahead = c.ahead := rfl

/-- Fails at the current token if no level is left to enter. -/
def ifRoom {α : Type} {n : Nat} (c : Cursor) (inside : Unit → Outcome n α) : Outcome n α :=
  if c.depth < depthLimit then inside () else .error (.nestingTooDeep depthLimit c.position) c

def enter (c : Cursor) : Except ParseError Cursor :=
  if c.depth < depthLimit then .ok c.deeper else .error (.nestingTooDeep depthLimit c.position)

end Cursor

def Outcome.leave {α : Type} {n : Nat} : Outcome n α → Outcome n α
  | .ok a after h => .ok a (after.leave 1) h
  | .error e after => .error e (after.leave 1)

@[simp] theorem Outcome.result_leave {α : Type} {n : Nat} (r : Outcome n α) :
    r.leave.result = (r.result.1, r.result.2.leave 1) := by
  cases r <;> rfl

def Cursor.nested {α : Type} (c : Cursor) (inside : Unit → Outcome c.ahead.length α) :
    Outcome c.ahead.length α :=
  c.ifRoom fun _ => (inside ()).leave

end Reckon
