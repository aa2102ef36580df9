import Reckon.Vocabulary
import Reckon.Expr
import Reckon.Text.Number
import Reckon.Token.Cursor

/-!
# Parsing expressions

The grammar has four levels of precedence:

```text
expression := term (('+' | '-') term)*
term       := power (('*' | '/') power)*
power      := factor ('^' power)?
factor     := number | name | constant | '-' factor | '(' expression ')'
            | function '(' expression (',' expression)* ')'
```

Chains of operators group to the left and powers to the right. A group, a sign, a call, the exponent
of a power and each link of a chain enter a level. The levels of a chain are left together when the
chain ends, the others by whatever entered them. So the nesting of everything that is open is
bounded; the height of the tree, to which the operands in front of a link add theirs, has another
bound.

Every production passes a token before it succeeds. The productions call one another with less
ahead or, with as much ahead, further down the grammar.
-/
namespace Reckon
open Text

/-- The two kinds of chains, both grouping to the left. -/
inductive Chain where
  /-- Terms that are added and subtracted. -/
  | sum
  /-- Powers that are multiplied and divided. -/
  | product
deriving DecidableEq, Repr

namespace Chain

/-- The operators that link a chain. -/
def operators : Chain → List String
  | sum => ["+", "-"]
  | product => ["*", "/"]

/-- How far up the grammar a chain's operands are. -/
def level : Chain → Nat
  | sum => 6
  | product => 4

@[simp] theorem level_sum : sum.level = 6 := rfl

@[simp] theorem level_product : product.level = 4 := rfl

theorem level_le (k : Chain) : k.level ≤ 6 := by cases k <;> decide

end Chain

namespace Expr

def parseNumber (c : Cursor) : Outcome c.ahead.length Expr :=
  c.advance.andThen fun t after _ =>
    match Number.read? t.lexeme with
    | some x => .ok (.number x) after (Nat.lt_succ_self _)
    | none => .error (.unreadableNumber t.lexeme t.span.start) after

/-- The name of a constant, which stands for its value. -/
def parseConstant (c : Cursor) : Outcome c.ahead.length Expr :=
  c.advance.andThen fun t after _ =>
    match Vocabulary.constant? t.lexeme with
    | some x => .ok (.number x) after (Nat.lt_succ_self _)
    | none => .error c.unexpected after

mutual

def parseChain (k : Chain) (c : Cursor) : Outcome c.ahead.length Expr :=
  (parseOperand k c).andThen fun left after _ => parseLinks k left 0 after
termination_by 8 * c.ahead.length + k.level + 1

def parseOperand (k : Chain) (c : Cursor) : Outcome c.ahead.length Expr :=
  match k with
  | .sum => parseChain .product c
  | .product => parsePower c
termination_by 8 * c.ahead.length + k.level

/-- The rest of a chain that has come to the value `left` and entered `levels` levels. -/
def parseLinks (k : Chain) (left : Expr) (levels : Nat) (c : Cursor) :
    Outcome (c.ahead.length + 1) Expr :=
  match c.operator? k.operators with
  | none => .ok left (c.leave levels) (Nat.lt_succ_self _)
  | some op =>
    c.ifRoom fun _ =>
      (c.deeper.advance.andAlso fun _ next hn =>
        (parseOperand k next).andThen fun right after ha =>
          parseLinks k (.binary op left right) (levels + 1) after).weaken (Nat.le_succ _)
termination_by 8 * c.ahead.length
decreasing_by
  all_goals
    have hk := k.level_le
    rw [Cursor.ahead_deeper] at hn
    omega

/-- A factor, perhaps raised to a power. -/
def parsePower (c : Cursor) : Outcome c.ahead.length Expr :=
  (parseFactor c).andThen fun base after _ =>
    match after.operator? ["^"] with
    | none => .ok base after (Nat.lt_succ_self _)
    | some op =>
      (after.advance.andAlso fun _ next _ =>
        (next.nested fun _ => parsePower next.deeper).map (.binary op base)).weaken (Nat.le_succ _)
termination_by 8 * c.ahead.length + 3

/-- A leaf, or something that is enclosed or signed. -/
def parseFactor (c : Cursor) : Outcome c.ahead.length Expr :=
  match c.kind with
  | .number => parseNumber c
  | .identifier => c.advance.map fun t => .var t.lexeme
  | .constant => parseConstant c
  | .function => c.nested fun _ => parseCall c.deeper
  | .lparen => c.nested fun _ => parseGrouping c.deeper
  | .operator =>
    if (c.operator? ["-"]).isSome then c.nested fun _ => parseNegation c.deeper
    else .error c.unexpected c
  | .rparen | .comma | .eof => .error c.unexpected c
termination_by 8 * c.ahead.length + 2

def parseNegation (c : Cursor) : Outcome c.ahead.length Expr :=
  c.advance.andAlso fun t next _ => (parseFactor next).map (.unary t.lexeme)
termination_by 8 * c.ahead.length + 1

def parseGrouping (c : Cursor) : Outcome c.ahead.length Expr :=
  (c.expect .lparen).andAlso fun _ next _ =>
    (parseChain .sum next).andAlso fun e after _ => (after.expect .rparen).map fun _ => e
termination_by 8 * c.ahead.length + 1

/-- A function's name and its arguments in parentheses, however many the function takes. -/
def parseCall (c : Cursor) : Outcome c.ahead.length Expr :=
  (c.expect .function).andAlso fun f next _ =>
    (next.expect .lparen).andAlso fun _ next _ =>
      ((parseChain .sum next).andThen fun first after _ => parseArguments [first] after).andAlso
        fun args after _ => (after.expect .rparen).map fun _ => .call f.lexeme args.reverse
termination_by 8 * c.ahead.length + 1

/-- The arguments that follow those read so far, of which the last comes first. -/
def parseArguments (args : List Expr) (c : Cursor) : Outcome (c.ahead.length + 1) (List Expr) :=
  if c.kind = .comma then
    (c.advance.andAlso fun _ next _ =>
      (parseChain .sum next).andThen fun e after _ =>
        parseArguments (e :: args) after).weaken (Nat.le_succ _)
  else .ok args c (Nat.lt_succ_self _)
termination_by 8 * c.ahead.length

end

/-- The expression that a list of tokens spells, from its first token to the end of the source. -/
def parse (tokens : List Token) : Except ParseError Expr :=
  match parseChain .sum (.ofTokens tokens) with
  | .error e _ => .error e
  | .ok tree after _ =>
    match after.ahead with
    | t :: _ =>
      if t.kind = .eof then .ok tree else .error (.trailingInput t.kind t.lexeme t.span.start)
    | [] => .ok tree

end Expr

/-- The parts of the grammar that can be read on their own. -/
inductive Production where
  | expression
  | term
  | power
  | factor
  | number
  | constant
  | negation
  | grouping
  | call
deriving DecidableEq, Repr

def Production.parse (p : Production) (c : Cursor) : Outcome c.ahead.length Expr :=
  match p with
  | expression => Expr.parseChain .sum c
  | term => Expr.parseChain .product c
  | power => Expr.parsePower c
  | factor => Expr.parseFactor c
  | number => Expr.parseNumber c
  | constant => Expr.parseConstant c
  | negation => Expr.parseNegation c
  | grouping => Expr.parseGrouping c
  | call => Expr.parseCall c

end Reckon
