import Essl.Diagnostic
import Essl.Tree.Basic

/-!
# Grammar rules

A grammar function reads from a list of tokens with one token of lookahead and never goes back.
A rule is a construct that its first token decides: the kinds of token it can start with, and
how it goes on after that token.
-/

namespace Essl

/-- Where the grammar does not allow the token found, if any. -/
structure SyntaxFailure where
  expected : List TokenKind
  found : Option Token
  /-- What follows the token found. -/
  rest : List Token
  /-- The token after the one found was looked at before it failed. -/
  lookedAhead : Bool

/-- A grammar function: it takes tokens off a list, or fails. -/
abbrev Parse (α : Type) : Type := StateT (List Token) (Except SyntaxFailure) α

namespace Parse

variable {α : Type}

/-- Nothing but these kinds is allowed in place of the token that was taken. -/
def fail (expected : List TokenKind) (found : Option Token) : Parse α :=
  fun rest => .error ⟨expected, found, rest, false⟩

/-- Removes the next token. -/
def take : Parse (Option Token)
  | [] => .ok (none, [])
  | t :: rest => .ok (some t, rest)

/-- The kind of the next token. -/
def peekKind : Parse (Option TokenKind) := fun ts => .ok (ts.head?.map Token.kind, ts)

/-- Removes the next token if it satisfies a condition. -/
def acceptIf (p : Token → Bool) : Parse (Option Token)
  | [] => .ok (none, [])
  | t :: rest => if p t then .ok (some t, rest) else .ok (none, t :: rest)

/-- Removes the next token if it is of this kind. -/
def accept (kind : TokenKind) : Parse (Option Token) := acceptIf (·.isKind kind)

/-- Removes the next token if it is one of these operators. -/
def acceptOperator (ops : List Operator) : Parse (Option Token) :=
  acceptIf fun t => t.kind.operator?.any ops.contains

/-- Removes the next token, which must be of one of these kinds. -/
def require (kinds : List TokenKind) : Parse Token
  | [] => .error ⟨kinds, none, [], false⟩
  | t :: rest =>
    if kinds.contains t.kind then .ok (t, rest) else .error ⟨kinds, some t, rest, false⟩

/-- Removes the next token, which must be this operator. -/
def requireOperator (op : Operator) : Parse Token := require [.operator op]

/-- Goes on with the next token, which must be there. -/
def next (expected : List TokenKind) (body : Token → Parse α) : Parse α
  | [] => .error ⟨expected, none, [], false⟩
  | t :: rest => body t rest

/-- How many tokens are left: no loop takes more turns. -/
def remaining : Parse Nat := fun ts => .ok (ts.length, ts)

end Parse

/-- A construct that its first token decides. -/
structure Rule (α : Type) where
  /-- The kinds of token that the construct can start with. -/
  expected : List TokenKind
  /-- Goes on after the first token. -/
  body : Token → Parse α

namespace Rule

variable {α : Type}

/-- Whether the construct can start with a token. -/
def starts (rule : Rule α) (t : Token) : Bool := rule.expected.contains t.kind

/-- Parses a construct whose first token has been taken. -/
def parse (rule : Rule α) (t : Token) : Parse α :=
  if rule.starts t then rule.body t else .fail rule.expected t

/-- Parses a construct whose first token has been taken and whose second one looked at. -/
def parseLookedAhead (rule : Rule α) (t : Token) : Parse α :=
  if rule.starts t then rule.body t
  else fun rest => .error ⟨rule.expected, t, rest, true⟩

/-- Parses a construct that starts with the next token. -/
def next (rule : Rule α) : Parse α := .next rule.expected rule.parse

/-- Parses a construct if the next token can start it. -/
def optional (rule : Rule α) : Parse (Option α)
  | [] => .ok (none, [])
  | t :: rest => if rule.starts t then (some <$> rule.body t) rest else .ok (none, t :: rest)

end Rule

end Essl
