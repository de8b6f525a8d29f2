import Essl.Grammar.Shader
import Essl.Token.Feed

/-!
# Parsers

A parser applies the grammar to a token stream and turns failures into diagnostics.
-/

namespace Essl

/-- A stream that is being parsed, and where the last token taken from it was. -/
structure Parser where
  stream : TokenStream
  last : Option Location

namespace Parser

open Grammar

/-- A parser that has taken nothing yet. -/
def ofFeed (feed : Feed) : Parser := ⟨.ofFeed feed, none⟩

/-- Looks at the next token. -/
def peek (p : Parser) : Option Token × Parser :=
  (p.stream.peek.1, { p with stream := p.stream.peek.2 })

/-- Removes the next token. -/
def take (p : Parser) : Option Token × Parser :=
  let (token, stream) := p.stream.next
  (token, ⟨stream, (token.map Token.location).or p.last⟩)

/-- Puts a token in front. -/
def unconsume (t : Token) (p : Parser) : Parser := { p with stream := p.stream.unconsume t }

/-- Removes so many tokens. -/
def advance : Nat → Parser → Parser
  | 0, p => p
  | count + 1, p => advance count p.take.2

/-- The place just after the last token taken. -/
def endpoint (p : Parser) : Location := p.last.elim (.whole "") Location.endpoint

/-- The diagnostic for a token, if any, that is none of those expected. -/
def unexpected (p : Parser) (expected : List TokenKind) (found : Option Token) : FrontError :=
  ⟨.grammar (.expected expected (found.map Token.text)), found.elim p.endpoint Token.location⟩

/-- What is left after a failure: all that was looked at is taken notice of. -/
def afterFailure (p : Parser) (failure : SyntaxFailure) : Parser :=
  let size := p.stream.feed.deliveries.length
  let p := p.advance (size - failure.rest.length)
  if failure.found.isNone || failure.lookedAhead then p.peek.2 else p

/-- Applies a grammar function. -/
def run {α : Type} (parse : Parse α) (p : Parser) : Except FrontError α × Parser :=
  let tokens := p.stream.feed.tokens
  match parse tokens with
  | .ok (result, rest) => (.ok result, p.advance (tokens.length - rest.length))
  | .error failure =>
    let p := p.afterFailure failure
    (.error (p.unexpected failure.expected failure.found), p)

/-- Removes the next token if it satisfies a condition. -/
def acceptIf (condition : Token → Bool) (p : Parser) : Option Token × Parser :=
  match p.peek with
  | (some t, p) => if condition t then p.take else (none, p)
  | (none, p) => (none, p)

/-- Parses a whole shader. The errors found in the tokens come first, then the syntax error. -/
def shader (p : Parser) : Shader × List FrontError × Parser :=
  let parsed := parseShader p.stream.feed.tokens
  match parsed.failure with
  | none =>
    let p := (p.advance p.stream.feed.deliveries.length).peek.2
    let (errors, stream) := p.stream.takeErrors
    (parsed.shader, errors, { p with stream })
  | some failure =>
    let p := p.afterFailure failure
    let (errors, stream) := p.stream.takeErrors
    (parsed.shader, errors ++ [p.unexpected failure.expected failure.found], { p with stream })

end Parser

end Essl
