import Essl.Directive.Reader

/-!
# Preprocessed tokens

The token stream of a shader after its directives are carried out and its macros expanded.
Tokens are produced on demand, so that macros can still be defined while a shader is read.
-/

namespace Essl

/-- A source of tokens part of the way through a shader. -/
structure Preprocessor where
  /-- Tokens that were looked at or put back. -/
  ready : List Token
  queue : Queue Reader

namespace Preprocessor

/-- Reads a feed with the macros of the language. -/
def ofFeed (feed : Feed) : Preprocessor := ⟨[], ⟨[], ⟨feed, .predefined⟩⟩⟩

/-- Defines a macro without parameters for the tokens that are still to be expanded. -/
def define (p : Preprocessor) (name value : String) : Preprocessor :=
  { p with queue.later.env := p.queue.later.env.defineText name value (.define name) }

/-- Defines macros in the order given, so that the last of one name holds. -/
def defineAll (p : Preprocessor) (definitions : List (String × String)) : Preprocessor :=
  definitions.foldl (fun p d => p.define d.1 d.2) p

/-- The definition of a name at this point of the shader. -/
def findMacro? (p : Preprocessor) (name : String) : Option MacroDef :=
  p.queue.later.env.macros.find? name

/-- The next token that comes out of expansion. An expansion that has no end ends the input. -/
def produce (p : Preprocessor) : Option Token × Preprocessor :=
  match p.queue.next Reader.supply with
  | (.token token, queue) => (some token, { p with queue })
  | (.finished, queue) => (none, { p with queue })
  | (.gaveUp, queue) => (none, { p with queue := ⟨[], ⟨.empty, queue.later.env⟩⟩ })

/-- Removes the next token. -/
def next (p : Preprocessor) : Option Token × Preprocessor :=
  match p.ready with
  | token :: ready => (some token, { p with ready })
  | [] => p.produce

/-- Looks at the next token. -/
def peek (p : Preprocessor) : Option Token × Preprocessor :=
  match p.ready with
  | token :: _ => (some token, p)
  | [] =>
    match p.produce with
    | (some token, p) => (some token, { p with ready := [token] })
    | (none, p) => (none, p)

/-- Puts a token in front. -/
def unconsume (token : Token) (p : Preprocessor) : Preprocessor :=
  { p with ready := token :: p.ready }

/-- Looks whether anything is left. -/
def eof (p : Preprocessor) : Bool × Preprocessor := (p.peek.1.isNone, p.peek.2)

/-- Removes the errors found so far. -/
def takeErrors (p : Preprocessor) : List FrontError × Preprocessor :=
  (p.queue.later.env.errors, { p with queue.later.env.errors := [] })

/-- At most so many of the tokens that are left. -/
def takeTokens : Nat → Preprocessor → List Token × Preprocessor
  | 0, p => ([], p)
  | count + 1, p =>
    match p.next with
    | (some token, p) =>
      let (tokens, p) := takeTokens count p
      (token :: tokens, p)
    | (none, p) => ([], p)

/-- At most so many deliveries: each token with the errors that producing it brings up. -/
def deliver : Nat → Preprocessor → Feed
  | 0, _ => .empty
  | count + 1, p =>
    match p.next with
    | (some token, p) =>
      let (errors, p) := p.takeErrors
      let later := deliver count p
      ⟨⟨errors, token⟩ :: later.deliveries, later.trailing⟩
    | (none, p) => ⟨[], p.takeErrors.1⟩

/-- More tokens than come out before the input ends. -/
def tokenLimit (p : Preprocessor) : Nat := p.ready.length + p.queue.stepLimit Reader.supply

/-- Removes everything that is left. -/
def rest (p : Preprocessor) : List Token × Preprocessor := p.takeTokens p.tokenLimit

/-- Everything that is left, as a feed. -/
def toFeed (p : Preprocessor) : Feed := deliver p.tokenLimit p

end Preprocessor

/-- The tokens of a shader text after preprocessing with some definitions. -/
def Code.preprocess (code : Code) (definitions : List (String × String)) : Feed :=
  ((Preprocessor.ofFeed code.scan).defineAll definitions).toFeed

end Essl
