import Essl.Macro.Table

/-!
# Macro expansion

Tokens wait in a queue for expansion. A name that a macro defines is replaced by the
replacement list, whose tokens go back to the front of the queue, with that macro hidden from
them. Once the queue is empty, tokens come from a supply: nothing in a directive line, the rest
of the shader otherwise.
-/

namespace Essl

/-- A token that waits for expansion, and the macros that must not expand it again because it
comes out of them. -/
structure Candidate where
  token : Token
  hidden : List String

/-- A token that any macro may expand. -/
def Candidate.ofToken (token : Token) : Candidate := ⟨token, []⟩

/-- Where tokens come from once none is waiting, which macros apply, and where errors go. The
supply runs dry. -/
structure Supply (σ : Type) where
  next : σ → Option Token × σ
  macros : σ → MacroTable
  report : FrontError → σ → σ
  size : σ → Nat
  size_lt_of_next : ∀ {s t s'}, next s = (some t, s') → size s' < size s

/-- Tokens that wait in front of a supply. -/
structure Queue (σ : Type) where
  waiting : List Candidate
  later : σ

namespace Queue

variable {σ : Type} (S : Supply σ)

/-- Bounds how many tokens can be pulled. -/
def size (q : Queue σ) : Nat := q.waiting.length + S.size q.later

/-- The next token before expansion. -/
def pull (q : Queue σ) : Option Candidate × Queue σ :=
  match q.waiting with
  | c :: rest => (some c, ⟨rest, q.later⟩)
  | [] => ((S.next q.later).1.map Candidate.ofToken, ⟨[], (S.next q.later).2⟩)

/-- Puts tokens in front. -/
def push (cs : List Candidate) (q : Queue σ) : Queue σ := ⟨cs ++ q.waiting, q.later⟩

/-- Passes an error to the supply. -/
def report (cause : DirectiveCause) (location : Location) (q : Queue σ) : Queue σ :=
  ⟨q.waiting, S.report ⟨.directive cause, location⟩ q.later⟩

variable {S}

theorem size_lt_of_pull {q q' : Queue σ} {c : Candidate} (h : q.pull S = (some c, q')) :
    q'.size S < q.size S := by
  unfold pull at h
  split at h
  · rename_i heq
    simp only [Prod.mk.injEq] at h
    simp [size, ← h.2, heq]
  · rename_i heq
    cases hnext : S.next q.later with
    | mk t later =>
        rw [hnext] at h
        cases t with
        | none => simp at h
        | some t =>
            have := S.size_lt_of_next hnext
            simp only [Prod.mk.injEq] at h
            simp [size, ← h.2, heq, this]

variable (S)

/-- Pulls up to the parenthesis that closes `depth` inner ones and one more, if there is one.
All that is there is pulled otherwise. -/
def untilClosing (depth : Nat) (q : Queue σ) : Option (List Candidate × Candidate) × Queue σ :=
  match _h : q.pull S with
  | (none, q') => (none, q')
  | (some c, q') =>
    if c.token.isOperator .closeParen && depth == 0 then (some ([], c), q')
    else
      let depth :=
        if c.token.isOperator .openParen then depth + 1
        else if c.token.isOperator .closeParen then depth - 1
        else depth
      let (found, q'') := untilClosing depth q'
      (found.map fun (inside, closing) => (c :: inside, closing), q'')
termination_by q.size S
decreasing_by exact size_lt_of_pull _h

end Queue

/-- Cuts the inside of an argument list at the commas that no inner parentheses enclose. The
text `depth` parentheses deep goes on with the first argument. -/
def splitArguments : Nat → List Candidate → List (List Candidate)
  | _, [] => [[]]
  | depth, c :: rest =>
    if c.token.isOperator .comma && depth == 0 then [] :: splitArguments 0 rest
    else
      let depth :=
        if c.token.isOperator .openParen then depth + 1
        else if c.token.isOperator .closeParen then depth - 1
        else depth
      match splitArguments depth rest with
      | [] => [[c]]
      | first :: others => (c :: first) :: others

/-- Replaces the parameters in a replacement list by the arguments. The tokens of the list are
hidden from the macros that are being expanded, those of an argument from what they were. -/
def substitute (body : List Token) (parameters : List String) (arguments : List (List Candidate))
    (hidden : List String) : List Candidate :=
  body.flatMap fun token =>
    let argument :=
      if token.kind = .identifier then
        (parameters.zip arguments).find? (·.1 == token.text)
      else none
    match argument with
    | some (_, argument) => argument
    | none => [⟨token, hidden⟩]

/-- Gives an expansion the location of the invocation, and its first token the flags of the
name. -/
def placeAt (name : Token) (location : Location) (cs : List Candidate) : List Candidate :=
  match cs.map fun c => { c with token := { c.token with location } } with
  | [] => []
  | first :: rest =>
    { first with token := { first.token with
        firstInLine := name.firstInLine, afterSpace := name.afterSpace } } :: rest

/-- The integer constant that `__LINE__` stands for. -/
def lineNumber (name : Token) : Token :=
  { name with kind := .intConstant, text := toString name.location.lineColumn.1 }

/-- Whether arguments fit parameters. A macro without parameters is called with nothing
between the parentheses. -/
def argumentsFit (parameters : List String) (arguments : List (List Candidate)) : Bool :=
  arguments.length == parameters.length ||
    (parameters.isEmpty && arguments.length == 1 && arguments.all List.isEmpty)

namespace Queue

variable {σ : Type} (S : Supply σ)

/-- The arguments of an invocation of which the opening parenthesis has been pulled, and the
parenthesis that closes it. -/
def arguments (name : Token) (q : Queue σ) :
    Option (List (List Candidate) × Candidate) × Queue σ :=
  match q.untilClosing S 0 with
  | (none, q) => (none, q.report S (.unclosedInvocation name.text) name.location)
  | (some (inside, closing), q) => (some (splitArguments 0 inside, closing), q)

/-- Expands an invocation with arguments, of which the name has been pulled. Without an opening
parenthesis the name stays; a faulty invocation expands to nothing. -/
def expandInvocation (m : MacroDef) (parameters : List String) (name : Candidate)
    (q : Queue σ) : Option (List Candidate) × Queue σ :=
  match q.pull S with
  | (none, q) => (none, q)
  | (some next, q) =>
    if next.token.isOperator .openParen then
      match q.arguments S name.token with
      | (none, q) => (some [], q)
      | (some (arguments, closing), q) =>
        let location := name.token.location.join closing.token.location
        if argumentsFit parameters arguments then
          (some (placeAt name.token location
            (substitute m.body parameters arguments (name.hidden ++ [m.name]))), q)
        else
          (some [], q.report S (.argumentCount m.name parameters.length arguments.length) location)
    else (none, q.push [next])

/-- Expands a name that has been pulled, unless it is to stay as it is. -/
def expand (name : Candidate) (q : Queue σ) : Option (List Candidate) × Queue σ :=
  if name.token.text ∈ name.hidden then (none, q)
  else if name.token.text = "__LINE__" then (some [⟨lineNumber name.token, name.hidden⟩], q)
  else
    match (S.macros q.later).find? name.token.text with
    | none => (none, q)
    | some m =>
      match m.parameters with
      | none =>
        (some (placeAt name.token name.token.location
          (substitute m.body [] [] (name.hidden ++ [m.name]))), q)
      | some parameters => q.expandInvocation S m parameters name

end Queue

/-- What comes next after expansion. -/
inductive Settled where
  | token (token : Token)
  | finished
  /-- The expansion did not come to an end within the steps allowed. -/
  | gaveUp

namespace Queue

variable {σ : Type} (S : Supply σ)

/-- Expands at the front of the queue until a token comes out that stays, in at most so many
steps. -/
def settle : Nat → Queue σ → Settled × Queue σ
  | 0, q => (.gaveUp, q)
  | steps + 1, q =>
    match q.pull S with
    | (none, q) => (.finished, q)
    | (some c, q) =>
      if c.token.kind = .identifier then
        match q.expand S c with
        | (some cs, q) => settle steps (q.push cs)
        | (none, q) => (.token c.token, q)
      else (.token c.token, q)

/-- Enough steps for macros without parameters, whatever their replacement lists, because a
macro is not expanded inside itself; and more than can be waited for. -/
def stepLimit (q : Queue σ) : Nat :=
  let table := S.macros q.later
  max ((q.size S + 1) * Nat.pow (table.bodySize + 2) (table.entries.length + 2)) (Nat.pow 2 60)

/-- What comes next after expansion. -/
def next (q : Queue σ) : Settled × Queue σ := q.settle S (q.stepLimit S)

/-- At most so many tokens after expansion. -/
def takeTokens : Nat → Queue σ → List Token × Queue σ
  | 0, q => ([], q)
  | count + 1, q =>
    match q.next S with
    | (.token token, q) =>
      let (tokens, q) := takeTokens count q
      (token :: tokens, q)
    | (_, q) => ([], q)

end Queue

/-- The supply of a directive line: no tokens beyond the line. -/
def lineSupply : Supply (MacroTable × List FrontError) where
  next s := (none, s)
  macros s := s.1
  report error s := (s.1, s.2 ++ [error])
  size _ := 0
  size_lt_of_next h := by simp at h

/-- Expands the macros in a directive line. -/
def expandLine (table : MacroTable) (line : List Token) : List Token × List FrontError :=
  let q : Queue _ := ⟨line.map Candidate.ofToken, (table, [])⟩
  let (tokens, q) := q.takeTokens lineSupply (q.stepLimit lineSupply)
  (tokens, q.later.2)

end Essl
