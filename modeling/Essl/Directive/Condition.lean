import Essl.Diagnostic

/-!
# Conditions of directives

The expression after `#if` and `#elif` is evaluated with 64-bit integers while it is read. An
operand that `&&` or `||` does not need is read but not evaluated: it can only fail by being
ill-formed.
-/

namespace Essl.Condition

/-- Why a condition has no value. -/
abbrev Failure := Located DirectiveCause

/-- How tightly a binary operator binds. -/
def precedence? : Operator → Option Nat
  | .logicalOr => some 1
  | .logicalAnd => some 2
  | .bitOr => some 3
  | .bitXor => some 4
  | .bitAnd => some 5
  | .equal | .notEqual => some 6
  | .less | .lessEqual | .greater | .greaterEqual => some 7
  | .shiftLeft | .shiftRight => some 8
  | .plus | .minus => some 9
  | .times | .divide | .remainder => some 10
  | _ => none

/-- How conditions write truth values. -/
def truth (b : Bool) : Int64 := if b then 1 else 0

/-- The integer, if 64 bits hold it. -/
def fit? (value : Int) : Option Int64 :=
  if Int64.minValue.toInt ≤ value ∧ value ≤ Int64.maxValue.toInt then some (Int64.ofInt value)
  else none

/-- Shifts take amounts from 0 to 63. -/
def shift? (f : Int64 → Int64 → Int64) (a amount : Int64) : Option Int64 :=
  if 0 ≤ amount.toInt ∧ amount.toInt < 64 then some (f a amount) else none

/-- The result of an operator on two values, if 64 bits hold it. The divisor is not zero. -/
def compute? (op : Operator) (a b : Int64) : Option Int64 :=
  match op with
  | .logicalOr => some (truth (a != 0 || b != 0))
  | .logicalAnd => some (truth (a != 0 && b != 0))
  | .bitOr => some (a ||| b)
  | .bitXor => some (a ^^^ b)
  | .bitAnd => some (a &&& b)
  | .equal => some (truth (a == b))
  | .notEqual => some (truth (a != b))
  | .less => some (truth (a.toInt < b.toInt))
  | .lessEqual => some (truth (a.toInt ≤ b.toInt))
  | .greater => some (truth (b.toInt < a.toInt))
  | .greaterEqual => some (truth (b.toInt ≤ a.toInt))
  | .shiftLeft => shift? (· <<< ·) a b
  | .shiftRight => shift? (· >>> ·) a b
  | .plus => fit? (a.toInt + b.toInt)
  | .minus => fit? (a.toInt - b.toInt)
  | .times => fit? (a.toInt * b.toInt)
  | .divide => fit? (a.toInt.tdiv b.toInt)
  | .remainder => (fit? (a.toInt.tdiv b.toInt)).bind fun _ => fit? (a.toInt.tmod b.toInt)
  | _ => some 0

/-- What a computation that has no result comes to: an error where it is evaluated. -/
def fail (live : Bool) (cause : DirectiveCause) (location : Location) : Except Failure Int64 :=
  if live then .error ⟨cause, location⟩ else .ok 0

/-- The value of a binary operation. -/
def apply (live : Bool) (op : Operator) (location : Location) (a b : Int64) :
    Except Failure Int64 :=
  if (op = .divide ∨ op = .remainder) ∧ b = 0 then fail live .divisionByZero location
  else
    match compute? op a b with
    | some value => .ok value
    | none => fail live .overflow location

/-- The operators that come before an operand. -/
def isSign (op : Operator) : Bool :=
  op == .plus || op == .minus || op == .complement || op == .logicalNot

/-- The value of an operation on one operand. -/
def applySign (live : Bool) (op : Operator) (location : Location) (a : Int64) :
    Except Failure Int64 :=
  match op with
  | .minus =>
    match fit? (-a.toInt) with
    | some value => .ok value
    | none => fail live .overflow location
  | .complement => .ok (~~~a)
  | .logicalNot => .ok (truth (a == 0))
  | _ => .ok a

/-- Whether the right operand of an operator needs a value, given that of the left one. -/
def needsRight (live : Bool) (op : Operator) (a : Int64) : Bool :=
  if op = .logicalAnd ∧ a = 0 then false
  else if op = .logicalOr ∧ a ≠ 0 then false
  else live

/-- The failure of an expression that breaks off or goes wrong at a place. -/
def illFormed (location : Location) : Except Failure (Int64 × List Token) :=
  .error ⟨.invalidExpression, location⟩

mutual

/-- Reads a constant, a name, an expression in parentheses, or a sign before one of these. -/
def leaf (stop : Location) : Nat → Bool → List Token → Except Failure (Int64 × List Token)
  | 0, _, _ | _, _, [] => illFormed stop
  | depth + 1, live, t :: rest =>
    match t.kind with
    | .intConstant =>
      match t.intValue? with
      | some value => .ok (value.toInt64, rest)
      | none => illFormed t.location
    | .identifier => do
      let value ← fail live (.undefinedIdentifier t.text) t.location
      .ok (value, rest)
    | .operator .openParen => do
      let (value, rest) ← tree stop depth 1 live rest
      match rest with
      | closing :: rest =>
        if closing.isOperator .closeParen then .ok (value, rest)
        else illFormed closing.location
      | [] => illFormed stop
    | .operator op =>
      if isSign op then do
        let (operand, rest) ← leaf stop depth live rest
        let value ← applySign live op t.location operand
        .ok (value, rest)
      else illFormed t.location
    | _ => illFormed t.location

/-- Reads an expression with operators that bind at least as tightly as given. -/
def tree (stop : Location) :
    Nat → Nat → Bool → List Token → Except Failure (Int64 × List Token)
  | 0, _, _, _ => illFormed stop
  | depth + 1, loosest, live, ts => do
    let (left, rest) ← leaf stop depth live ts
    climb stop depth loosest live left rest

/-- Goes on after a left operand while operators follow that bind at least as tightly as
given. -/
def climb (stop : Location) :
    Nat → Nat → Bool → Int64 → List Token → Except Failure (Int64 × List Token)
  | 0, _, _, _, _ => illFormed stop
  | _, _, _, left, [] => .ok (left, [])
  | depth + 1, loosest, live, left, t :: rest =>
    match t.kind.operator?.bind fun op => (precedence? op).map (op, ·) with
    | none => .ok (left, t :: rest)
    | some (op, level) =>
      if level < loosest then .ok (left, t :: rest)
      else do
        let needed := needsRight live op left
        let (right, rest) ← tree stop depth (level + 1) needed rest
        let value ← apply needed op t.location left right
        climb stop depth loosest live value rest

end

/-- The value of the tokens of a condition after macro expansion. An empty condition is faulty
at the end of the directive's name. -/
def evaluate (directive : Location) (ts : List Token) : Except Failure Int64 := do
  let stop := (ts.getLast?.elim directive Token.location).endpoint
  let (value, rest) ← tree stop (2 * ts.length + 2) 1 true ts
  match rest with
  | [] => .ok value
  | t :: _ => .error ⟨.invalidExpression, t.location⟩

end Essl.Condition
