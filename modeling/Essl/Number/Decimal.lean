import Essl.Number.Binary

/-!
# Decimal numbers

Reading a decimal numeral as the nearest single precision number, and writing a number. A whole
number is written exactly, any other with the fewest digits that read back, rounded up if they
could as well be rounded down; there is never an exponent.
-/

namespace Essl.Number

/-! ## Reading -/

/-- The value of decimal digits. -/
def digitsValue (digits : List Char) : Nat :=
  digits.foldl (fun value c => 10 * value + (c.toNat - '0'.toNat)) 0

/-- The number nearest to `± value * 10 ^ exponent`. Exponents far outside the range need no
exact arithmetic. -/
def ofScientific (negative : Bool) (value : Nat) (exponent : Int) : Float32 :=
  let magnitude := (Nat.toDigits 10 value).length + exponent
  if value = 0 ∨ magnitude < -60 then zero negative
  else if 60 < magnitude then infinity negative
  else if 0 ≤ exponent then ofQuotient negative (value * Nat.pow 10 exponent.toNat) 1
  else ofQuotient negative value (Nat.pow 10 (-exponent).toNat)

/-- The sign at the start of the text, and the rest. -/
def splitSign : List Char → Bool × List Char
  | '-' :: rest => (true, rest)
  | '+' :: rest => (false, rest)
  | rest => (false, rest)

/-- The exponent that the end of a numeral gives: none is zero. -/
def readExponent? (text : List Char) : Option Int :=
  match text with
  | [] => some 0
  | e :: rest =>
    let (negative, digits) := splitSign rest
    if (e = 'e' ∨ e = 'E') ∧ digits ≠ [] ∧ digits.all Char.isDigit then
      let value : Int := digitsValue digits
      some (if negative then -value else value)
    else none

/-- The number that an unsigned numeral stands for: digits with a point among, before or after
them, and an exponent. -/
def readUnsigned? (negative : Bool) (text : List Char) : Option Float32 :=
  let whole := text.takeWhile Char.isDigit
  let rest := text.dropWhile Char.isDigit
  let (fraction, rest) :=
    match rest with
    | '.' :: rest => (rest.takeWhile Char.isDigit, rest.dropWhile Char.isDigit)
    | rest => ([], rest)
  if whole.isEmpty && fraction.isEmpty then none
  else
    (readExponent? rest).map fun exponent =>
      ofScientific negative (digitsValue (whole ++ fraction)) (exponent - fraction.length)

/-- The number nearest to what the text says, if it is a numeral or the name of a special
value. -/
def read? (text : List Char) : Option Float32 :=
  let (negative, rest) := splitSign text
  let word := rest.map Char.toLower
  if word = ['i', 'n', 'f'] ∨ word = ['i', 'n', 'f', 'i', 'n', 'i', 't', 'y'] then
    some (infinity negative)
  else if word = ['n', 'a', 'n'] then some nan
  else readUnsigned? negative rest

/-! ## Writing -/

/-- A number `± digits / 10 ^ places` in positional notation. -/
def positional (negative : Bool) (digits places : Nat) : String :=
  let sign := if negative then "-" else ""
  let unit := Nat.pow 10 places
  let whole := toString (digits / unit)
  let fraction := toString (digits % unit)
  let zeros := String.ofList (List.replicate (places - fraction.length) '0')
  sign ++ whole ++ "." ++ zeros ++ fraction

/-- The numerator over `4 * 2 ^ (-q)` of the lower end of the numbers that round to
`m * 2 ^ q`: half a step below, or a quarter where the steps get smaller. -/
def lowerEnd (m : Nat) (q : Int) : Nat :=
  if m = implicitBit ∧ minExponent < q then 4 * m - 1 else 4 * m - 2

/-- Whether the decimal `digits / 10 ^ places` lies among the numbers that round to `m * 2 ^ q`,
where `q < 0`. The ends round to the even one of two neighbours. -/
def readsBack (m : Nat) (q : Int) (places digits : Nat) : Bool :=
  let scale := Nat.pow 10 places
  let low := lowerEnd m q * scale
  let high := (4 * m + 2) * scale
  let value := 4 * digits * Nat.pow 2 (-q).toNat
  (low < value && value < high) || (m % 2 == 0 && (value == low || value == high))

/-- The decimal with so many places nearest to `m * 2 ^ q`, where `q < 0`, of those that read back
as that number. Of two equally near it is the one further from zero. -/
def nearest? (m : Nat) (q : Int) (places : Nat) : Option Nat :=
  let one := Nat.pow 2 (-q).toNat
  let scaled := m * Nat.pow 10 places
  let below := scaled / one
  let above := below + 1
  if readsBack m q places above ∧ (¬readsBack m q places below ∨ one ≤ 2 * (scaled % one)) then
    some above
  else if readsBack m q places below then some below
  else none

/-- The fewest places, at least so many, with which `m * 2 ^ q` reads back, and the digits. -/
def shortest (m : Nat) (q : Int) : Nat → Nat → Nat × Nat
  | 0, places => (0, places)
  | steps + 1, places =>
    match nearest? m q places with
    | some digits => (digits, places)
    | none => shortest m q steps (places + 1)

/-- The text of a number. -/
def text (x : Float32) : String :=
  match decode x with
  | .nan => "NaN"
  | .infinite negative => if negative then "-inf" else "inf"
  | .finite negative m q =>
    let unit := Nat.pow 2 (-q).toNat
    if 0 ≤ q then positional negative (m * Nat.pow 2 q.toNat * 10) 1
    else if m % unit = 0 then positional negative (m / unit * 10) 1
    else
      let (digits, places) := shortest m q 150 1
      positional negative digits places

end Essl.Number
