/-!
# Numerals

The value that the text of an integer constant stands for: decimal, octal after a leading `0`,
hexadecimal after `0x`. Octal and hexadecimal numerals give the bits of a 32-bit integer.
-/

namespace Essl.Numeral

/-- The value of a digit in the given base, of which the letters of either case continue the
decimal digits. -/
def digitValue? (base : Nat) (c : Char) : Option Nat :=
  let value :=
    if c.isDigit then c.toNat - '0'.toNat
    else if 'a' ≤ c ∧ c ≤ 'z' then c.toNat - 'a'.toNat + 10
    else if 'A' ≤ c ∧ c ≤ 'Z' then c.toNat - 'A'.toNat + 10
    else base
  if value < base then some value else none

/-- The value of a run of digits, continuing a value read so far. -/
def digitsFrom? (base : Nat) : Nat → List Char → Option Nat
  | value, [] => some value
  | value, c :: rest =>
    (digitValue? base c).bind fun digit => digitsFrom? base (value * base + digit) rest

/-- The value of a nonempty run of digits, which a plus sign may precede, below `2 ^ 32`. -/
def natural? (base : Nat) (text : List Char) : Option Nat :=
  let digits := if text.head? = some '+' then text.tail else text
  if digits.isEmpty then none
  else (digitsFrom? base 0 digits).filter (· < 0x100000000)

/-- The integer with these 32 bits. -/
def ofBits (value : Nat) : Int32 := Int32.ofInt value

/-- The value of an integer constant, if its text is a numeral that fits. -/
def intValue? (text : List Char) : Option Int32 :=
  match text with
  | '0' :: 'x' :: digits | '0' :: 'X' :: digits => (natural? 16 digits).map ofBits
  | '0' :: c :: digits => (natural? 8 (c :: digits)).map ofBits
  | _ => ((natural? 10 text).filter (· < 0x80000000)).map ofBits

end Essl.Numeral
