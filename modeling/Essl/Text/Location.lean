import Essl.Text.Bytes

/-!
# Locations

A location is a byte range in a piece of shader text. Lines and columns are derived from it
when it is shown.
-/

namespace Essl

open Text

/-- Where a piece of shader text came from. -/
inductive Origin where
  | unknown
  | file (path : String)
  /-- The value of a macro that the embedder defines. -/
  | define (name : String)
  /-- Text that belongs to the language itself. -/
  | builtin
  deriving DecidableEq, Inhabited

/-- How diagnostics refer to text of this origin. -/
def Origin.label : Origin → String
  | unknown => "<?>"
  | file path => path
  | define _ => "<define>"
  | builtin => "<builtin>"

/-- A piece of shader text. Its first line has the number `firstLine`. -/
structure Code where
  chars : List Char
  firstLine : Nat
  origin : Origin
  deriving Inhabited

/-- Locations that are compared mostly lie in one and the same piece of text, which is then not
read. -/
instance : DecidableEq Code := fun a b =>
  withPtrEqDecEq a b fun _ =>
    match a, b with
    | ⟨cs, m, o⟩, ⟨ds, n, p⟩ => decidable_of_iff (cs = ds ∧ m = n ∧ o = p) (by simp)

namespace Code

/-- Text that starts at line 1. -/
def ofString (value : String) (origin : Origin) : Code := ⟨value.toList, 1, origin⟩

/-- Length in bytes. -/
def size (code : Code) : Nat := byteLength code.chars

/-- Line and column of the character at a byte index. An index inside a character stands for
its start, one past the end for the end; columns count characters from 1. Line numbers have 64
bits, so that the number of a line very far down wraps around. -/
def lineColumn (code : Code) (index : Nat) : Nat × Nat :=
  let (line, column) := advance index code.firstLine 1 code.chars
  (line % UInt64.size, column)

/-- Lines and columns are those of the text before the index. -/
theorem lineColumn_eq (code : Code) (index : Nat) :
    code.lineColumn index =
      ((code.firstLine + (takeUpTo index code.chars).count '\n') % UInt64.size,
        (lastLine (takeUpTo index code.chars)).length + 1) := by
  rw [lineColumn, advance_eq]
  dsimp only
  split
  · rfl
  · rename_i h
    rw [lastLine_of_not_mem h, Nat.add_comm 1]

end Code

/-- The bytes of `code` from `start` up to `stop`. -/
structure Location where
  code : Code
  start : Nat
  stop : Nat
  deriving DecidableEq, Inhabited

namespace Location

/-- All of a piece of text of unknown origin. -/
def whole (value : String) : Location :=
  ⟨.ofString value .unknown, 0, byteLength value.toList⟩

/-- The text that a location covers, empty if its ends are no boundaries in order. -/
def text (location : Location) : String :=
  String.ofList
    ((sliceBytes location.start location.stop location.code.chars).getD [])

/-- The line and column at which a location starts. -/
def lineColumn (location : Location) : Nat × Nat := location.code.lineColumn location.start

/-- The smallest range that covers both locations, or the first one if the second lies in
other text. -/
def join (first second : Location) : Location :=
  if first.code = second.code then
    ⟨first.code, min first.start second.start, max first.stop second.stop⟩
  else first

/-- The `size` bytes after the first `offset`, cut off at the end of the location. -/
def slice (location : Location) (offset size : Nat) : Location :=
  let start := min (location.start + offset) location.stop
  ⟨location.code, start, min (start + size) location.stop⟩

/-- The empty range at the end. -/
def endpoint (location : Location) : Location :=
  ⟨location.code, location.stop, location.stop⟩

end Location

end Essl
