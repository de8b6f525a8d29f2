/-!
# Byte offsets in a list of characters

Offsets count the bytes of the UTF-8 encoding. An offset that falls inside a character is no
boundary: cutting there fails, rounding goes down to the start of the character. Lines and
columns are counted up to an offset, columns in characters.
-/

namespace Essl.Text

/-- Number of bytes that the characters take. -/
def byteLength : List Char → Nat
  | [] => 0
  | c :: rest => c.utf8Size + byteLength rest

@[simp] theorem byteLength_nil : byteLength [] = 0 := rfl

@[simp] theorem byteLength_cons (c : Char) (rest : List Char) :
    byteLength (c :: rest) = c.utf8Size + byteLength rest := rfl

@[simp] theorem byteLength_append (a b : List Char) :
    byteLength (a ++ b) = byteLength a + byteLength b := by
  induction a with
  | nil => simp
  | cons c a ih => simp [ih, Nat.add_assoc]

/-- The longest leading part that takes at most `size` bytes. -/
def takeUpTo : Nat → List Char → List Char
  | _, [] => []
  | size, c :: rest =>
    if c.utf8Size ≤ size then c :: takeUpTo (size - c.utf8Size) rest else []

/-- Splits after exactly `size` bytes, if a character ends there. -/
def splitBytes : Nat → List Char → Option (List Char × List Char)
  | 0, text => some ([], text)
  | _ + 1, [] => none
  | size + 1, c :: rest =>
    if c.utf8Size ≤ size + 1 then
      (splitBytes (size + 1 - c.utf8Size) rest).map fun (left, right) => (c :: left, right)
    else none

theorem splitBytes_byteLength (a b : List Char) :
    splitBytes (byteLength a) (a ++ b) = some (a, b) := by
  induction a with
  | nil => simp [splitBytes]
  | cons c a ih =>
      have hpos := c.utf8Size_pos
      obtain ⟨n, hn⟩ : ∃ n, byteLength (c :: a) = n + 1 :=
        ⟨byteLength (c :: a) - 1, by simp; omega⟩
      have hrest : n + 1 - c.utf8Size = byteLength a := by simp at hn; omega
      have hfits : c.utf8Size ≤ n + 1 := by simp at hn; omega
      simp [hn, splitBytes, hfits, hrest, ih]

/-- The characters between two byte offsets, if both are boundaries in order. -/
def sliceBytes (start stop : Nat) (text : List Char) : Option (List Char) :=
  if start ≤ stop then
    (splitBytes start text).bind fun (_, rest) =>
      (splitBytes (stop - start) rest).map Prod.fst
  else none

/-! ## Lines -/

/-- The line and column after as many whole characters as `size` bytes hold, counted on from a
line and column before them. -/
def advance : (size line column : Nat) → List Char → Nat × Nat
  | _, line, column, [] => (line, column)
  | size, line, column, c :: rest =>
    if c.utf8Size ≤ size then
      if c = '\n' then advance (size - c.utf8Size) (line + 1) 1 rest
      else advance (size - c.utf8Size) line (column + 1) rest
    else (line, column)

/-- The characters after the last line break. -/
def lastLine : List Char → List Char
  | [] => []
  | c :: rest => if '\n' ∈ c :: rest then lastLine rest else c :: rest

theorem lastLine_of_not_mem {cs : List Char} (h : '\n' ∉ cs) : lastLine cs = cs := by
  cases cs with
  | nil => rfl
  | cons c rest => rw [lastLine, if_neg h]

theorem advance_eq (size line column : Nat) (cs : List Char) :
    advance size line column cs =
      (line + (takeUpTo size cs).count '\n',
        if '\n' ∈ takeUpTo size cs then (lastLine (takeUpTo size cs)).length + 1
        else column + (takeUpTo size cs).length) := by
  induction cs generalizing size line column with
  | nil => simp [advance, takeUpTo]
  | cons c rest ih =>
      by_cases hfits : c.utf8Size ≤ size
      · by_cases hc : c = '\n'
        · subst hc
          by_cases hmem : '\n' ∈ takeUpTo (size - '\n'.utf8Size) rest
          · simp [advance, takeUpTo, lastLine, hfits, ih, hmem]
            omega
          · simp [advance, takeUpTo, lastLine, hfits, ih, hmem, lastLine_of_not_mem]
            omega
        · have hne : '\n' ≠ c := fun h => hc h.symm
          simp [advance, takeUpTo, lastLine, hfits, ih, hc, hne]
          split <;> omega
      · simp [advance, takeUpTo, hfits]

end Essl.Text
