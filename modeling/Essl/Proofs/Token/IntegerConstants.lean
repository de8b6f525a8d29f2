import Essl.Proofs.Token.Literals
import Essl.Proofs.Token.Places
import Essl.Proofs.Token.Respelling
import Mathlib.Data.Nat.Digits.Defs
import Mathlib.Tactic.Ring
import Mathlib.Tactic.SplitIfs

/-!
# What integer constants stand for

The value of an integer constant is that of the digits it is written with, in the base that they
are introduced by. A scan cuts numerals out of a text by the characters that may follow one
another, and their values are read without a look at the text around them. The two agree: a scan
complains about exactly those numerals that have no value.
-/

namespace Essl

open Text

namespace Numeral

/-! ## Digits -/

private theorem le_iff_toNat_le {c d : Char} : c ≤ d ↔ c.toNat ≤ d.toNat := by
  rw [Char.le_def, UInt32.le_iff_toNat_le]
  rfl

private theorem isDigit_iff_toNat {c : Char} :
    c.isDigit = true ↔ 48 ≤ c.toNat ∧ c.toNat ≤ 57 := by
  simp [Char.isDigit, UInt32.le_iff_toNat_le]

private theorem toNat_toLower (c : Char) :
    c.toLower.toNat = if 65 ≤ c.toNat ∧ c.toNat ≤ 90 then c.toNat + 32 else c.toNat := by
  have hupper : c.val ≥ 'A'.val ∧ c.val ≤ 'Z'.val ↔ 65 ≤ c.toNat ∧ c.toNat ≤ 90 := by
    rw [ge_iff_le, UInt32.le_iff_toNat_le, UInt32.le_iff_toNat_le]
    rfl
  unfold Char.toLower
  split
  · rename_i h
    have hbounds := hupper.1 h
    rw [if_pos hbounds]
    change (c.val + 32).toNat = c.toNat + 32
    rw [UInt32.toNat_add, Nat.mod_eq_of_lt]
    · rfl
    · change c.toNat + 32 < _
      omega
  · rename_i h
    rw [if_neg (hupper.not.1 h)]

private theorem toNat_digitChar :
    ∀ d < 16, (Nat.digitChar d).toNat = if d < 10 then 48 + d else 87 + d := by decide

theorem toLower_eq_digitChar_iff {c : Char} {d : Nat} (hd : d < 16) :
    c.toLower = Nat.digitChar d ↔
      if d < 10 then c.toNat = 48 + d else c.toNat = 87 + d ∨ c.toNat = 55 + d := by
  rw [← Char.toNat_inj, toNat_toLower, toNat_digitChar d hd]
  split_ifs <;> omega

theorem digitValue?_eq_some_iff {base d : Nat} (hbase : base ≤ 16) {c : Char} :
    digitValue? base c = some d ↔ d < base ∧ c.toLower = Nat.digitChar d := by
  have hlower : 'a' ≤ c ∧ c ≤ 'z' ↔ 97 ≤ c.toNat ∧ c.toNat ≤ 122 := by
    rw [le_iff_toNat_le, le_iff_toNat_le]
    rfl
  have hupper : 'A' ≤ c ∧ c ≤ 'Z' ↔ 65 ≤ c.toNat ∧ c.toNat ≤ 90 := by
    rw [le_iff_toNat_le, le_iff_toNat_le]
    rfl
  have hzero : '0'.toNat = 48 := rfl
  have ha : 'a'.toNat = 97 := rfl
  have hA : 'A'.toNat = 65 := rfl
  simp only [digitValue?, isDigit_iff_toNat, hlower, hupper, hzero, ha, hA,
    Option.ite_none_right_eq_some, Option.some.injEq]
  by_cases hd : d < base
  · rw [toLower_eq_digitChar_iff (by omega)]
    split_ifs <;> omega
  · omega

/-! ## Numerals in a base -/

/-- The text consists of digits of the base, with letters of either case, and the value is what
they stand for. -/
def Writes (base : Nat) (text : List Char) (value : Nat) : Prop :=
  ∃ digits : List Nat, digits ≠ [] ∧ (∀ d ∈ digits, d < base) ∧
    text.map Char.toLower = digits.map Nat.digitChar ∧ Nat.ofDigits base digits.reverse = value

theorem digitsFrom?_eq_some_iff {base : Nat} (hbase : base ≤ 16) {value n : Nat}
    {text : List Char} :
    digitsFrom? base value text = some n ↔ ∃ digits : List Nat, (∀ d ∈ digits, d < base) ∧
      text.map Char.toLower = digits.map Nat.digitChar ∧
        value * base ^ digits.length + Nat.ofDigits base digits.reverse = n := by
  induction text generalizing value with
  | nil =>
      rw [digitsFrom?, Option.some.injEq]
      constructor
      · rintro rfl
        exact ⟨[], by simp, rfl, by simp⟩
      · rintro ⟨digits, -, htext, hvalue⟩
        obtain rfl := List.map_eq_nil_iff.1 htext.symm
        simpa using hvalue
  | cons c text ih =>
      -- The first digit counts as much as all that was read before, one place further up.
      have hstep (d : Nat) (digits : List Nat) :
          (value * base + d) * base ^ digits.length + Nat.ofDigits base digits.reverse =
            value * base ^ (d :: digits).length + Nat.ofDigits base (d :: digits).reverse := by
        rw [List.reverse_cons, Nat.ofDigits_append, Nat.ofDigits_singleton, List.length_reverse,
          List.length_cons]
        ring
      simp only [digitsFrom?, Option.bind_eq_some_iff, ih, digitValue?_eq_some_iff hbase]
      constructor
      · rintro ⟨d, ⟨hd, hc⟩, digits, hdigits, htext, hvalue⟩
        refine ⟨d :: digits, List.forall_mem_cons.2 ⟨hd, hdigits⟩, ?_, ?_⟩
        · rw [List.map_cons, List.map_cons, hc, htext]
        · rw [← hstep, hvalue]
      · rintro ⟨digits, hdigits, htext, hvalue⟩
        obtain ⟨d, digits, rfl, hc, htext⟩ := List.map_eq_cons_iff.1 htext.symm
        obtain ⟨hd, hdigits⟩ := List.forall_mem_cons.1 hdigits
        exact ⟨d, ⟨hd, hc.symm⟩, digits, hdigits, htext.symm, by rw [hstep, hvalue]⟩

namespace Writes

variable {base value : Nat} {text : List Char}

theorem ne_nil (h : Writes base text value) : text ≠ [] := by
  obtain ⟨digits, hne, -, htext, -⟩ := h
  rintro rfl
  exact hne (List.map_eq_nil_iff.1 htext.symm)

theorem exists_digit (h : Writes base text value) :
    ∀ c ∈ text, ∃ d < base, c.toLower = Nat.digitChar d := by
  obtain ⟨digits, -, hdigits, htext, -⟩ := h
  intro c hc
  have hmem : c.toLower ∈ digits.map Nat.digitChar := htext ▸ List.mem_map_of_mem hc
  obtain ⟨d, hd, hcd⟩ := List.mem_map.1 hmem
  exact ⟨d, hdigits d hd, hcd.symm⟩

theorem isDigit (h : Writes base text value) (hbase : base ≤ 10) :
    ∀ c ∈ text, c.isDigit = true := by
  intro c hc
  obtain ⟨d, hd, hcd⟩ := h.exists_digit c hc
  rw [toLower_eq_digitChar_iff (by omega), if_pos (by omega)] at hcd
  rw [isDigit_iff_toNat]
  omega

theorem isHexDigit (h : Writes base text value) (hbase : base ≤ 16) :
    ∀ c ∈ text, Scan.isHexDigit c = true := by
  intro c hc
  obtain ⟨d, hd, hcd⟩ := h.exists_digit c hc
  rw [toLower_eq_digitChar_iff (by omega)] at hcd
  simp only [Scan.isHexDigit, Bool.or_eq_true, Bool.and_eq_true, decide_eq_true_eq,
    isDigit_iff_toNat, le_iff_toNat_le]
  change (_ ∨ 97 ≤ c.toNat ∧ c.toNat ≤ 102) ∨ 65 ≤ c.toNat ∧ c.toNat ≤ 70
  split_ifs at hcd <;> omega

end Writes

theorem natural?_eq_some_iff {base : Nat} (hbase : base ≤ 16) {text : List Char}
    (hplus : '+' ∉ text) {n : Nat} :
    natural? base text = some n ↔ Writes base text n ∧ n < 2 ^ 32 := by
  have hhead : text.head? ≠ some '+' := fun h => hplus (List.mem_of_head? h)
  rw [natural?, if_neg hhead]
  cases text with
  | nil => simpa using fun h : Writes base [] n => absurd rfl h.ne_nil
  | cons c rest =>
      rw [List.isEmpty_cons, if_neg Bool.false_ne_true, Option.filter_eq_some_iff,
        digitsFrom?_eq_some_iff hbase, decide_eq_true_eq]
      refine and_congr_left' ⟨?_, ?_⟩
      · rintro ⟨digits, hdigits, htext, hvalue⟩
        refine ⟨digits, ?_, hdigits, htext, by simpa using hvalue⟩
        rintro rfl
        simp at htext
      · rintro ⟨digits, -, hdigits, htext, hvalue⟩
        exact ⟨digits, hdigits, htext, by simpa using hvalue⟩

/-! ## Integer constants -/

/-- The integer that has the bits of the value, of which there are 32, in two's complement. -/
def signed (value : Nat) : Int := if value < 2 ^ 31 then value else value - 2 ^ 32

theorem ofBits_eq_iff {value : Nat} (h : value < 2 ^ 32) {n : Int32} :
    ofBits value = n ↔ n.toInt = signed value := by
  have hbits : (ofBits value).toInt = signed value := by
    rw [ofBits, Int32.toInt_ofInt, Int.bmod_def, signed]
    simp only [Int32.size]
    split_ifs <;> omega
  rw [← Int32.toInt_inj, hbits, eq_comm]

/-- Digits stand for the bits of an integer. -/
theorem map_natural?_eq_some_iff {base : Nat} (hbase : base ≤ 16) {text : List Char}
    (hplus : '+' ∉ text) {n : Int32} :
    (natural? base text).map ofBits = some n ↔
      ∃ value, Writes base text value ∧ value < 2 ^ 32 ∧ n.toInt = signed value := by
  rw [Option.map_eq_some_iff]
  refine exists_congr fun value => ?_
  rw [natural?_eq_some_iff hbase hplus, and_assoc]
  exact and_congr_right fun _ => and_congr_right fun hbound => ofBits_eq_iff hbound

/-- Digits stand for an integer that has no sign. -/
theorem map_filter_natural?_eq_some_iff {text : List Char} (hplus : '+' ∉ text) {n : Int32} :
    ((natural? 10 text).filter (· < 0x80000000)).map ofBits = some n ↔
      ∃ value, Writes 10 text value ∧ value ≤ 2 ^ 31 - 1 ∧ n.toInt = value := by
  rw [Option.map_eq_some_iff]
  refine exists_congr fun value => ?_
  rw [Option.filter_eq_some_iff, natural?_eq_some_iff (by decide) hplus, decide_eq_true_eq,
    and_assoc, and_assoc]
  refine and_congr_right fun _ => ?_
  by_cases hsmall : value < 2 ^ 31
  · rw [ofBits_eq_iff (by omega), signed, if_pos hsmall]
    omega
  · omega

/-- The text is a numeral for the integer: decimal for one that is not negative, hexadecimal or
octal for its bits. -/
inductive Denotes : List Char → Int32 → Prop where
  | decimal {text : List Char} {value : Nat} {n : Int32} (digits : Writes 10 text value)
      (form : text = ['0'] ∨ text.head? ≠ some '0') (bound : value ≤ 2 ^ 31 - 1)
      (integer : n.toInt = value) : Denotes text n
  | hexadecimal {x : Char} {text : List Char} {value : Nat} {n : Int32} (mark : x = 'x' ∨ x = 'X')
      (digits : Writes 16 text value) (bound : value < 2 ^ 32) (integer : n.toInt = signed value) :
      Denotes ('0' :: x :: text) n
  | octal {text : List Char} {value : Nat} {n : Int32} (digits : Writes 8 text value)
      (bound : value < 2 ^ 32) (integer : n.toInt = signed value) : Denotes ('0' :: text) n

/-- Numerals have three forms. -/
theorem form_cases (text : List Char) :
    (∃ x rest, (x = 'x' ∨ x = 'X') ∧ text = '0' :: x :: rest) ∨
      (∃ c rest, ¬ (c = 'x' ∨ c = 'X') ∧ text = '0' :: c :: rest) ∨
        (text = ['0'] ∨ text.head? ≠ some '0') := by
  match text with
  | [] => exact .inr (.inr (.inr (by simp)))
  | [c] =>
      refine .inr (.inr ?_)
      by_cases hc : c = '0' <;> simp [hc]
  | c :: d :: rest =>
      by_cases hc : c = '0'
      · subst hc
        by_cases hd : d = 'x' ∨ d = 'X'
        · exact .inl ⟨d, rest, hd, rfl⟩
        · exact .inr (.inl ⟨d, rest, hd, rfl⟩)
      · exact .inr (.inr (.inr (by simp [hc])))

namespace Denotes

variable {text : List Char} {n : Int32}

theorem isHexDigit {x : Char} (hx : x = 'x' ∨ x = 'X') (h : Denotes ('0' :: x :: text) n) :
    ∀ c ∈ text, Scan.isHexDigit c = true := by
  have hmark : x.isDigit = false := by obtain rfl | rfl := hx <;> rfl
  have hmem : x ∈ x :: text := List.mem_cons_self
  cases h with
  | decimal hdigits _ _ _ =>
      have := hdigits.isDigit (by decide) x (List.mem_cons_of_mem _ hmem)
      rw [hmark] at this
      cases this
  | hexadecimal _ hdigits _ _ => exact hdigits.isHexDigit (by decide)
  | octal hdigits _ _ =>
      have := hdigits.isDigit (by decide) x hmem
      rw [hmark] at this
      cases this

theorem isDigit (hmark : ∀ x rest, x = 'x' ∨ x = 'X' → text ≠ '0' :: x :: rest)
    (h : Denotes text n) : ∀ c ∈ text, c.isDigit = true := by
  cases h with
  | decimal hdigits _ _ _ => exact hdigits.isDigit (by decide)
  | hexadecimal hx _ _ _ => exact absurd rfl (hmark _ _ hx)
  | octal hdigits _ _ =>
      exact List.forall_mem_cons.2 ⟨by decide, hdigits.isDigit (by decide)⟩

end Denotes

/-! ## Values -/

theorem intValue?_hex {x : Char} (hx : x = 'x' ∨ x = 'X') {text : List Char} (hplus : '+' ∉ text)
    {n : Int32} : intValue? ('0' :: x :: text) = some n ↔
      ∃ value, Writes 16 text value ∧ value < 2 ^ 32 ∧ n.toInt = signed value := by
  rw [← map_natural?_eq_some_iff (by decide) hplus]
  obtain rfl | rfl := hx <;> rfl

theorem intValue?_octal {c : Char} (hc : ¬ (c = 'x' ∨ c = 'X')) {text : List Char}
    (hplus : '+' ∉ c :: text) {n : Int32} : intValue? ('0' :: c :: text) = some n ↔
      ∃ value, Writes 8 (c :: text) value ∧ value < 2 ^ 32 ∧ n.toInt = signed value := by
  obtain ⟨hx, hX⟩ := not_or.1 hc
  rw [← map_natural?_eq_some_iff (by decide) hplus, intValue?]
  · exact hx
  · exact hX

theorem intValue?_decimal {text : List Char} (hform : text = ['0'] ∨ text.head? ≠ some '0')
    (hplus : '+' ∉ text) {n : Int32} : intValue? text = some n ↔
      ∃ value, Writes 10 text value ∧ value ≤ 2 ^ 31 - 1 ∧ n.toInt = value := by
  rw [← map_filter_natural?_eq_some_iff hplus]
  unfold intValue?
  split
  · simp at hform
  · simp at hform
  · simp at hform
  · rfl

/-- A text has the value that it denotes as a numeral. -/
theorem intValue?_eq_some_iff {text : List Char} (hplus : '+' ∉ text) {n : Int32} :
    intValue? text = some n ↔ Denotes text n := by
  constructor
  · intro h
    rcases form_cases text with ⟨x, rest, hx, rfl⟩ | ⟨c, rest, hc, rfl⟩ | hform
    · have hrest := List.not_mem_of_not_mem_cons (List.not_mem_of_not_mem_cons hplus)
      obtain ⟨value, hdigits, hbound, hinteger⟩ := (intValue?_hex hx hrest).1 h
      exact .hexadecimal hx hdigits hbound hinteger
    · have hrest := List.not_mem_of_not_mem_cons hplus
      obtain ⟨value, hdigits, hbound, hinteger⟩ := (intValue?_octal hc hrest).1 h
      exact .octal hdigits hbound hinteger
    · obtain ⟨value, hdigits, hbound, hinteger⟩ := (intValue?_decimal hform hplus).1 h
      exact .decimal hdigits hform hbound hinteger
  · intro h
    cases h with
    | decimal hdigits hform hbound hinteger =>
        exact (intValue?_decimal hform hplus).2 ⟨_, hdigits, hbound, hinteger⟩
    | hexadecimal hx hdigits hbound hinteger =>
        have hrest := List.not_mem_of_not_mem_cons (List.not_mem_of_not_mem_cons hplus)
        exact (intValue?_hex hx hrest).2 ⟨_, hdigits, hbound, hinteger⟩
    | octal hdigits hbound hinteger =>
        obtain ⟨c, rest, rfl⟩ := List.exists_cons_of_ne_nil hdigits.ne_nil
        have hc : ¬ (c = 'x' ∨ c = 'X') := by
          have := hdigits.isDigit (by decide) c List.mem_cons_self
          rintro (rfl | rfl) <;> exact absurd this (by decide)
        have hrest := List.not_mem_of_not_mem_cons hplus
        exact (intValue?_octal hc hrest).2 ⟨_, hdigits, hbound, hinteger⟩

end Numeral

/-! ## Numerals in a text -/

namespace Scan

/-- The word characters that a numeral runs into. -/
def suffix (cs : List Char) : List Char := (cs.drop (numeral cs).2.length).takeWhile isWordPart

theorem number_text (cs : List Char) : (number cs).text = (numeral cs).2 ++ suffix cs := rfl

theorem numeral_int {cs : List Char} (h : (numeral cs).1 = .intConstant) :
    (∃ x tail, IsHexMark x ∧ cs = '0' :: x :: tail ∧
      (numeral cs).2 = '0' :: x :: tail.takeWhile isHexDigit) ∨
    (∀ x tail, IsHexMark x → cs ≠ '0' :: x :: tail) ∧
      (numeral cs).2 = cs.takeWhile Char.isDigit := by
  by_cases hhex : ∃ x tail, IsHexMark x ∧ cs = '0' :: x :: tail
  · obtain ⟨x, tail, hx, rfl⟩ := hhex
    exact .inl ⟨x, tail, hx, rfl, by rw [numeral_hex hx]⟩
  · have hplain : ∀ x tail, IsHexMark x → cs ≠ '0' :: x :: tail :=
      fun x tail hx heq => hhex ⟨x, tail, hx, heq⟩
    refine .inr ⟨hplain, ?_⟩
    rw [numeral_decimal hplain] at h ⊢
    dsimp only at h ⊢
    split at h
    · rename_i hparts
      rw [Bool.and_eq_true, List.isEmpty_iff, List.isEmpty_iff] at hparts
      rw [hparts.2, hparts.1, List.append_nil, List.append_nil]
    · cases h

theorem plus_not_mem_number {cs : List Char} (h : (number cs).kind = .intConstant) :
    '+' ∉ (number cs).text := by
  have hsuffix : '+' ∉ suffix cs := fun hmem => absurd (List.mem_takeWhile_imp hmem) (by decide)
  rw [number_text, List.mem_append, not_or]
  refine ⟨?_, hsuffix⟩
  rcases numeral_int h with ⟨x, tail, hx, -, hdigits⟩ | ⟨-, hdigits⟩
  · have hdigit : '+' ∉ tail.takeWhile isHexDigit :=
      fun hmem => absurd (List.mem_takeWhile_imp hmem) (by decide)
    rw [hdigits]
    obtain rfl | rfl := hx <;> simp [hdigit]
  · rw [hdigits]
    exact fun hmem => absurd (List.mem_takeWhile_imp hmem) (by decide)

/-- What follows the longest run of some characters is no such character. -/
theorem not_of_drop_takeWhile {p : Char → Bool} {cs rest : List Char} {c : Char}
    (h : cs.drop (cs.takeWhile p).length = c :: rest) : p c = false := by
  have hsplit := List.takeWhile_append_dropWhile (p := p) (l := cs)
  have hdrop : cs.dropWhile p = c :: rest := by
    rw [← h]
    conv_rhs => arg 2; rw [← hsplit]
    rw [List.drop_left]
  have hhead := List.head?_dropWhile_not p cs
  rw [hdrop] at hhead
  simpa using hhead

/-- A numeral that runs into a word denotes nothing. -/
theorem not_denotes_of_suffix {cs : List Char} (h : (number cs).kind = .intConstant)
    (hsuffix : suffix cs ≠ []) (n : Int32) : ¬ Numeral.Denotes (number cs).text n := by
  intro hdenotes
  obtain ⟨c, more, hcons⟩ := List.exists_cons_of_ne_nil hsuffix
  obtain ⟨rest, hnext⟩ : suffix cs <+: cs.drop (numeral cs).2.length := List.takeWhile_prefix _
  rw [hcons, List.cons_append] at hnext
  -- If the word began with a digit of the form, the numeral would have taken that as well.
  rcases numeral_int h with ⟨x, tail, hx, rfl, hdigits⟩ | ⟨hplain, hdigits⟩
  · rw [number_text, hdigits, hcons] at hdenotes
    have hc := hdenotes.isHexDigit hx c (by simp)
    rw [hdigits] at hnext
    rw [not_of_drop_takeWhile hnext.symm] at hc
    cases hc
  · have htext : ∀ x rest, x = 'x' ∨ x = 'X' → (number cs).text ≠ '0' :: x :: rest := by
      intro x rest hx heq
      have happend := number_append cs
      rw [heq] at happend
      exact hplain x (rest ++ (number cs).rest) hx happend.symm
    have hc := hdenotes.isDigit htext c (by rw [number_text, hcons]; simp)
    rw [hdigits] at hnext
    rw [not_of_drop_takeWhile hnext.symm] at hc
    cases hc

/-- A scan complains about the numerals that have no value. -/
theorem malformed_number {cs : List Char} (h : (number cs).kind = .intConstant) :
    (number cs).malformed = true ↔ Numeral.intValue? (number cs).text = none := by
  have hint : ((numeral cs).1 == TokenKind.intConstant) = true := by rw [beq_iff_eq]; exact h
  have hmalformed : (number cs).malformed =
      (!(suffix cs).isEmpty ||
        ((numeral cs).1 == .intConstant && (Numeral.intValue? (number cs).text).isNone)) := rfl
  rw [hmalformed, hint, Bool.true_and, Bool.or_eq_true, Option.isNone_iff_eq_none]
  constructor
  · rintro (hsuffix | hnone)
    · by_contra hsome
      obtain ⟨n, hn⟩ := Option.ne_none_iff_exists'.1 hsome
      exact not_denotes_of_suffix h (by simpa using hsuffix) n
        ((Numeral.intValue?_eq_some_iff (plus_not_mem_number h)).1 hn)
    · exact hnone
  · exact .inr

theorem number_of_lexeme? {cs : List Char} {lexeme : Lexeme} (h : lexeme? cs = some lexeme)
    (hkind : lexeme.kind = .intConstant) : number cs = lexeme := by
  unfold lexeme? at h
  split at h
  · exact Option.some.inj h
  · split at h
    · obtain rfl := Option.some.inj h
      rcases wordKind_cases (String.ofList (cs.takeWhile isWordPart)) with ⟨k, hk⟩ | hk | hk
      all_goals exact TokenKind.noConfusion (hk.symm.trans hkind)
    · obtain ⟨op, -, rfl⟩ := Option.map_eq_some_iff.1 h
      cases hkind

end Scan

/-! ## Complaints -/

namespace Tile

private theorem byteLength_lt_of_append {a b rest : List Tile} {tile : Tile}
    (h : b = a ++ tile :: rest) (htile : tile.text ≠ []) :
    byteLength (texts a) < byteLength (texts b) := by
  have hpos := Text.byteLength_pos htile
  rw [h, texts_append, texts_cons, byteLength_append, byteLength_append]
  omega

/-- No two tiles are in one place. -/
theorem eq_of_byteLength_eq {a b c d : List Tile} {s t : Tile} (h : a ++ s :: b = c ++ t :: d)
    (hs : s.text ≠ []) (ht : t.text ≠ [])
    (hplace : byteLength (texts a) = byteLength (texts c)) : s = t := by
  -- Whichever of the two is later has the whole of the other one before it.
  rcases List.append_eq_append_iff.1 h with ⟨w, hc, hrest⟩ | ⟨w, ha, hrest⟩
  · cases w with
    | nil => exact (List.cons.inj hrest).1
    | cons first w =>
        obtain ⟨rfl, -⟩ := List.cons.inj hrest
        exact absurd hplace (byteLength_lt_of_append hc hs).ne
  · cases w with
    | nil => exact (List.cons.inj hrest).1.symm
    | cons first w =>
        obtain ⟨rfl, -⟩ := List.cons.inj hrest
        exact absurd hplace (byteLength_lt_of_append ha ht).ne'

end Tile

/-- The errors of a scan tell which numerals are malformed. -/
theorem Code.scan_malformed {code : Code} {t : Token} (ht : t ∈ code.scan.tokens) :
    ∃ malformed rest,
      Scan.lexeme? (t.text.toList ++ rest) = some ⟨t.kind, t.text.toList, rest, malformed⟩ ∧
      (malformed = true ↔ ∃ e ∈ code.scan.errors,
        e.cause = .lexical (.invalidNumber t.text) ∧ e.location = t.location) := by
  obtain ⟨tiles, -, hfits, htokens, herrors⟩ := code.exists_tiles
  rw [htokens] at ht
  obtain ⟨before, malformed, after, hsplit⟩ := Tile.exists_of_mem_tokens ht
  have hfit := hfits before _ after hsplit
  refine ⟨malformed, Tile.texts after, hfit.1, ?_⟩
  rw [herrors, hfit.location]
  constructor
  · rintro rfl
    refine ⟨_, Tile.mem_complaints.2 ⟨before, _, after, hsplit, rfl⟩, rfl, ?_⟩
    rw [Nat.zero_add]
  · rintro ⟨e, he, -, hlocation⟩
    -- An error has no other mark of its token than the place, which no second tile can have.
    obtain ⟨more, tile, later, hmore, he⟩ := Tile.mem_complaints.1 he
    have hplace := (Tile.complaint?_located he).2
    rw [hlocation, Location.mk.injEq, Nat.zero_add] at hplace
    have hsame : Tile.token t malformed = tile :=
      Tile.eq_of_byteLength_eq (hsplit.symm.trans hmore) hfit.text_ne_nil
        (hfits more tile later hmore).text_ne_nil hplace.2.1
    subst hsame
    cases malformed with
    | true => rfl
    | false => cases he

/-- An integer constant has no value if and only if the scan reports it as an invalid number, and
it has the value that it denotes as a numeral. -/
theorem Code.scan_intConstants (code : Code) :
    ∀ t ∈ code.scan.tokens, t.kind = .intConstant →
      (t.intValue? = none ↔ ∃ e ∈ code.scan.errors,
        e.cause = .lexical (.invalidNumber t.text) ∧ e.location = t.location) ∧
      ∀ n, t.intValue? = some n ↔ Numeral.Denotes t.text.toList n := by
  intro t ht hkind
  obtain ⟨malformed, rest, hlexeme, hreported⟩ := Code.scan_malformed ht
  have hnumber := Scan.number_of_lexeme? hlexeme hkind
  have hint : (Scan.number (t.text.toList ++ rest)).kind = .intConstant := by rw [hnumber, hkind]
  have hplus := Scan.plus_not_mem_number hint
  have hmalformed := Scan.malformed_number hint
  rw [hnumber] at hplus hmalformed
  exact ⟨hmalformed.symm.trans hreported, fun n => Numeral.intValue?_eq_some_iff hplus⟩

theorem Code.scan_intConstants_negative :
    let code := ofString "08 0XffffFFFF" .unknown
    ∃ a ∈ code.scan.tokens, ∃ b ∈ code.scan.tokens,
      a.kind = .intConstant ∧ b.kind = .intConstant ∧
      (∃ e ∈ code.scan.errors,
        e.cause = .lexical (.invalidNumber "08") ∧ e.location = a.location) ∧
      Numeral.Denotes "0XffffFFFF".toList (-1) := by
  intro code
  have hreadings : code.scan.tokens.map Token.reading =
      [(.intConstant, "08"), (.intConstant, "0XffffFFFF")] := by decide +kernel
  obtain ⟨a, rest, htokens, ha, hrest⟩ := List.map_eq_cons_iff.1 hreadings
  obtain ⟨b, rfl, hb⟩ := List.map_eq_singleton_iff.1 hrest
  obtain ⟨hakind, hatext⟩ := Prod.mk.inj ha
  obtain ⟨hbkind, hbtext⟩ := Prod.mk.inj hb
  have hamem : a ∈ code.scan.tokens := by rw [htokens]; simp
  have hbmem : b ∈ code.scan.tokens := by rw [htokens]; simp
  have hnone : a.intValue? = none := by
    rw [Token.intValue?, hatext]
    decide
  have hsome : b.intValue? = some (-1) := by
    rw [Token.intValue?, hbtext]
    decide
  have hreported := (code.scan_intConstants a hamem hakind).1.1 hnone
  have hdenotes := ((code.scan_intConstants b hbmem hbkind).2 (-1)).1 hsome
  rw [hatext] at hreported
  rw [hbtext] at hdenotes
  exact ⟨a, hamem, b, hbmem, hakind, hbkind, hreported, hdenotes⟩

end Essl
