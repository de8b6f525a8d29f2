import Essl.Directive.Condition
import Mathlib.Algebra.Ring.Int.Defs
import Mathlib.Algebra.Ring.Nat
import Mathlib.Data.List.Basic

/-!
# The expressions of conditions

Expressions as trees that keep their tokens, the grammar that they follow, and their values. An
operand that `&&` or `||` does not need has no part in the value. Each rule is about exact
integers, of which 64 bits must hold the result.
-/

namespace Essl.Condition

/-- The operators between two operands. Those of a row bind equally, those of later rows more
tightly. -/
def ladder : List (List Operator) :=
  [[.logicalOr], [.logicalAnd], [.bitOr], [.bitXor], [.bitAnd], [.equal, .notEqual],
   [.less, .lessEqual, .greater, .greaterEqual], [.shiftLeft, .shiftRight], [.plus, .minus],
   [.times, .divide, .remainder]]

/-- The operators in front of an operand. -/
def signs : List Operator := [.plus, .minus, .complement, .logicalNot]

theorem isSign_iff (op : Operator) : isSign op = true ↔ op ∈ signs := by
  cases op <;> decide

theorem row_lt_of_mem {row : Nat} {op : Operator} (h : op ∈ ladder.getD row []) :
    row < ladder.length := by
  by_contra hrow
  rw [List.getD_eq_getElem?_getD, List.getElem?_eq_none (by omega)] at h
  simp at h

theorem precedence?_eq_some_iff (row : Nat) (op : Operator) :
    precedence? op = some (row + 1) ↔ op ∈ ladder.getD row [] := by
  have hrows : ∀ op ∈ Operator.all, ∀ row < ladder.length,
      precedence? op = some (row + 1) ↔ op ∈ ladder.getD row [] := by decide
  have hbound : ∀ op ∈ Operator.all, ∀ level ∈ precedence? op, level ≤ ladder.length := by decide
  constructor
  · intro h
    have hle := hbound op op.mem_all (row + 1) h
    exact (hrows op op.mem_all row (by omega)).1 h
  · intro h
    exact (hrows op op.mem_all row (row_lt_of_mem h)).2 h

theorem exists_row_of_precedence? {op : Operator} {level : Nat} (h : precedence? op = some level) :
    ∃ row, level = row + 1 ∧ op ∈ ladder.getD row [] := by
  have hpos : ∀ op ∈ Operator.all, ∀ level ∈ precedence? op, 0 < level := by decide
  have hlevel := hpos op op.mem_all level h
  refine ⟨level - 1, by omega, (precedence?_eq_some_iff _ op).1 ?_⟩
  rw [h]
  congr 1
  omega

/-- An expression with its tokens. -/
inductive Formula where
  | constant (token : Token)
  | name (token : Token)
  | group (opening : Token) (inner : Formula) (closing : Token)
  | sign (op : Operator) (token : Token) (operand : Formula)
  | binary (left : Formula) (op : Operator) (token : Token) (right : Formula)

namespace Formula

/-- The tokens in the order in which they are written. -/
def tokens : Formula → List Token
  | constant t => [t]
  | name t => [t]
  | group opening inner closing => opening :: (inner.tokens ++ [closing])
  | sign _ t operand => t :: operand.tokens
  | binary left _ t right => left.tokens ++ t :: right.tokens

/-- The tokens are what the grammar wants in each place, and outside of parentheses the operators
between operands are of some row or of later ones. Operators of one row are grouped from the
left. -/
def Fits : Nat → Formula → Prop
  | _, constant t => t.kind = .intConstant ∧ t.intValue?.isSome
  | _, name t => t.kind = .identifier
  | _, group opening inner closing =>
    opening.kind = .operator .openParen ∧ inner.Fits 0 ∧ closing.kind = .operator .closeParen
  | _, sign op t operand =>
    op ∈ signs ∧ t.kind = .operator op ∧ operand.Fits ladder.length
  | loosest, binary left op t right =>
    ∃ row, loosest ≤ row ∧ op ∈ ladder.getD row [] ∧ t.kind = .operator op ∧ left.Fits row ∧
      right.Fits (row + 1)

theorem Fits.mono {e : Formula} {row : Nat} (h : e.Fits row) {looser : Nat} (hle : looser ≤ row) :
    e.Fits looser := by
  cases e with
  | binary left op t right =>
      obtain ⟨r, hr, hrest⟩ := h
      exact ⟨r, Nat.le_trans hle hr, hrest⟩
  | _ => exact h

/-- Without operators in it an expression can stand as an operand of any operator. -/
theorem Fits.operand {e : Formula} (h : e.Fits ladder.length) (row : Nat) : e.Fits row := by
  cases e with
  | binary left op t right =>
      obtain ⟨r, hr, hop, -⟩ := h
      exact absurd (row_lt_of_mem hop) (Nat.not_lt.2 hr)
  | _ => exact h

theorem tokens_pos (e : Formula) : 0 < e.tokens.length := by
  cases e <;> simp only [tokens, List.length_append, List.length_cons] <;> omega

end Formula

/-! ## Values -/

/-- The value that a sign makes of another one. -/
def Signed : Operator → (operand value : Int64) → Prop
  | .plus, a, v => v = a
  | .minus, a, v => v.toInt = -a.toInt
  | .complement, a, v => v = ~~~a
  | .logicalNot, a, v => v = truth (a == 0)
  | _, _, _ => False

/-- The value that an operator makes of two others, where it needs both. -/
def Combined : Operator → (left right value : Int64) → Prop
  | .bitOr, a, b, v => v = a ||| b
  | .bitXor, a, b, v => v = a ^^^ b
  | .bitAnd, a, b, v => v = a &&& b
  | .equal, a, b, v => v = truth (a.toInt == b.toInt)
  | .notEqual, a, b, v => v = truth (a.toInt != b.toInt)
  | .less, a, b, v => v = truth (a.toInt < b.toInt)
  | .lessEqual, a, b, v => v = truth (a.toInt ≤ b.toInt)
  | .greater, a, b, v => v = truth (a.toInt > b.toInt)
  | .greaterEqual, a, b, v => v = truth (a.toInt ≥ b.toInt)
  | .shiftLeft, a, b, v =>
    0 ≤ b.toInt ∧ b.toInt < 64 ∧ v.toInt = (a.toInt * 2 ^ b.toInt.toNat).bmod (2 ^ 64)
  | .shiftRight, a, b, v =>
    0 ≤ b.toInt ∧ b.toInt < 64 ∧ v.toInt = a.toInt.fdiv (2 ^ b.toInt.toNat)
  | .plus, a, b, v => v.toInt = a.toInt + b.toInt
  | .minus, a, b, v => v.toInt = a.toInt - b.toInt
  | .times, a, b, v => v.toInt = a.toInt * b.toInt
  | .divide, a, b, v => b ≠ 0 ∧ v.toInt = a.toInt.tdiv b.toInt
  | .remainder, a, b, v =>
    b ≠ 0 ∧ ¬(a = Int64.minValue ∧ b = -1) ∧ v.toInt = a.toInt.tmod b.toInt
  | _, _, _, _ => False

/-- The value of an expression, if it has one. -/
inductive Formula.Evaluates : Formula → Int64 → Prop
  | constant {t : Token} {n : Int32} : t.intValue? = some n → Evaluates (.constant t) n.toInt64
  | group {opening inner closing v} : Evaluates inner v → Evaluates (.group opening inner closing) v
  | sign {op t operand a v} :
    Evaluates operand a → Signed op a v → Evaluates (.sign op t operand) v
  | andFalse {left t right} :
    Evaluates left 0 → Evaluates (.binary left .logicalAnd t right) 0
  | and {left t right a b} :
    Evaluates left a → a ≠ 0 → Evaluates right b →
      Evaluates (.binary left .logicalAnd t right) (truth (b != 0))
  | orTrue {left t right a} :
    Evaluates left a → a ≠ 0 → Evaluates (.binary left .logicalOr t right) 1
  | or {left t right b} :
    Evaluates left 0 → Evaluates right b →
      Evaluates (.binary left .logicalOr t right) (truth (b != 0))
  | binary {left op t right a b v} :
    Evaluates left a → Evaluates right b → Combined op a b v →
      Evaluates (.binary left op t right) v

/-! ## Arithmetic of 64 bits -/

theorem toInt_minValue : Int64.minValue.toInt = -2 ^ 63 := by decide

theorem toInt_maxValue : Int64.maxValue.toInt = 2 ^ 63 - 1 := by decide

theorem fit?_eq_some_iff {n : Int} {v : Int64} : fit? n = some v ↔ v.toInt = n := by
  have hlow := v.le_toInt
  have hhigh := v.toInt_lt
  unfold fit?
  rw [toInt_minValue, toInt_maxValue]
  split
  · rename_i hn
    have hfits : (Int64.ofInt n).toInt = n := Int64.toInt_ofInt_of_le hn.1 (by omega)
    rw [Option.some.injEq, ← Int64.toInt_inj, hfits, eq_comm]
  · rename_i hn
    refine ⟨nofun, fun h => absurd ⟨?_, ?_⟩ hn⟩ <;> omega

theorem fit?_isSome_iff {n : Int} : (fit? n).isSome ↔ -2 ^ 63 ≤ n ∧ n < 2 ^ 63 := by
  unfold fit?
  rw [toInt_minValue, toInt_maxValue]
  split <;> simp <;> omega

/-- Only one quotient of integers of 64 bits does not fit. -/
theorem fit?_tdiv_isSome {a b : Int64} :
    (fit? (a.toInt.tdiv b.toInt)).isSome ↔ ¬(a = Int64.minValue ∧ b = -1) := by
  have hlow := a.le_toInt
  have hhigh := a.toInt_lt
  rw [fit?_isSome_iff, ← Int64.toInt_inj, ← Int64.toInt_inj, toInt_minValue,
    show (-1 : Int64).toInt = -1 by decide]
  generalize a.toInt = m at *
  generalize b.toInt = n at *
  by_cases hunit : n = 1 ∨ n = -1
  · rcases hunit with rfl | rfl
    · rw [Int.tdiv_one]
      omega
    · rw [Int.tdiv_neg, Int.tdiv_one]
      omega
  · have hhalf : (m.tdiv n).natAbs ≤ m.natAbs / 2 := by
      rw [Int.natAbs_tdiv]
      rcases Nat.eq_zero_or_pos n.natAbs with hzero | hpos
      · rw [hzero, show m.natAbs.div 0 = 0 from Nat.div_zero _]
        exact Nat.zero_le _
      · exact Nat.div_le_div_left (by omega) (by omega)
    omega

theorem toNat_shiftAmount {b : Int64} (h0 : 0 ≤ b.toInt) (h64 : b.toInt < 64) :
    (b.toBitVec.smod 64).toNat = b.toInt.toNat := by
  have hmod : (b.toBitVec.smod 64).toInt = b.toInt := by
    rw [BitVec.toInt_smod]
    exact Int.fmod_eq_of_lt h0 h64
  have hcond := BitVec.toInt_eq_toNat_cond (b.toBitVec.smod 64)
  have hlt := (b.toBitVec.smod 64).isLt
  split at hcond <;> omega

theorem toInt_shiftLeft {a b : Int64} (h0 : 0 ≤ b.toInt) (h64 : b.toInt < 64) :
    (a <<< b).toInt = (a.toInt * 2 ^ b.toInt.toNat).bmod (2 ^ 64) := by
  have hbits : (a <<< b).toBitVec = a.toBitVec <<< b.toInt.toNat := by
    rw [Int64.toBitVec_shiftLeft, BitVec.shiftLeft_eq', toNat_shiftAmount h0 h64]
  have hint : (a <<< b).toInt = (a.toBitVec <<< b.toInt.toNat).toInt := congrArg BitVec.toInt hbits
  have ha : a.toInt = (a.toBitVec.toNat : Int).bmod (2 ^ 64) := a.toBitVec.toInt_eq_toNat_bmod
  rw [hint, BitVec.toInt_shiftLeft, Nat.shiftLeft_eq, ha, Int.bmod_mul_bmod]
  push_cast
  rfl

theorem toInt_shiftRight {a b : Int64} (h0 : 0 ≤ b.toInt) (h64 : b.toInt < 64) :
    (a >>> b).toInt = a.toInt.fdiv (2 ^ b.toInt.toNat) := by
  have hbits : (a >>> b).toBitVec = a.toBitVec.sshiftRight b.toInt.toNat := by
    rw [Int64.toBitVec_shiftRight, BitVec.sshiftRight', toNat_shiftAmount h0 h64]
  have hint : (a >>> b).toInt = (a.toBitVec.sshiftRight b.toInt.toNat).toInt :=
    congrArg BitVec.toInt hbits
  have hpow : (0 : Int) ≤ 2 ^ b.toInt.toNat := Int.pow_nonneg (by omega)
  rw [hint, BitVec.toInt_sshiftRight, Int.shiftRight_eq_div_pow, Int.fdiv_eq_ediv_of_nonneg _ hpow]
  push_cast
  rfl

theorem shift?_eq_some_iff {f : Int64 → Int64 → Int64} {a amount v : Int64} :
    shift? f a amount = some v ↔ 0 ≤ amount.toInt ∧ amount.toInt < 64 ∧ v = f a amount := by
  unfold shift?
  split
  · rename_i h
    simp [h, eq_comm]
  · rename_i h
    exact ⟨nofun, fun hv => absurd ⟨hv.1, hv.2.1⟩ h⟩

/-! ## Evaluation -/

variable {op : Operator} {location : Location} {a b v : Int64}

theorem applySign_eq_ok_iff (hop : op ∈ signs) :
    applySign true op location a = .ok v ↔ Signed op a v := by
  simp only [signs, List.mem_cons, List.not_mem_nil, or_false] at hop
  rcases hop with rfl | rfl | rfl | rfl
  · exact ⟨fun h => (Except.ok.inj h).symm, fun h => congrArg Except.ok h.symm⟩
  · rw [Signed, ← fit?_eq_some_iff, applySign]
    split <;> simp_all [fail]
  · exact ⟨fun h => (Except.ok.inj h).symm, fun h => congrArg Except.ok h.symm⟩
  · exact ⟨fun h => (Except.ok.inj h).symm, fun h => congrArg Except.ok h.symm⟩

theorem exists_applySign_skipped (op : Operator) (location : Location) (a : Int64) :
    ∃ v, applySign false op location a = .ok v := by
  unfold applySign
  split
  · split <;> exact ⟨_, rfl⟩
  all_goals exact ⟨_, rfl⟩

theorem apply_eq_ok_iff_compute? (h : ¬((op = .divide ∨ op = .remainder) ∧ b = 0)) :
    apply true op location a b = .ok v ↔ compute? op a b = some v := by
  rw [apply, if_neg h]
  split <;> simp_all [fail]

theorem compute?_eq_some_iff {row : Nat} (hop : op ∈ ladder.getD row [])
    (hand : op ≠ .logicalAnd) (hor : op ≠ .logicalOr)
    (hdivisor : ¬((op = .divide ∨ op = .remainder) ∧ b = 0)) :
    compute? op a b = some v ↔ Combined op a b v := by
  have hrow := (precedence?_eq_some_iff row op).2 hop
  have hvalue : ∀ w : Int64, some w = some v ↔ v = w := fun w => Option.some_inj.trans eq_comm
  have hbeq : (a == b) = (a.toInt == b.toInt) := by
    rw [Bool.eq_iff_iff, beq_iff_eq, beq_iff_eq, Int64.toInt_inj]
  cases op with
  | logicalAnd => exact absurd rfl hand
  | logicalOr => exact absurd rfl hor
  | bitOr => exact hvalue _
  | bitXor => exact hvalue _
  | bitAnd => exact hvalue _
  | equal => rw [compute?, Combined, hbeq]; exact hvalue _
  | notEqual => rw [compute?, Combined, bne, hbeq]; exact hvalue _
  | less => exact hvalue _
  | lessEqual => exact hvalue _
  | greater => exact hvalue _
  | greaterEqual => exact hvalue _
  | shiftLeft =>
      rw [compute?, Combined, shift?_eq_some_iff]
      refine and_congr_right fun h0 => and_congr_right fun h64 => ?_
      rw [← Int64.toInt_inj, toInt_shiftLeft h0 h64]
  | shiftRight =>
      rw [compute?, Combined, shift?_eq_some_iff]
      refine and_congr_right fun h0 => and_congr_right fun h64 => ?_
      rw [← Int64.toInt_inj, toInt_shiftRight h0 h64]
  | plus => exact fit?_eq_some_iff
  | minus => exact fit?_eq_some_iff
  | times => exact fit?_eq_some_iff
  | divide =>
      have hb : b ≠ 0 := fun hb => hdivisor ⟨.inl rfl, hb⟩
      exact fit?_eq_some_iff.trans (and_iff_right hb).symm
  | remainder =>
      have hb : b ≠ 0 := fun hb => hdivisor ⟨.inr rfl, hb⟩
      rw [compute?, Combined, ← fit?_tdiv_isSome, ← fit?_eq_some_iff (v := v)]
      cases fit? (a.toInt.tdiv b.toInt) <;> simp [hb]
  | _ => cases hrow

theorem apply_eq_ok_iff {row : Nat} (hop : op ∈ ladder.getD row []) (hand : op ≠ .logicalAnd)
    (hor : op ≠ .logicalOr) : apply true op location a b = .ok v ↔ Combined op a b v := by
  by_cases hdivisor : (op = .divide ∨ op = .remainder) ∧ b = 0
  · rw [apply, if_pos hdivisor]
    obtain ⟨rfl | rfl, rfl⟩ := hdivisor <;> simp [fail, Combined]
  · rw [apply_eq_ok_iff_compute? hdivisor, compute?_eq_some_iff hop hand hor hdivisor]

theorem exists_apply_skipped (op : Operator) (location : Location) (a b : Int64) :
    ∃ v, apply false op location a b = .ok v := by
  unfold apply
  split
  · exact ⟨0, rfl⟩
  · split <;> exact ⟨_, rfl⟩

theorem bind_eq_ok_iff {α β : Type} {x : Except Failure α} {f : α → Except Failure β}
    {y : β} : (x >>= f) = .ok y ↔ ∃ z, x = .ok z ∧ f z = .ok y := by
  cases x with
  | error failure => exact ⟨nofun, nofun⟩
  | ok z =>
      constructor
      · exact fun h => ⟨z, rfl, h⟩
      · rintro ⟨_, ⟨⟩, h⟩
        exact h

namespace Formula

/-- The value of an expression. Where it is not `live`, nothing about its value is a failure. -/
def eval : Bool → Formula → Except Failure Int64
  | _, constant t => .ok (t.intValue?.getD 0).toInt64
  | live, name t => fail live (.undefinedIdentifier t.text) t.location
  | live, group _ inner _ => inner.eval live
  | live, sign op t operand => do
    let a ← operand.eval live
    applySign live op t.location a
  | live, binary left op t right => do
    let a ← left.eval live
    let b ← right.eval (needsRight live op a)
    apply (needsRight live op a) op t.location a b

theorem needsRight_false (op : Operator) (a : Int64) : needsRight false op a = false := by
  unfold needsRight
  split
  · rfl
  · split <;> rfl

theorem exists_eval_skipped (e : Formula) : ∃ v, e.eval false = .ok v := by
  induction e with
  | constant t => exact ⟨_, rfl⟩
  | name t => exact ⟨0, rfl⟩
  | group opening inner closing ih => exact ih
  | sign op t operand ih =>
      obtain ⟨a, ha⟩ := ih
      obtain ⟨v, hv⟩ := exists_applySign_skipped op t.location a
      exact ⟨v, by rw [eval, ha]; exact hv⟩
  | binary left op t right ihl ihr =>
      obtain ⟨a, ha⟩ := ihl
      obtain ⟨b, hb⟩ := ihr
      obtain ⟨v, hv⟩ := exists_apply_skipped op t.location a b
      refine ⟨v, ?_⟩
      rw [eval, ha]
      change (right.eval (needsRight false op a) >>= _) = _
      rw [needsRight_false, hb]
      exact hv

theorem needsRight_eq_false_iff :
    needsRight true op a = false ↔
      (op = .logicalAnd ∧ a = 0) ∨ (op = .logicalOr ∧ a ≠ 0) := by
  unfold needsRight
  split
  · simp_all
  · split <;> simp_all

variable {left right : Formula} {t : Token}

theorem eval_binary_eq_ok_iff :
    (binary left op t right).eval true = .ok v ↔
      ∃ a, left.eval true = .ok a ∧ ∃ b, right.eval (needsRight true op a) = .ok b ∧
        apply (needsRight true op a) op t.location a b = .ok v := by
  rw [eval, bind_eq_ok_iff]
  simp only [bind_eq_ok_iff]

theorem apply_and (needed : Bool) :
    apply needed .logicalAnd location a b = .ok (truth (a != 0 && b != 0)) := by
  simp [apply, compute?]

theorem apply_or (needed : Bool) :
    apply needed .logicalOr location a b = .ok (truth (a != 0 || b != 0)) := by
  simp [apply, compute?]

/-- Where evaluation gives a value, the rules do. -/
theorem evaluates_of_eval {e : Formula} {loosest : Nat} (hfits : e.Fits loosest)
    (h : e.eval true = .ok v) : e.Evaluates v := by
  induction e generalizing loosest v with
  | constant t =>
      obtain ⟨n, hn⟩ := Option.isSome_iff_exists.1 hfits.2
      rw [eval, hn] at h
      cases h
      exact .constant hn
  | name t => cases h
  | group opening inner closing ih => exact .group (ih hfits.2.1 h)
  | sign op t operand ih =>
      obtain ⟨a, ha, hv⟩ := bind_eq_ok_iff.1 h
      exact .sign (ih hfits.2.2 ha) ((applySign_eq_ok_iff hfits.1).1 hv)
  | binary left op t right ihl ihr =>
      obtain ⟨row, -, hop, -, hleft, hright⟩ := hfits
      obtain ⟨a, ha, b, hb, hv⟩ := eval_binary_eq_ok_iff.1 h
      have hl := ihl hleft ha
      cases hneeded : needsRight true op a with
      | false =>
          -- The right operand has been skipped: its value is not that of the rules.
          rw [hneeded] at hv
          rcases needsRight_eq_false_iff.1 hneeded with ⟨rfl, rfl⟩ | ⟨rfl, ha0⟩
          · rw [apply_and] at hv
            cases hv
            exact .andFalse hl
          · rw [apply_or] at hv
            simp only [bne_iff_ne.2 ha0, Bool.true_or] at hv
            cases hv
            exact .orTrue hl ha0
      | true =>
          rw [hneeded] at hb hv
          have hr := ihr hright hb
          by_cases hand : op = .logicalAnd
          · subst hand
            have ha0 : a ≠ 0 := by
              rintro rfl
              simp [needsRight] at hneeded
            rw [apply_and, bne_iff_ne.2 ha0, Bool.true_and] at hv
            cases hv
            exact .and hl ha0 hr
          · by_cases hor : op = .logicalOr
            · subst hor
              obtain rfl : a = 0 := by
                by_contra ha0
                simp [needsRight, ha0] at hneeded
              rw [apply_or] at hv
              cases hv
              exact .or hl hr
            · exact .binary hl hr ((apply_eq_ok_iff hop hand hor).1 hv)

/-- Where the rules give a value, evaluation does. -/
theorem Evaluates.eval_eq {e : Formula} (h : e.Evaluates v) {loosest : Nat}
    (hfits : e.Fits loosest) : e.eval true = .ok v := by
  induction h generalizing loosest with
  | constant hn => rw [eval, hn]; rfl
  | group _ ih => exact ih hfits.2.1
  | sign _ hsign ih =>
      exact bind_eq_ok_iff.2 ⟨_, ih hfits.2.2, (applySign_eq_ok_iff hfits.1).2 hsign⟩
  | @andFalse left t right _ ih =>
      obtain ⟨row, -, -, -, hleft, -⟩ := hfits
      obtain ⟨b, hb⟩ := right.exists_eval_skipped
      exact eval_binary_eq_ok_iff.2 ⟨0, ih hleft, b, hb, apply_and _⟩
  | @and left t right a b _ ha _ ihl ihr =>
      obtain ⟨row, -, -, -, hleft, hright⟩ := hfits
      have hneeded : needsRight true .logicalAnd a = true := by simp [needsRight, ha]
      refine eval_binary_eq_ok_iff.2 ⟨a, ihl hleft, b, ?_, ?_⟩
      · rw [hneeded]
        exact ihr hright
      · rw [apply_and, bne_iff_ne.2 ha, Bool.true_and]
  | @orTrue left t right a _ ha ih =>
      obtain ⟨row, -, -, -, hleft, -⟩ := hfits
      have hneeded : needsRight true .logicalOr a = false := by simp [needsRight, ha]
      obtain ⟨b, hb⟩ := right.exists_eval_skipped
      refine eval_binary_eq_ok_iff.2 ⟨a, ih hleft, b, ?_, ?_⟩
      · rw [hneeded]
        exact hb
      · rw [apply_or, bne_iff_ne.2 ha, Bool.true_or]
        rfl
  | @or left t right b _ _ ihl ihr =>
      obtain ⟨row, -, -, -, hleft, hright⟩ := hfits
      exact eval_binary_eq_ok_iff.2 ⟨0, ihl hleft, b, ihr hright, apply_or _⟩
  | @binary left op t right a b v _ _ hvalue ihl ihr =>
      obtain ⟨row, -, hop, -, hleft, hright⟩ := hfits
      have hand : op ≠ .logicalAnd := by
        rintro rfl
        exact hvalue
      have hor : op ≠ .logicalOr := by
        rintro rfl
        exact hvalue
      have hneeded : needsRight true op a = true := by simp [needsRight, hand, hor]
      refine eval_binary_eq_ok_iff.2 ⟨a, ihl hleft, b, ?_, ?_⟩
      · rw [hneeded]
        exact ihr hright
      · rw [hneeded]
        exact (apply_eq_ok_iff hop hand hor).2 hvalue

theorem eval_eq_ok_iff {e : Formula} {loosest : Nat} (hfits : e.Fits loosest) :
    e.eval true = .ok v ↔ e.Evaluates v :=
  ⟨evaluates_of_eval hfits, fun h => h.eval_eq hfits⟩

end Formula

end Essl.Condition
