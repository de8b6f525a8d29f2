import Essl.Proofs.Directive.Formula

/-!
# Reading conditions

A condition is read and evaluated at once. Reading the tokens of an expression gives what
evaluating the expression gives, and only expressions are read. So a condition has a value exactly
if it is an expression that has this value.
-/

namespace Essl.Condition

/-- The tokens do not go on with an operator of some row or of a later one. -/
def Stops (row : Nat) : List Token → Prop
  | [] => True
  | t :: _ => ∀ op r, t.kind = .operator op → op ∈ ladder.getD r [] → r < row

theorem Stops.mono {row : Nat} {ts : List Token} (h : Stops row ts) {later : Nat}
    (hle : row ≤ later) : Stops later ts := by
  cases ts with
  | nil => trivial
  | cons t ts => exact fun op r ht hop => Nat.lt_of_lt_of_le (h op r ht hop) hle

theorem stops_of_kind {t : Token} (ht : ∀ op ∈ ladder.flatten, t.kind ≠ .operator op) (row : Nat)
    (ts : List Token) : Stops row (t :: ts) := by
  intro op r hop hr
  refine absurd hop (ht op ?_)
  rw [List.getD_eq_getElem?_getD, List.getElem?_eq_getElem (row_lt_of_mem hr)] at hr
  exact List.mem_flatten.2 ⟨_, List.getElem_mem _, hr⟩

/-- No operator is in two rows. -/
theorem row_unique {op : Operator} {r r' : Nat} (h : op ∈ ladder.getD r [])
    (h' : op ∈ ladder.getD r' []) : r = r' := by
  have hrow := (precedence?_eq_some_iff r op).2 h
  rw [(precedence?_eq_some_iff r' op).2 h'] at hrow
  simpa using hrow.symm

/-! ## One step of reading -/

section

variable {stop : Location} {depth row : Nat} {live : Bool} {left : Int64} {t : Token}
  {ts rest : List Token} {op : Operator}

theorem operatorAt_eq_some_iff {level : Nat} :
    (t.kind.operator?.bind fun op => (precedence? op).map (op, ·)) = some (op, level) ↔
      t.kind = .operator op ∧ precedence? op = some level := by
  cases t.kind with
  | operator op' =>
      simp only [TokenKind.operator?, Option.bind_some, Option.map_eq_some_iff, Prod.mk.injEq,
        TokenKind.operator.injEq]
      constructor
      · rintro ⟨_, hlevel, rfl, rfl⟩
        exact ⟨rfl, hlevel⟩
      · rintro ⟨rfl, hlevel⟩
        exact ⟨level, hlevel, rfl, rfl⟩
  | _ => simp [TokenKind.operator?]

theorem climb_stop (h : Stops row ts) :
    climb stop (depth + 1) (row + 1) live left ts = .ok (left, ts) := by
  cases ts with
  | nil => rw [climb]; simp
  | cons t ts =>
      rw [climb]
      split
      · rfl
      · rename_i op level hop
        obtain ⟨hkind, hlevel⟩ := operatorAt_eq_some_iff.1 hop
        obtain ⟨r, rfl, hr⟩ := exists_row_of_precedence? hlevel
        rw [if_pos (Nat.succ_lt_succ (h op r hkind hr))]

theorem climb_step {r : Nat} (ht : t.kind = .operator op) (hop : op ∈ ladder.getD r [])
    (hrow : row ≤ r) :
    climb stop (depth + 1) (row + 1) live left (t :: ts) = (do
      let (right, rest) ← tree stop depth (r + 2) (needsRight live op left) ts
      let value ← apply (needsRight live op left) op t.location left right
      climb stop depth (row + 1) live value rest) := by
  have hoperator := operatorAt_eq_some_iff.2 ⟨ht, (precedence?_eq_some_iff r op).2 hop⟩
  rw [climb, hoperator]
  dsimp only
  rw [if_neg (by omega)]

theorem leaf_group (ht : t.kind = .operator .openParen) :
    leaf stop (depth + 1) live (t :: ts) = (do
      let (value, rest) ← tree stop depth 1 live ts
      match rest with
      | closing :: rest =>
        if closing.isOperator .closeParen then .ok (value, rest) else illFormed closing.location
      | [] => illFormed stop) := by
  rewrite [leaf, ht]
  rfl

theorem leaf_sign (ht : t.kind = .operator op) (hop : op ∈ signs) :
    leaf stop (depth + 1) live (t :: ts) = (do
      let (operand, rest) ← leaf stop depth live ts
      let value ← applySign live op t.location operand
      .ok (value, rest)) := by
  rw [leaf, ht]
  simp only [signs, List.mem_cons, List.not_mem_nil, or_false] at hop
  rcases hop with rfl | rfl | rfl | rfl <;> rfl

end

/-! ## What is written is read -/

namespace Formula

/-- How many operators are on the way to the first operand. -/
def spine : Formula → Nat
  | binary left _ _ _ => left.spine + 1
  | _ => 0

theorem spine_lt (e : Formula) : 2 * e.spine < e.tokens.length := by
  induction e with
  | binary left op t right ihl _ =>
      have hright := right.tokens_pos
      simp only [spine, tokens, List.length_append, List.length_cons]
      omega
  | _ => simp [spine, tokens]

/-- Reading an operand comes to evaluating it. -/
def ReadAsLeaf (e : Formula) : Prop :=
  ∀ stop depth live rest, 2 * e.tokens.length < depth →
    leaf stop depth live (e.tokens ++ rest) = (e.eval live).map (·, rest)

/-- Reading an expression comes to evaluating it and going on after it, if what follows does not
bind an operand of it more tightly. -/
def ReadAsLeft (e : Formula) (row : Nat) : Prop :=
  ∀ stop depth loosest live rest, 2 * e.tokens.length < depth + e.spine → loosest ≤ row →
    Stops (row + 1) rest →
      tree stop (depth + e.spine + 1) (loosest + 1) live (e.tokens ++ rest) =
        (e.eval live >>= fun v => climb stop depth (loosest + 1) live v rest)

variable {e : Formula}

theorem ReadAsLeaf.left (h : e.ReadAsLeaf) (hspine : e.spine = 0) (row : Nat) :
    e.ReadAsLeft row := by
  intro stop depth loosest live rest hdepth _ _
  rw [hspine] at hdepth ⊢
  rw [tree, h stop depth live rest (by omega)]
  cases e.eval live <;> rfl

/-- All of an expression is read if what follows cannot go on with it. -/
theorem ReadAsLeft.whole {row : Nat} (h : e.ReadAsLeft row) {stop : Location} {depth : Nat}
    {live : Bool} {rest : List Token} (hdepth : 2 * e.tokens.length + 1 < depth)
    (hstops : Stops row rest) :
    tree stop depth (row + 1) live (e.tokens ++ rest) = (e.eval live).map (·, rest) := by
  have hspine := e.spine_lt
  obtain ⟨d, rfl⟩ : ∃ d, depth = d + 1 + e.spine + 1 := ⟨depth - e.spine - 2, by omega⟩
  rw [h stop (d + 1) row live rest (by omega) (Nat.le_refl _) (hstops.mono (Nat.le_succ _))]
  cases e.eval live with
  | error failure => rfl
  | ok v => exact climb_stop hstops

theorem ReadAsLeaf.group {opening inner closing} (hopening : opening.kind = .operator .openParen)
    (hinner : inner.ReadAsLeft 0) (hclosing : closing.kind = .operator .closeParen) :
    (group opening inner closing).ReadAsLeaf := by
  intro stop depth live rest hdepth
  simp only [tokens, List.length_cons, List.length_append, List.length_nil] at hdepth
  obtain ⟨d, rfl⟩ : ∃ d, depth = d + 1 := ⟨depth - 1, by omega⟩
  have hstops : Stops 0 (closing :: rest) := stops_of_kind (by rw [hclosing]; decide) 0 rest
  rw [tokens, List.cons_append, List.append_assoc, leaf_group hopening]
  rw [show 1 = 0 + 1 from rfl, List.singleton_append, hinner.whole (by omega) hstops, eval]
  cases inner.eval live with
  | error failure => rfl
  | ok v => simp [Except.map, bind, Except.bind, Token.isOperator, hclosing]

theorem ReadAsLeaf.sign {op t operand} (hop : op ∈ signs) (ht : t.kind = .operator op)
    (hoperand : operand.ReadAsLeaf) : (sign op t operand).ReadAsLeaf := by
  intro stop depth live rest hdepth
  simp only [tokens, List.length_cons] at hdepth
  obtain ⟨d, rfl⟩ : ∃ d, depth = d + 1 := ⟨depth - 1, by omega⟩
  rw [tokens, List.cons_append, leaf_sign ht hop, hoperand stop d live rest (by omega), eval]
  cases operand.eval live with
  | error failure => rfl
  | ok a =>
      change (applySign live op t.location a >>= _) = (applySign live op t.location a).map (·, rest)
      cases applySign live op t.location a <;> rfl

theorem ReadAsLeft.binary {left op t right} {row outer : Nat} (hop : op ∈ ladder.getD row [])
    (ht : t.kind = .operator op) (hleft : left.ReadAsLeft row) (hright : right.ReadAsLeft (row + 1))
    (houter : outer ≤ row) : (binary left op t right).ReadAsLeft outer := by
  intro stop depth loosest live rest hdepth hloosest hstops
  simp only [tokens, spine, List.length_append, List.length_cons] at hdepth
  have hspine := left.spine_lt
  -- The operator ends the left operand, because it binds no more tightly than that does.
  have hoperator : Stops (row + 1) (t :: (right.tokens ++ rest)) := by
    intro op' r hop' hr
    rw [ht, TokenKind.operator.injEq] at hop'
    subst hop'
    rw [row_unique hr hop]
    omega
  have hrest : Stops (row + 1) rest := hstops.mono (by omega)
  rw [tokens, spine, List.append_assoc, List.cons_append,
    show depth + (left.spine + 1) + 1 = depth + 1 + left.spine + 1 by omega,
    hleft stop (depth + 1) loosest live _ (by omega) (by omega) hoperator, eval]
  cases left.eval live with
  | error failure => rfl
  | ok a =>
      change climb stop (depth + 1) (loosest + 1) live a (t :: (right.tokens ++ rest)) = _
      rw [climb_step ht hop (by omega), hright.whole (by omega) hrest]
      change _ = ((right.eval _ >>= _) >>= _)
      cases right.eval (needsRight live op a) with
      | error failure => rfl
      | ok b =>
          change (apply _ op t.location a b >>= _) = (apply _ op t.location a b >>= _)
          rfl

theorem readAsLeaf_constant {t : Token} (ht : t.kind = .intConstant) (hvalue : t.intValue?.isSome) :
    (constant t).ReadAsLeaf := by
  intro stop depth live rest hdepth
  obtain ⟨d, rfl⟩ : ∃ d, depth = d + 1 := ⟨depth - 1, by omega⟩
  obtain ⟨n, hn⟩ := Option.isSome_iff_exists.1 hvalue
  rw [tokens, List.singleton_append, leaf, ht]
  simp [hn, eval, Except.map]

theorem readAsLeaf_name {t : Token} (ht : t.kind = .identifier) : (name t).ReadAsLeaf := by
  intro stop depth live rest hdepth
  obtain ⟨d, rfl⟩ : ∃ d, depth = d + 1 := ⟨depth - 1, by omega⟩
  rw [tokens, List.singleton_append, leaf, ht, eval]
  cases live <;> rfl

/-- Expressions are read as they are written, one by one after the other. -/
theorem readAs (e : Formula) :
    (e.Fits ladder.length → e.ReadAsLeaf) ∧ ∀ row, e.Fits row → e.ReadAsLeft row := by
  have hoperand : ∀ {e : Formula}, e.spine = 0 → (e.Fits 0 → e.ReadAsLeaf) →
      (e.Fits ladder.length → e.ReadAsLeaf) ∧ ∀ row, e.Fits row → e.ReadAsLeft row := by
    intro e hspine hleaf
    refine ⟨fun h => hleaf (h.operand 0), fun row h => ?_⟩
    exact (hleaf (h.mono (Nat.zero_le row))).left hspine row
  induction e with
  | constant t => exact hoperand rfl fun h => readAsLeaf_constant h.1 h.2
  | name t => exact hoperand rfl readAsLeaf_name
  | group opening inner closing ih =>
      exact hoperand rfl fun h => .group h.1 (ih.2 0 h.2.1) h.2.2
  | sign op t operand ih => exact hoperand rfl fun h => .sign h.1 h.2.1 (ih.1 h.2.2)
  | binary left op t right ihl ihr =>
      constructor
      · rintro ⟨row, hrow, hop, -⟩
        exact absurd (row_lt_of_mem hop) (Nat.not_lt.2 hrow)
      · rintro outer ⟨row, hrow, hop, ht, hleft, hright⟩
        exact .binary hop ht (ihl.2 row hleft) (ihr.2 (row + 1) hright) hrow

/-- Evaluating the words of an expression comes to evaluating the expression. -/
theorem evaluate_tokens {e : Formula} (h : e.Fits 0) (directive : Location) :
    evaluate directive e.tokens = e.eval true := by
  have htree (stop : Location) :
      tree stop (2 * e.tokens.length + 2) (0 + 1) true (e.tokens ++ []) =
        (e.eval true).map (·, []) :=
    (e.readAs.2 0 h).whole (by omega) trivial
  rw [List.append_nil, Nat.zero_add] at htree
  rw [evaluate]
  dsimp only
  rw [htree]
  cases e.eval true <;> rfl

end Formula

/-! ## What is read has been written -/

/-- What is read at some depth is an expression, and nothing that could be added to it is left. -/
structure ReadsFormulas (stop : Location) (depth : Nat) : Prop where
  leaf : ∀ {live ts v rest}, leaf stop depth live ts = .ok (v, rest) →
    ∃ e : Formula, e.Fits ladder.length ∧ ts = e.tokens ++ rest
  tree : ∀ {row live ts v rest}, tree stop depth (row + 1) live ts = .ok (v, rest) →
    ∃ e : Formula, e.Fits row ∧ ts = e.tokens ++ rest ∧ Stops row rest
  /-- What comes next may take all that was read so far for its left operand. -/
  climb : ∀ {row live left ts v rest} {e₀ : Formula}, e₀.Fits row →
    (∀ t ts' op r, ts = t :: ts' → t.kind = .operator op → op ∈ ladder.getD r [] → e₀.Fits r) →
    climb stop depth (row + 1) live left ts = .ok (v, rest) →
    ∃ e : Formula, e.Fits row ∧ e₀.tokens ++ ts = e.tokens ++ rest ∧ Stops row rest

section

variable {stop : Location} {depth row : Nat} {live : Bool} {v left : Int64} {ts rest : List Token}

theorem ReadsFormulas.leaf_succ (ih : ReadsFormulas stop depth)
    (h : Condition.leaf stop (depth + 1) live ts = .ok (v, rest)) :
    ∃ e : Formula, e.Fits ladder.length ∧ ts = e.tokens ++ rest := by
  cases ts with
  | nil =>
      rw [Condition.leaf] at h
      cases h
      simp
  | cons t ts =>
      rw [Condition.leaf] at h
      split at h
      · rename_i ht
        split at h
        · rename_i n hn
          cases h
          exact ⟨.constant t, ⟨ht, by simp [hn]⟩, rfl⟩
        · cases h
      · rename_i ht
        obtain ⟨w, hw, hrest⟩ := bind_eq_ok_iff.1 h
        cases hrest
        exact ⟨.name t, ht, rfl⟩
      · rename_i ht
        obtain ⟨⟨w, ts'⟩, hinner, hclosed⟩ := bind_eq_ok_iff.1 h
        obtain ⟨inner, hfits, rfl, -⟩ := ih.tree hinner
        cases ts' with
        | nil => cases hclosed
        | cons closing ts' =>
            dsimp only at hclosed
            split at hclosed
            · rename_i hclosing
              cases hclosed
              have hclosing : closing.kind = .operator .closeParen := by
                simpa [Token.isOperator] using hclosing
              exact ⟨.group t inner closing, ⟨ht, hfits, hclosing⟩, by simp [Formula.tokens]⟩
            · cases hclosed
      · rename_i op _ ht
        split at h
        · rename_i hsign
          obtain ⟨⟨a, ts'⟩, hoperand, hvalue⟩ := bind_eq_ok_iff.1 h
          obtain ⟨operand, hfits, rfl⟩ := ih.leaf hoperand
          obtain ⟨w, hw, hrest⟩ := bind_eq_ok_iff.1 hvalue
          cases hrest
          exact ⟨.sign op t operand, ⟨(isSign_iff op).1 hsign, ht, hfits⟩, rfl⟩
        · cases h
      · cases h

theorem ReadsFormulas.tree_succ (ih : ReadsFormulas stop depth)
    (h : Condition.tree stop (depth + 1) (row + 1) live ts = .ok (v, rest)) :
    ∃ e : Formula, e.Fits row ∧ ts = e.tokens ++ rest ∧ Stops row rest := by
  rw [Condition.tree] at h
  obtain ⟨⟨a, ts'⟩, hleaf, hclimb⟩ := bind_eq_ok_iff.1 h
  obtain ⟨e₀, hfits, rfl⟩ := ih.leaf hleaf
  exact ih.climb (hfits.operand row) (fun _ _ _ r _ _ _ => hfits.operand r) hclimb

theorem ReadsFormulas.climb_succ (ih : ReadsFormulas stop depth) {e₀ : Formula}
    (hfits : e₀.Fits row)
    (hleft : ∀ t ts' op r, ts = t :: ts' → t.kind = .operator op → op ∈ ladder.getD r [] →
      e₀.Fits r)
    (h : Condition.climb stop (depth + 1) (row + 1) live left ts = .ok (v, rest)) :
    ∃ e : Formula, e.Fits row ∧ e₀.tokens ++ ts = e.tokens ++ rest ∧ Stops row rest := by
  cases ts with
  | nil =>
      rw [Condition.climb] at h
      · cases h
        exact ⟨e₀, hfits, rfl, trivial⟩
      · simp
  | cons t ts =>
      rw [Condition.climb] at h
      split at h
      · rename_i hnone
        cases h
        refine ⟨e₀, hfits, rfl, fun op r ht hop => ?_⟩
        rw [operatorAt_eq_some_iff.2 ⟨ht, (precedence?_eq_some_iff r op).2 hop⟩] at hnone
        cases hnone
      · rename_i op level hop
        obtain ⟨ht, hlevel⟩ := operatorAt_eq_some_iff.1 hop
        obtain ⟨r, rfl, hr⟩ := exists_row_of_precedence? hlevel
        split at h
        · rename_i hloose
          cases h
          refine ⟨e₀, hfits, rfl, fun op' r' ht' hr' => ?_⟩
          rw [ht, TokenKind.operator.injEq] at ht'
          subst ht'
          rw [row_unique hr' hr]
          omega
        · rename_i htight
          obtain ⟨⟨b, ts'⟩, hright, hvalue⟩ := bind_eq_ok_iff.1 h
          obtain ⟨w, -, hrest⟩ := bind_eq_ok_iff.1 hvalue
          obtain ⟨right, hrightFits, rfl, hstops⟩ := ih.tree hright
          have hleft₀ : e₀.Fits r := hleft t _ op r rfl ht hr
          have hbinary : ∀ looser ≤ r, (Formula.binary e₀ op t right).Fits looser :=
            fun looser hle => ⟨r, hle, hr, ht, hleft₀, hrightFits⟩
          obtain ⟨e, he, htokens, hend⟩ := ih.climb (hbinary row (by omega))
            (fun t' ts'' op' r' hts' ht' hr' => hbinary r' (by
              subst hts'
              have := hstops op' r' ht' hr'
              omega)) hrest
          exact ⟨e, he, by simpa [Formula.tokens] using htokens, hend⟩

end

theorem readsFormulas (stop : Location) (depth : Nat) : ReadsFormulas stop depth := by
  induction depth with
  | zero =>
      refine ⟨fun h => ?_, fun h => ?_, fun _ _ h => ?_⟩
      · rw [Condition.leaf] at h
        cases h
      · rw [Condition.tree] at h
        cases h
      · rw [Condition.climb] at h
        cases h
  | succ depth ih => exact ⟨ih.leaf_succ, ih.tree_succ, ih.climb_succ⟩

theorem evaluate_eq_ok_iff_evaluates (directive : Location) (ts : List Token) (v : Int64) :
    evaluate directive ts = .ok v ↔ ∃ e : Formula, e.Fits 0 ∧ e.tokens = ts ∧ e.Evaluates v := by
  constructor
  · intro h
    obtain ⟨⟨w, rest⟩, htree, hrest⟩ := bind_eq_ok_iff.1 h
    obtain ⟨e, hfits, rfl, -⟩ := (readsFormulas _ _).tree htree
    cases rest with
    | cons t rest => cases hrest
    | nil =>
        rw [List.append_nil, Formula.evaluate_tokens hfits] at h
        exact ⟨e, hfits, (List.append_nil _).symm, (Formula.eval_eq_ok_iff hfits).1 h⟩
  · rintro ⟨e, hfits, rfl, hvalue⟩
    rw [Formula.evaluate_tokens hfits]
    exact (Formula.eval_eq_ok_iff hfits).2 hvalue

/-- A condition has a value exactly if its tokens are an expression that has this value. So the
right operand of `&&` and `||` need not have one where the left operand decides. -/
theorem evaluate_eq_ok_iff (directive : Location) :
    (∀ ts v, evaluate directive ts = .ok v ↔
      ∃ e : Formula, e.Fits 0 ∧ e.tokens = ts ∧ e.Evaluates v) ∧
    ∀ left op t right a, (Formula.binary left op t right).Fits 0 → left.Evaluates a →
      (op = .logicalAnd ∧ a = 0 ∨ op = .logicalOr ∧ a ≠ 0) →
        evaluate directive (left.tokens ++ t :: right.tokens) = .ok (truth (op = .logicalOr)) := by
  refine ⟨evaluate_eq_ok_iff_evaluates directive, ?_⟩
  intro left op t right a hfits hleft hdecided
  refine (evaluate_eq_ok_iff_evaluates _ _ _).2 ⟨.binary left op t right, hfits, rfl, ?_⟩
  rcases hdecided with ⟨rfl, rfl⟩ | ⟨rfl, ha⟩
  · exact .andFalse hleft
  · exact .orTrue hleft ha

/-- In `0 && 1 / x` neither the name nor the division matters. -/
theorem evaluate_eq_ok_iff_division :
    let token (kind : TokenKind) (text : String) : Token := ⟨kind, text, default, false, false⟩
    let zero := token .intConstant "0"
    let op (op : Operator) := token (.operator op) op.text
    let quotient := Formula.binary (.constant (token .intConstant "1")) .divide (op .divide)
      (.name (token .identifier "x"))
    (Formula.binary (.constant zero) .logicalAnd (op .logicalAnd) quotient).Fits 0 ∧
      (Formula.constant zero).Evaluates 0 ∧
      evaluate default (zero :: op .logicalAnd :: quotient.tokens) = .ok 0 := by
  intro token zero op quotient
  have hfits : (Formula.binary (.constant zero) .logicalAnd (op .logicalAnd) quotient).Fits 0 :=
    ⟨1, by decide, by decide, rfl, ⟨rfl, by decide⟩, 9, by decide, by decide, rfl,
      ⟨rfl, by decide⟩, rfl⟩
  have hvalue : zero.intValue? = some 0 := by decide
  have hzero : (Formula.constant zero).Evaluates 0 := .constant hvalue
  exact ⟨hfits, hzero, (evaluate_eq_ok_iff default).2 _ _ _ _ 0 hfits hzero (.inl ⟨rfl, rfl⟩)⟩

end Essl.Condition
