import Essl.Proofs.Grammar.Reading

/-!
# Depth of nesting

Expressions are read by a parser for inner expressions that goes only so deep. What is inside an
expression has fewer tokens than the expression, so any depth that is enough for the tokens gives
the same. `Agree p q ts` says so of two grammar functions on some tokens, and that they leave an
end of the tokens, whether they succeed or fail.
-/

namespace Essl

variable {α β : Type}

/-- The tokens that are left, after a failure those behind the token found. -/
def Parse.left : Except SyntaxFailure (α × List Token) → List Token
  | .ok (_, rest) => rest
  | .error failure => failure.rest

/-- Two grammar functions do the same on some tokens, and leave an end of them. -/
structure Agree (p q : Parse α) (ts : List Token) : Prop where
  eq : p ts = q ts
  left : Parse.left (q ts) <:+ ts

namespace Agree

variable {p q : Parse α} {f g : α → Parse β} {ts : List Token}

theorem of_ok {a : α} {rest : List Token} (h : p ts = .ok (a, rest)) (hrest : rest <:+ ts) :
    Agree p p ts := ⟨rfl, by rwa [h]⟩

theorem of_error {failure : SyntaxFailure} (h : p ts = .error failure)
    (hrest : failure.rest <:+ ts) : Agree p p ts := ⟨rfl, by rwa [h]⟩

/-- What is left after the first functions may be all tokens or some. -/
theorem bind (h : Agree p q ts) (hnext : ∀ a rest, rest <:+ ts → Agree (f a) (g a) rest) :
    Agree (p >>= f) (q >>= g) ts := by
  obtain ⟨heq, hleft⟩ := h
  cases hq : q ts with
  | error failure =>
      rw [hq] at heq hleft
      exact ⟨by rw [Parse.bind_apply, Parse.bind_apply, heq, hq], by rwa [Parse.bind_apply, hq]⟩
  | ok result =>
      obtain ⟨a, rest⟩ := result
      rw [hq] at heq hleft
      obtain ⟨heq', hleft'⟩ := hnext a rest hleft
      refine ⟨by rw [Parse.bind_ok heq, Parse.bind_ok hq, heq'], ?_⟩
      rw [Parse.bind_ok hq]
      exact hleft'.trans hleft

theorem pure (a : α) : Agree (pure a : Parse α) (Pure.pure a) ts := of_ok rfl (List.suffix_refl ts)

theorem fail (expected : List TokenKind) (found : Option Token) :
    Agree (Parse.fail expected found : Parse α) (Parse.fail expected found) ts :=
  of_error rfl (List.suffix_refl ts)

/-- What follows the next token is fewer tokens. -/
theorem next {expected : List TokenKind} {body body' : Token → Parse α}
    (h : ∀ t rest, rest.length < ts.length → Agree (body t) (body' t) rest) :
    Agree (Parse.next expected body) (Parse.next expected body') ts := by
  cases ts with
  | nil => exact ⟨rfl, List.suffix_rfl⟩
  | cons t rest =>
      obtain ⟨heq, hleft⟩ := h t rest (by simp)
      exact ⟨heq, hleft.trans (List.suffix_cons t rest)⟩

theorem take : Agree Parse.take Parse.take ts := by
  cases ts with
  | nil => exact of_ok rfl List.suffix_rfl
  | cons t rest => exact of_ok rfl (List.suffix_cons t rest)

theorem peekKind : Agree Parse.peekKind Parse.peekKind ts := of_ok rfl List.suffix_rfl

theorem remaining : Agree Parse.remaining Parse.remaining ts := of_ok rfl List.suffix_rfl

theorem acceptIf (c : Token → Bool) : Agree (Parse.acceptIf c) (Parse.acceptIf c) ts := by
  cases ts with
  | nil => exact of_ok rfl List.suffix_rfl
  | cons t rest =>
      by_cases hc : c t
      · exact of_ok (if_pos hc) (List.suffix_cons t rest)
      · exact of_ok (if_neg hc) List.suffix_rfl

theorem accept (kind : TokenKind) : Agree (Parse.accept kind) (Parse.accept kind) ts := acceptIf _

theorem acceptOperator (ops : List Operator) :
    Agree (Parse.acceptOperator ops) (Parse.acceptOperator ops) ts := acceptIf _

theorem require (kinds : List TokenKind) :
    Agree (Parse.require kinds) (Parse.require kinds) ts := by
  cases ts with
  | nil => exact of_error rfl List.suffix_rfl
  | cons t rest =>
      by_cases ht : kinds.contains t.kind
      · exact of_ok (if_pos ht) (List.suffix_cons t rest)
      · exact of_error (if_neg ht) (List.suffix_cons t rest)

theorem requireOperator (op : Operator) :
    Agree (Parse.requireOperator op) (Parse.requireOperator op) ts := require _

theorem ite {c : Prop} [Decidable c] {p' q' : Parse α} (h : Agree p q ts) (h' : Agree p' q' ts) :
    Agree (if c then p else p') (if c then q else q') ts := by
  by_cases hc : c
  · rwa [if_pos hc, if_pos hc]
  · rwa [if_neg hc, if_neg hc]

end Agree

namespace Grammar

/-- On fewer tokens than some number, two parsers for inner expressions do the same. -/
def AgreeBelow (inner inner' : ExprParser) (size : Nat) : Prop :=
  ∀ level t ts, ts.length < size → Agree (inner level t) (inner' level t) ts

section

variable {inner inner' : ExprParser} {size : Nat} {t : Token} {ts : List Token}

theorem AgreeBelow.mono (h : AgreeBelow inner inner' size) {smaller : Nat} (hle : smaller ≤ size) :
    AgreeBelow inner inner' smaller :=
  fun level t ts hts => h level t ts (Nat.lt_of_lt_of_le hts hle)

/-- An end of the tokens that inner expressions are read from. -/
theorem AgreeBelow.suffix (h : AgreeBelow inner inner' ts.length) {rest : List Token}
    (hrest : rest <:+ ts) : AgreeBelow inner inner' rest.length := h.mono hrest.length_le

/-! ## Expressions without operators -/

theorem nextExpr_agree (h : AgreeBelow inner inner' ts.length) (level : Level) :
    Agree (nextExpr inner level) (nextExpr inner' level) ts :=
  .next fun t rest hrest => h level t rest hrest

theorem group_agree (h : AgreeBelow inner inner' ts.length) :
    Agree (group inner t) (group inner' t) ts :=
  (nextExpr_agree h .expression).bind fun _ _ _ =>
    (Agree.requireOperator _).bind fun _ _ _ => .pure _

theorem sizeIn_agree (h : AgreeBelow inner inner' ts.length) :
    Agree (sizeIn inner) (sizeIn inner') ts := by
  refine (Agree.accept _).bind fun opening rest hrest => ?_
  cases opening with
  | none => exact .pure none
  | some opening =>
      exact (nextExpr_agree (h.suffix hrest) .conditional).bind fun _ _ _ =>
        (Agree.requireOperator _).bind fun _ _ _ => .pure _

theorem argumentsTail_agree (turns : Nat) (h : AgreeBelow inner inner' ts.length) :
    Agree (argumentsTail inner turns) (argumentsTail inner' turns) ts := by
  induction turns generalizing ts with
  | zero => exact .fail _ none
  | succ turns ih =>
      refine Agree.take.bind fun found rest hrest => ?_
      cases found with
      | none => exact .fail _ none
      | some t =>
          refine .ite ?_ (.ite (.pure _) (.fail _ _))
          exact (nextExpr_agree (h.suffix hrest) .assignment).bind fun _ _ hrest' =>
            (ih (h.suffix (hrest'.trans hrest))).bind fun _ _ _ => .pure _

theorem callTail_agree (h : AgreeBelow inner inner' ts.length) :
    Agree (callTail inner) (callTail inner') ts := by
  refine (Agree.requireOperator _).bind fun opening rest hrest => ?_
  refine (Agree.accept _).bind fun void rest' hrest' => ?_
  cases void with
  | some void => exact (Agree.requireOperator _).bind fun _ _ _ => .pure _
  | none =>
      refine (Agree.accept _).bind fun closing rest'' hrest'' => ?_
      cases closing with
      | some closing => exact .pure _
      | none =>
          have hsuffix := hrest''.trans (hrest'.trans hrest)
          refine (nextExpr_agree (h.suffix hsuffix) .assignment).bind fun _ _ hlater => ?_
          refine Agree.remaining.bind fun turns _ hsame => ?_
          exact (argumentsTail_agree _ (h.suffix (hsame.trans (hlater.trans hsuffix)))).bind
            fun _ _ _ => .pure _

theorem call_agree (h : AgreeBelow inner inner' ts.length) :
    Agree (call inner t) (call inner' t) ts :=
  (callTail_agree h).bind fun _ _ _ => .pure _

theorem arrayCall_agree (size : ArraySize) (h : AgreeBelow inner inner' ts.length) :
    Agree (arrayCall inner t size) (arrayCall inner' t size) ts :=
  (callTail_agree h).bind fun _ _ _ => .pure _

theorem constructor_agree (h : AgreeBelow inner inner' ts.length) :
    Agree (constructor inner t) (constructor inner' t) ts := by
  refine Agree.peekKind.bind fun kind rest hrest => ?_
  split
  · exact call_agree (h.suffix hrest)
  · refine (sizeIn_agree (h.suffix hrest)).bind fun size _ hrest' => ?_
    cases size with
    | none => exact call_agree (h.suffix (hrest'.trans hrest))
    | some size => exact arrayCall_agree size (h.suffix (hrest'.trans hrest))
  · exact Agree.take.bind fun _ _ _ => .fail _ _

theorem reference_agree (h : AgreeBelow inner inner' ts.length) :
    Agree (reference inner t) (reference inner' t) ts := by
  refine Agree.peekKind.bind fun kind rest hrest => ?_
  split
  · exact call_agree (h.suffix hrest)
  · refine (Agree.requireOperator _).bind fun opening _ hopening => ?_
    have hrest := hopening.trans hrest
    refine (nextExpr_agree (h.suffix hrest) .expression).bind fun _ _ hindex => ?_
    refine (Agree.requireOperator _).bind fun closing _ hclosing => ?_
    refine Agree.peekKind.bind fun kind _ hsame => .ite ?_ (.pure _)
    exact arrayCall_agree _ (h.suffix (hsame.trans (hclosing.trans (hindex.trans hrest))))
  · exact .pure _

theorem functionOrVariable_agree (h : AgreeBelow inner inner' ts.length) :
    Agree (functionOrVariable inner t) (functionOrVariable inner' t) ts :=
  .ite (reference_agree h) (constructor_agree h)

theorem primary_agree (h : AgreeBelow inner inner' ts.length) :
    Agree (primary inner t) (primary inner' t) ts :=
  .ite (.pure _) (.ite (group_agree h) (.ite (functionOrVariable_agree h) (.fail _ _)))

/-! ## Operators -/

theorem postfixes_agree (turns : Nat) (operand : Expr) (h : AgreeBelow inner inner' ts.length) :
    Agree (postfixes inner turns operand) (postfixes inner' turns operand) ts := by
  induction turns generalizing operand ts with
  | zero => exact .pure operand
  | succ turns ih =>
      refine (Agree.acceptOperator _).bind fun op rest hrest => ?_
      cases op with
      | none => exact .pure operand
      | some op =>
          refine .ite ?_ (.ite ?_ (ih _ (h.suffix hrest)))
          · exact (nextExpr_agree (h.suffix hrest) .expression).bind fun _ _ hindex =>
              (Agree.requireOperator _).bind fun _ _ hclosing =>
                ih _ (h.suffix (hclosing.trans (hindex.trans hrest)))
          · exact (Agree.require _).bind fun _ _ hselector =>
              ih _ (h.suffix (hselector.trans hrest))

theorem unary_agree (h : AgreeBelow inner inner' ts.length) :
    Agree (unary inner t) (unary inner' t) ts := by
  refine .ite ((nextExpr_agree h .unary).bind fun _ _ _ => .pure _) (.ite ?_ (.fail _ _))
  exact (primary_agree h).bind fun operand _ hrest => Agree.remaining.bind fun turns _ hsame =>
    postfixes_agree turns operand (h.suffix (hsame.trans hrest))

theorem foldOperators_agree (ops : List Operator) {operand operand' : Token → Parse Expr}
    (turns : Nat) (left : Expr)
    (h : ∀ t rest, rest.length < ts.length → Agree (operand t) (operand' t) rest) :
    Agree (foldOperators ops operand turns left) (foldOperators ops operand' turns left) ts := by
  induction turns generalizing left ts with
  | zero => exact .pure left
  | succ turns ih =>
      refine (Agree.acceptOperator ops).bind fun op rest hrest => ?_
      cases op with
      | none => exact .pure left
      | some op =>
          have hle := hrest.length_le
          refine Agree.bind (.next fun t later hlater => ?_) fun right _ hright => ?_
          · exact h t later (by omega)
          · have hle' := hright.length_le
            exact ih _ fun t later hlater => h t later (by omega)

theorem binary_agree (levels : List (List Operator)) (h : AgreeBelow inner inner' ts.length) :
    Agree (binary inner levels t) (binary inner' levels t) ts := by
  induction levels generalizing t ts with
  | nil => exact unary_agree h
  | cons ops tighter ih =>
      refine (ih h).bind fun left _ hleft => Agree.remaining.bind fun turns rest hsame => ?_
      have hrest := (hsame.trans hleft).length_le
      exact foldOperators_agree ops turns left fun t later hlater => ih (h.mono (by omega))

theorem binaryResume_agree (levels : List (List Operator)) (operand : Expr)
    (h : AgreeBelow inner inner' ts.length) :
    Agree (binaryResume inner levels operand) (binaryResume inner' levels operand) ts := by
  induction levels generalizing ts with
  | nil => exact .pure operand
  | cons ops tighter ih =>
      refine (ih h).bind fun left _ hleft => Agree.remaining.bind fun turns rest hsame => ?_
      have hrest := (hsame.trans hleft).length_le
      exact foldOperators_agree ops turns left fun t later hlater =>
        binary_agree tighter (h.mono (by omega))

theorem ternaryTail_agree (condition : Expr) (h : AgreeBelow inner inner' ts.length) :
    Agree (ternaryTail inner condition) (ternaryTail inner' condition) ts := by
  refine (Agree.accept _).bind fun question rest hrest => ?_
  cases question with
  | none => exact .pure condition
  | some question =>
      refine (nextExpr_agree (h.suffix hrest) .expression).bind fun _ _ htrue => ?_
      refine (Agree.requireOperator _).bind fun _ _ hcolon => ?_
      exact (nextExpr_agree (h.suffix (hcolon.trans (htrue.trans hrest))) .assignment).bind
        fun _ _ _ => .pure _

theorem conditional_agree (h : AgreeBelow inner inner' ts.length) :
    Agree (conditional inner t) (conditional inner' t) ts :=
  (binary_agree ladder h).bind fun condition _ hrest => ternaryTail_agree condition (h.suffix hrest)

theorem conditionalResume_agree (operand : Expr) (h : AgreeBelow inner inner' ts.length) :
    Agree (conditionalResume inner operand) (conditionalResume inner' operand) ts :=
  (binaryResume_agree ladder operand h).bind fun condition _ hrest =>
    ternaryTail_agree condition (h.suffix hrest)

theorem assignment_agree (h : AgreeBelow inner inner' ts.length) :
    Agree (assignment inner t) (assignment inner' t) ts := by
  refine (unary_agree h).bind fun left _ hleft => (Agree.acceptIf _).bind fun op _ hop => ?_
  have hrest := h.suffix (hop.trans hleft)
  cases op with
  | none => exact conditionalResume_agree left hrest
  | some op => exact (nextExpr_agree hrest .assignment).bind fun _ _ _ => .pure _

theorem commaTail_agree (turns : Nat) (h : AgreeBelow inner inner' ts.length) :
    Agree (commaTail inner turns) (commaTail inner' turns) ts := by
  induction turns generalizing ts with
  | zero => exact .pure []
  | succ turns ih =>
      refine (Agree.accept _).bind fun comma rest hrest => ?_
      cases comma with
      | none => exact .pure []
      | some comma =>
          exact (nextExpr_agree (h.suffix hrest) .assignment).bind fun _ _ hexpr =>
            (ih (h.suffix (hexpr.trans hrest))).bind fun _ _ _ => .pure _

theorem expression_agree (h : AgreeBelow inner inner' ts.length) :
    Agree (expression inner t) (expression inner' t) ts := by
  refine (assignment_agree h).bind fun first _ hfirst => ?_
  refine Agree.remaining.bind fun turns _ hsame => ?_
  refine (commaTail_agree turns (h.suffix (hsame.trans hfirst))).bind fun more _ _ => ?_
  cases more with
  | nil => exact .pure first
  | cons second more => exact .pure _

theorem exprOf_agree (level : Level) (h : AgreeBelow inner inner' ts.length) :
    Agree (exprOf inner level t) (exprOf inner' level t) ts := by
  cases level with
  | unary => exact unary_agree h
  | conditional => exact conditional_agree h
  | assignment => exact assignment_agree h
  | expression => exact expression_agree h

end

/-! ## Depths -/

/-- Two depths that are both enough for the tokens give the same. -/
theorem exprWithin_agree {size depth depth' : Nat} (hdepth : size ≤ depth)
    (hdepth' : size ≤ depth') : AgreeBelow (exprWithin depth) (exprWithin depth') size := by
  induction depth generalizing depth' size with
  | zero => exact fun _ _ ts hts => absurd (Nat.lt_of_lt_of_le hts hdepth) (Nat.not_lt_zero _)
  | succ depth ih =>
      intro level t ts hts
      cases depth' with
      | zero => exact absurd (Nat.lt_of_lt_of_le hts hdepth') (Nat.not_lt_zero _)
      | succ depth' => exact exprOf_agree level (ih (by omega) (by omega))

/-- A grammar function that reads inner expressions may read them at any depth that is enough. -/
theorem withInner_agree {α : Type} {body : ExprParser → Parse α} {ts : List Token} {depth : Nat}
    (hdepth : ts.length ≤ depth)
    (h : ∀ inner inner', AgreeBelow inner inner' ts.length → Agree (body inner) (body inner') ts) :
    Agree (withInner body) (body (exprWithin depth)) ts := by
  obtain ⟨heq, hleft⟩ := h _ _ (exprWithin_agree (Nat.le_refl ts.length) hdepth)
  exact ⟨heq, hleft⟩

end Grammar

end Essl
