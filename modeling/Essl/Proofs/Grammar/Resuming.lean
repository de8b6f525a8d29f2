import Essl.Parser
import Essl.Proofs.Grammar.Depth

/-!
# Resuming behind an operand

Only the token behind a unary expression tells whether it is assigned to. If it is not, parsing
resumes with it as the first operand. That gives what parsing from its first token would have given:
the same expression or the same error, with the same tokens left.
-/

namespace Essl

namespace Grammar

theorem exprRule_parse_of_mem {body : ExprParser → Token → Parse Expr} {t : Token}
    (ht : t.kind ∈ exprStart) (ts : List Token) :
    (exprRule body).parse t ts = body (exprWithin ts.length) t ts := by
  rw [Rule.parse_of_mem ht]
  rfl

theorem exprRule_parse_of_not_mem {body : ExprParser → Token → Parse Expr} {t : Token}
    (ht : t.kind ∉ exprStart) : (exprRule body).parse t = .fail exprStart t :=
  if_neg (by simpa [Rule.starts, exprRule] using ht)

/-- A rule that can also go on behind a unary expression which was read before. -/
inductive LadderRule where
  /-- The levels of a ladder. Those of `ladder.drop n` begin with its row `n`. -/
  | binary (levels : List (List Operator))
  | conditional

namespace LadderRule

variable {inner : ExprParser} {t : Token} {ts : List Token}

/-- Reads the expression that starts with a token. -/
def body : LadderRule → ExprParser → Token → Parse Expr
  | binary levels, inner => Grammar.binary inner levels
  | conditional, inner => Grammar.conditional inner

/-- Reads the rest of an expression behind its first operand. -/
def bodyResume : LadderRule → ExprParser → Expr → Parse Expr
  | binary levels, inner => binaryResume inner levels
  | conditional, inner => conditionalResume inner

/-- The rule for the expressions of the levels. -/
def rule : LadderRule → Rule Expr
  | binary levels => binaryRule levels
  | conditional => conditionalRule

/-- Goes on behind an operand. -/
def resume (L : LadderRule) (operand : Expr) : Parse Expr :=
  withInner fun inner => L.bodyResume inner operand

theorem rule_eq (L : LadderRule) : L.rule = exprRule L.body := by cases L <;> rfl

theorem binary_eq_bind (inner : ExprParser) (levels : List (List Operator)) (t : Token) :
    Grammar.binary inner levels t = unary inner t >>= binaryResume inner levels := by
  induction levels with
  | nil => exact (bind_pure _).symm
  | cons ops tighter ih =>
      rw [Grammar.binary, ih, bind_assoc]
      rfl

theorem body_eq_bind (L : LadderRule) (inner : ExprParser) (t : Token) :
    L.body inner t = unary inner t >>= L.bodyResume inner := by
  cases L with
  | binary levels => exact binary_eq_bind inner levels t
  | conditional =>
      change (Grammar.binary inner ladder t >>= ternaryTail inner) = _
      rw [binary_eq_bind, bind_assoc]
      rfl

theorem bodyResume_agree (L : LadderRule) {inner' : ExprParser} (operand : Expr)
    (h : AgreeBelow inner inner' ts.length) :
    Agree (L.bodyResume inner operand) (L.bodyResume inner' operand) ts := by
  cases L with
  | binary levels => exact binaryResume_agree levels operand h
  | conditional => exact conditionalResume_agree operand h

theorem resume_agree (L : LadderRule) (operand : Expr) {depth : Nat} (hdepth : ts.length ≤ depth) :
    Agree (L.resume operand) (L.bodyResume (exprWithin depth) operand) ts :=
  withInner_agree hdepth fun _ _ => L.bodyResume_agree operand

/-- Reading from the first token on is reading a unary expression and going on behind it. -/
theorem parse_apply (L : LadderRule) (t : Token) (ts : List Token) :
    L.rule.parse t ts = (unaryRule.parse t >>= L.resume) ts := by
  rw [rule_eq]
  by_cases ht : t.kind ∈ exprStart
  · -- The operand leaves fewer tokens, for which less depth would do.
    have hbind : Agree (unary (exprWithin ts.length) t >>= L.resume)
        (unary (exprWithin ts.length) t >>= L.bodyResume (exprWithin ts.length)) ts :=
      (unary_agree (exprWithin_agree (Nat.le_refl _) (Nat.le_refl _))).bind fun operand _ hrest =>
        L.resume_agree operand hrest.length_le
    calc (exprRule L.body).parse t ts
        = L.body (exprWithin ts.length) t ts := exprRule_parse_of_mem ht ts
      _ = (unary (exprWithin ts.length) t >>= L.resume) ts := by rw [body_eq_bind, hbind.eq]
      _ = (unaryRule.parse t >>= L.resume) ts := by
          rw [Parse.bind_apply, Parse.bind_apply, unaryRule, exprRule_parse_of_mem ht]
  · rw [Parse.bind_apply, unaryRule, exprRule_parse_of_not_mem ht, exprRule_parse_of_not_mem ht]
    rfl

end LadderRule

variable {t : Token} {ts : List Token}

theorem unaryRule_agree (t : Token) (ts : List Token) :
    Agree (unaryRule.parse t) (unaryRule.parse t) ts := by
  refine .ite ?_ (.fail _ _)
  have hunary : ∀ inner inner', AgreeBelow inner inner' ts.length →
      Agree (unary inner t) (unary inner' t) ts := fun _ _ => unary_agree
  exact ⟨rfl, (withInner_agree (Nat.le_refl ts.length) hunary).left⟩

/-- Where no assignment follows the operand, an assignment is a conditional. -/
theorem assignmentRule_parse_apply
    (h : ∀ operand rest, unaryRule.parse t ts = .ok (operand, rest) →
      ∀ next ∈ rest.head?, next.kind.operator?.any Operator.isAssignment = false) :
    assignmentRule.parse t ts = conditionalRule.parse t ts := by
  by_cases ht : t.kind ∈ exprStart
  · have hconditional := LadderRule.conditional.body_eq_bind (exprWithin ts.length) t
    rw [assignmentRule, conditionalRule, exprRule_parse_of_mem ht, exprRule_parse_of_mem ht]
    rw [unaryRule, exprRule_parse_of_mem ht] at h
    change _ = LadderRule.conditional.body _ t ts
    rw [hconditional, assignment, Parse.bind_apply, Parse.bind_apply]
    cases hunary : unary (exprWithin ts.length) t ts with
    | error failure => rfl
    | ok result =>
        obtain ⟨operand, rest⟩ := result
        exact Parse.bind_ok (Parse.acceptIf_of_head (h operand rest hunary))
  · rw [assignmentRule, conditionalRule, exprRule_parse_of_not_mem ht, exprRule_parse_of_not_mem ht]

end Grammar

/-! ## Parsers -/

namespace Parser

open Grammar

variable {α β : Type}

theorem advance_add (m n : Nat) (p : Parser) : (p.advance m).advance n = p.advance (m + n) := by
  induction m generalizing p with
  | zero => rw [Nat.zero_add]; rfl
  | succ m ih =>
      rw [Nat.succ_add]
      exact ih p.take.2

theorem tokens_take (p : Parser) : p.take.2.stream.feed.tokens = p.stream.feed.tokens.tail := by
  obtain ⟨⟨⟨deliveries, trailing⟩, noticed⟩, last⟩ := p
  cases deliveries <;> rfl

theorem tokens_advance (n : Nat) (p : Parser) :
    (p.advance n).stream.feed.tokens = p.stream.feed.tokens.drop n := by
  induction n generalizing p with
  | zero => rfl
  | succ n ih =>
      rw [Parser.advance, ih, tokens_take, List.drop_tail]

theorem head?_tokens (p : Parser) : p.stream.feed.tokens.head? = p.peek.1 := by
  obtain ⟨⟨⟨deliveries, trailing⟩, noticed⟩, last⟩ := p
  cases deliveries <;> rfl

/-- Only what a grammar function does on the tokens at hand matters. -/
theorem run_congr {x y : Parse α} {p : Parser}
    (h : x p.stream.feed.tokens = y p.stream.feed.tokens) : p.run x = p.run y := by
  rw [Parser.run, Parser.run, h]

theorem run_ok {x : Parse α} {p : Parser} {a : α} {rest : List Token}
    (h : x p.stream.feed.tokens = .ok (a, rest)) :
    p.run x = (.ok a, p.advance (p.stream.feed.tokens.length - rest.length)) := by
  rw [Parser.run, h]

/-- Two grammar functions are applied one after the other, the second one to what the first one
leaves. -/
theorem run_bind {x : Parse α} {f : α → Parse β} {p : Parser}
    (hx : Agree x x p.stream.feed.tokens)
    (hf : ∀ a rest, x p.stream.feed.tokens = .ok (a, rest) → Agree (f a) (f a) rest) :
    p.run (x >>= f) =
      match p.run x with
      | (.ok a, q) => q.run (f a)
      | (.error e, q) => (.error e, q) := by
  have hleft := hx.left
  cases hresult : x p.stream.feed.tokens with
  | error failure => rw [Parser.run, Parser.run, Parse.bind_apply, hresult]
  | ok result =>
      obtain ⟨a, rest⟩ := result
      rw [hresult] at hleft
      have hrest : rest.length ≤ p.stream.feed.tokens.length := hleft.length_le
      have htokens : (p.advance (p.stream.feed.tokens.length - rest.length)).stream.feed.tokens =
          rest := by
        rw [tokens_advance]
        exact (List.suffix_iff_eq_drop.1 hleft).symm
      have hlater : (Parse.left (f a rest)).length ≤ rest.length :=
        (hf a rest hresult).left.length_le
      rw [run_ok hresult]
      dsimp only
      rw [Parser.run, Parse.bind_ok hresult, Parser.run, htokens]
      cases hfa : f a rest with
      | ok later =>
          rw [hfa, Parse.left] at hlater
          dsimp only
          rw [advance_add]
          congr 2
          omega
      | error failure =>
          rw [hfa, Parse.left] at hlater
          have hdeliveries (q : Parser) :
              q.stream.feed.deliveries.length = q.stream.feed.tokens.length := by
            simp [Feed.tokens]
          have hafter : (p.advance (p.stream.feed.tokens.length - rest.length)).afterFailure
              failure = p.afterFailure failure := by
            have hcount : p.stream.feed.tokens.length - rest.length +
                (rest.length - failure.rest.length) =
                  p.stream.feed.tokens.length - failure.rest.length := by omega
            rw [Parser.afterFailure, Parser.afterFailure, hdeliveries, hdeliveries, htokens,
              advance_add, hcount]
          dsimp only
          rw [hafter]

/-- Every rule of the ladder gives what a unary expression gives that is gone on behind, errors and
what is left of the stream included. So an assignment without an assignment operator behind its
first operand is parsed as a conditional. On a token that starts no expression all of them fail
alike. -/
theorem run_resume (p : Parser) (t : Token) :
    (∀ L : LadderRule, p.run (L.rule.parse t) =
      match p.run (unaryRule.parse t) with
      | (.ok operand, q) => q.run (L.resume operand)
      | (.error e, q) => (.error e, q)) ∧
    ((∀ operand q, p.run (unaryRule.parse t) = (.ok operand, q) →
        ∀ next ∈ q.peek.1, next.kind.operator?.any Operator.isAssignment = false) →
      p.run (assignmentRule.parse t) = p.run (conditionalRule.parse t)) := by
  have hunary := unaryRule_agree t p.stream.feed.tokens
  refine ⟨fun L => ?_, fun h => run_congr (assignmentRule_parse_apply ?_)⟩
  · have hresume : ∀ operand rest, unaryRule.parse t p.stream.feed.tokens = .ok (operand, rest) →
        Agree (L.resume operand) (L.resume operand) rest := by
      intro operand rest _
      have hagree := L.resume_agree operand (Nat.le_refl rest.length)
      exact ⟨rfl, hagree.eq ▸ hagree.left⟩
    rw [run_congr (L.parse_apply t p.stream.feed.tokens), run_bind hunary hresume]
    rcases p.run (unaryRule.parse t) with ⟨_ | _, q⟩ <;> rfl
  · intro operand rest hparse next hnext
    have hleft := hunary.left
    rw [hparse, Parse.left] at hleft
    refine h operand _ (run_ok hparse) next ?_
    rw [← head?_tokens, tokens_advance, ← List.suffix_iff_eq_drop.1 hleft]
    exact hnext

/-- Behind the `x` of `x * x ? x : x` there is no assignment, and behind that of `x = x` there
is. -/
theorem run_resume_choice :
    let x := Token.plain .identifier
    let choice := [Token.plain (.operator .times), x, .plain (.operator .question), x,
      .plain (.operator .colon), x]
    let p := Parser.ofFeed (.ofTokens choice)
    (∀ operand q, p.run (unaryRule.parse x) = (.ok operand, q) →
        ∀ next ∈ q.peek.1, next.kind.operator?.any Operator.isAssignment = false) ∧
      p.run (assignmentRule.parse x) = p.run (conditionalRule.parse x) ∧
      (∃ e q, p.run (assignmentRule.parse x) = (.ok e, q) ∧ q.stream.feed.tokens = []) := by
  intro x choice p
  have hunary : p.run (unaryRule.parse x) = (.ok (.variable .none x), p) := rfl
  have hnone : ∀ operand q, p.run (unaryRule.parse x) = (.ok operand, q) →
      ∀ next ∈ q.peek.1, next.kind.operator?.any Operator.isAssignment = false := by
    intro operand q hq next hnext
    obtain ⟨-, rfl⟩ := Prod.mk.inj (hunary.symm.trans hq)
    obtain rfl : Token.plain (.operator .times) = next := Option.some.inj hnext
    rfl
  exact ⟨hnone, (run_resume p x).2 hnone, _, _, rfl, rfl⟩

end Parser

end Essl
