import Essl.Proofs.Grammar.Reading
import Essl.Proofs.Grammar.Shape

/-!
# What the grammar of expressions reads

Whatever the grammar takes for an expression of a level is a well-levelled expression of that
level, token by token, and whatever it took before it failed is the start of one. The functions
that go on after an operand are about the operand and what they add to it.
-/

namespace Essl

open Grammar

/-- The tokens are a well-levelled expression of at least some rank. -/
def Expr.Covers (rank : Nat) (e : Expr) (w : List Token) : Prop :=
  rank ≤ e.rank ∧ e.WellLevelled ∧ Spells e.pieces w

/-- The tokens are well-levelled expressions without commas, each after a comma. -/
def Expr.CoverTail (es : List Expr) (w : List Token) : Prop :=
  Expr.ArgumentsLevelled es ∧ Spells (commaBefore (Expr.piecesOfEach es)) w

namespace Grammar

/-! ## The ladder -/

/-- The rank of what the levels of a ladder read. -/
def ladderRank (levels : List (List Operator)) : Nat := unaryRank - levels.length

theorem mem_row_iff : ∀ row < ladder.length, ∀ op : Operator,
    op ∈ ladder.getD row [] ↔ op.ladderRow? = some row := by
  intro row hrow op
  have h : ∀ op ∈ Operator.all, ∀ row < ladder.length,
      op ∈ ladder.getD row [] ↔ op.ladderRow? = some row := by decide
  exact h op op.mem_all row hrow

variable {ops : List Operator} {tighter : List (List Operator)}

/-- The operators of a row have the rank of the levels that begin with it. -/
theorem mem_iff_ladderRow? (h : ops :: tighter <:+ ladder) (op : Operator) :
    op ∈ ops ↔ op.ladderRow? = some (ladder.length - (tighter.length + 1)) := by
  obtain ⟨front, hfront⟩ := h
  have hlength : front.length + (tighter.length + 1) = ladder.length := by
    rw [← hfront, List.length_append, List.length_cons]
  have hrow : ladder.getD front.length [] = ops := by
    rw [← hfront]
    simp
  rw [← hrow, mem_row_iff _ (by omega), show ladder.length - (tighter.length + 1) = front.length by
    omega]

theorem ladderRank_cons (h : ops :: tighter <:+ ladder) :
    ladderRank (ops :: tighter) = ladder.length - (tighter.length + 1) + 3 ∧
      ladderRank tighter = ladderRank (ops :: tighter) + 1 := by
  have hlength := h.length_le
  simp only [ladderRank, unaryRank, List.length_cons] at *
  omega

end Grammar

namespace Expr

variable {e : Expr} {v w : List Token} {rank : Nat}

theorem Covers.mono (h : e.Covers rank w) {looser : Nat} (hle : looser ≤ rank) :
    e.Covers looser w := ⟨Nat.le_trans hle h.1, h.2⟩

end Expr

section

variable {inner : ExprParser} {t : Token} {ts v : List Token}

/-- A parser for inner expressions takes only well-levelled ones, or what starts one. -/
def ReadsInner (inner : ExprParser) : Prop :=
  ∀ level ts, Reads (nextExpr inner level) ts fun e w _ => e.Covers level.rank w

/-! ## Primary expressions -/

theorem reads_group (hinner : ReadsInner inner) (ht : t.kind = .operator .openParen) :
    Reads (group inner t) ts fun e w _ => e.Covers postfixRank (t :: w) := by
  refine (hinner .expression ts).bind fun e w _ _ he => ?_
  refine Reads.requireOperator_bind fun closing _ hclosing => Reads.pure ?_
  exact ⟨Nat.le_refl _, ⟨ht, he.2.1, hclosing⟩, .kept (he.2.2.append (.kept .nil))⟩

theorem reads_sizeIn (hinner : ReadsInner inner) :
    Reads (sizeIn inner) ts fun size w _ =>
      (∀ s ∈ size, s.WellFormed) ∧ Spells (sizePieces size) w := by
  refine Reads.accept_bind ?_ fun _ => Reads.pure ⟨by simp, .nil⟩
  intro opening rest _ hopening
  refine (hinner .conditional rest).bind fun e w _ _ he => ?_
  refine Reads.requireOperator_bind fun closing _ hclosing => Reads.pure ⟨?_, ?_⟩
  · intro s hs
    cases hs
    exact ⟨hopening, ⟨he.1, he.2.1⟩, hclosing⟩
  · exact .kept (he.2.2.append (.kept .nil))

/-- The tokens are arguments after commas and the parenthesis at the end. -/
theorem reads_argumentsTail (hinner : ReadsInner inner) (turns : Nat)
    (hturns : ts.length ≤ turns - 1) :
    Reads (argumentsTail inner turns) ts fun a w _ =>
      Expr.ArgumentsLevelled a.1 ∧ a.2.kind = .operator .closeParen ∧
        Spells (commaBefore (Expr.piecesOfEach a.1) ++ [.kept a.2]) w := by
  have hend : ∀ t : Token, t.kind = .operator .closeParen →
      Expr.ArgumentsLevelled [] ∧ t.kind = .operator .closeParen ∧
        Spells (commaBefore (Expr.piecesOfEach []) ++ [.kept t]) [t] :=
    fun t ht => ⟨trivial, ht, .kept .nil⟩
  induction turns generalizing ts with
  | zero =>
      exact Reads.fail_none [.operator .closeParen] (List.length_eq_zero_iff.1 (by omega))
        (a := ([], Token.plain (.operator .closeParen))) (hend _ rfl)
  | succ turns ih =>
      refine Reads.take_either rfl (fun _ => rfl) (by decide) ?_ ?_
      · intro comma rest _ hcomma
        refine (hinner .assignment rest).bind fun e w rest' _ he => ?_
        refine (ih (by omega)).bind fun a w' _ _ ha => Reads.pure ?_
        refine ⟨⟨he.1, he.2.1, ha.1⟩, ha.2.1, .separator hcomma ?_⟩
        simpa using he.2.2.append ha.2.2
      · exact fun closing _ _ hclosing => Reads.pure (hend closing hclosing)

/-- The pieces of a call after what is called. -/
def Grammar.CallTail.pieces (tail : CallTail) : List Piece :=
  .kept tail.opening :: (tail.void.toList.map .kept ++
    (commaBetween (Expr.piecesOfEach tail.arguments) ++ [.kept tail.closing]))

/-- The part of a call after what is called is as the grammar has it. -/
def Grammar.CallTail.WellFormed (tail : CallTail) : Prop :=
  tail.opening.kind = .operator .openParen ∧
    (∀ v ∈ tail.void, v.kind = .keyword (.type .void) ∧ tail.arguments = []) ∧
    Expr.ArgumentsLevelled tail.arguments ∧ tail.closing.kind = .operator .closeParen

theorem reads_callTail (hinner : ReadsInner inner) :
    Reads (callTail inner) ts fun tail w _ => tail.WellFormed ∧ Spells tail.pieces w := by
  refine Reads.requireOperator_bind fun opening rest hopening => ?_
  refine Reads.accept_bind ?_ fun _ => Reads.accept_bind ?_ fun _ => ?_
  · intro void rest _ hvoid
    refine Reads.requireOperator_bind fun closing _ hclosing => Reads.pure ⟨?_, ?_⟩
    · refine ⟨hopening, ?_, trivial, hclosing⟩
      intro u hu
      cases hu
      exact ⟨hvoid, rfl⟩
    · exact .kept (.kept (.kept .nil))
  · intro closing rest _ hclosing
    exact Reads.pure ⟨⟨hopening, by simp, trivial, hclosing⟩, .kept (.kept .nil)⟩
  · refine (hinner .assignment rest).bind fun e w rest' _ he => ?_
    refine Reads.remaining_bind ?_
    refine (reads_argumentsTail hinner (rest'.length + 1) (by omega)).bind
      fun a w' _ _ ha => Reads.pure ⟨?_, ?_⟩
    · exact ⟨hopening, by simp, ⟨he.1, he.2.1, ha.1⟩, ha.2.1⟩
    · refine .kept ?_
      simpa [commaBetween, Expr.piecesOfEach] using he.2.2.append ha.2.2

theorem reads_call (hinner : ReadsInner inner) (ht : t.kind ∈ nameStart) :
    Reads (call inner t) ts fun e w _ => e.Covers postfixRank (t :: w) := by
  refine (reads_callTail hinner).bind fun tail w _ _ htail => Reads.pure ?_
  rw [List.append_nil]
  exact ⟨Nat.le_refl _, ⟨ht, htail.1⟩, .kept htail.2⟩

/-- An array constructor whose size has been read. -/
theorem reads_arrayCall (hinner : ReadsInner inner) {size : ArraySize} (ht : t.kind ∈ nameStart)
    (hopening : size.opening.kind = .operator .openBracket)
    (hsize : size.size.FitsLevel (sizeLevel t))
    (hclosing : size.closing.kind = .operator .closeBracket)
    (hv : Spells (sizePieces (some size)) v) :
    Reads (arrayCall inner t size) ts fun e w _ => e.Covers postfixRank (t :: (v ++ w)) := by
  refine (reads_callTail hinner).bind fun tail w _ _ htail => Reads.pure ?_
  rw [List.append_nil]
  refine ⟨Nat.le_refl _, ⟨ht, hopening, hsize.1, hsize.2, hclosing, htail.1⟩, .kept ?_⟩
  simpa [sizePieces, CallTail.pieces] using hv.append htail.2

theorem reads_constructor (hinner : ReadsInner inner) (ht : t.kind ∈ nameStart)
    (hname : t.kind ≠ .identifier) :
    Reads (constructor inner t) ts fun e w _ => e.Covers postfixRank (t :: w) := by
  refine Reads.peekKind_bind ?_
  split
  · exact reads_call hinner ht
  · refine (reads_sizeIn hinner).bind fun size v rest _ hsize => ?_
    obtain ⟨hsize, hv⟩ := hsize
    cases size with
    | none =>
        rw [Spells.nil_iff.1 hv]
        exact reads_call hinner ht
    | some size =>
        obtain ⟨hopening, hlevel, hclosing⟩ := hsize size rfl
        refine reads_arrayCall hinner ht hopening ?_ hclosing hv
        rwa [sizeLevel, if_neg hname]
  · have hcall : (Expr.call .none t (.plain (.operator .openParen)) none []
        (.plain (.operator .closeParen))).Covers postfixRank
          [t, .plain (.operator .openParen), .plain (.operator .closeParen)] :=
      ⟨Nat.le_refl _, ⟨ht, rfl, by simp, trivial, rfl⟩, .kept (.kept (.kept .nil))⟩
    exact Reads.take_fail [.operator .openParen, .operator .closeParen] hcall

theorem covers_variable (ht : t.kind = .identifier) :
    (Expr.variable .none t).Covers postfixRank [t] := ⟨Nat.le_refl _, ht, .kept .nil⟩

theorem Expr.Covers.index {operand position : Expr} {opening closing : Token} {w : List Token}
    {rank : Nat} (h : operand.Covers postfixRank v)
    (hopening : opening.kind = .operator .openBracket) (hposition : position.Covers rank w)
    (hclosing : closing.kind = .operator .closeBracket) :
    (Expr.index .none operand opening position closing).Covers postfixRank
      (v ++ opening :: (w ++ [closing])) :=
  ⟨Nat.le_refl _, ⟨h.1, h.2.1, hopening, hposition.2.1, hclosing⟩,
    h.2.2.append (.kept (hposition.2.2.append (.kept .nil)))⟩

theorem reads_reference (hinner : ReadsInner inner) (ht : t.kind = .identifier) :
    Reads (reference inner t) ts fun e w _ => e.Covers postfixRank (t :: w) := by
  have hname : t.kind ∈ nameStart := by simp [ht, nameStart]
  refine Reads.peekKind_bind ?_
  split
  · exact reads_call hinner hname
  · refine Reads.requireOperator_bind fun opening rest hopening => ?_
    refine (hinner .expression rest).bind fun e w rest' _ he => ?_
    refine Reads.requireOperator_bind fun closing rest hclosing => Reads.peekKind_bind ?_
    split
    · have hsize : Spells (sizePieces (some ⟨opening, e, closing⟩)) (opening :: (w ++ [closing])) :=
        .kept (he.2.2.append (.kept .nil))
      have hlevel : e.FitsLevel (sizeLevel t) := by
        rw [sizeLevel, if_pos ht]
        exact ⟨he.1, he.2.1⟩
      refine (reads_arrayCall hinner hname hopening hlevel hclosing hsize).mono fun _ _ _ he => ?_
      simpa using he
    · exact Reads.pure ((covers_variable ht).index hopening he hclosing)
  · exact Reads.pure (covers_variable ht)

theorem reads_primary (hinner : ReadsInner inner) (ht : t.kind ∈ primaryStart) :
    Reads (primary inner t) ts fun e w _ => e.Covers postfixRank (t :: w) := by
  simp only [primary, List.contains_iff_mem]
  split
  · rename_i hliteral
    exact Reads.pure ⟨Nat.le_refl _, hliteral, .kept .nil⟩
  · rename_i hliteral
    split
    · rename_i hgroup
      exact reads_group hinner (by simpa [groupStart] using hgroup)
    · rename_i hgroup
      have hname : t.kind ∈ nameStart := by simpa [primaryStart, hliteral, hgroup] using ht
      rw [if_pos hname, functionOrVariable]
      split
      · exact reads_reference hinner (by assumption)
      · exact reads_constructor hinner hname (by assumption)

/-! ## Operators -/

theorem reads_postfixes (hinner : ReadsInner inner) (turns : Nat) {operand : Expr}
    (h : operand.Covers postfixRank v) :
    Reads (postfixes inner turns operand) ts fun e w _ => e.Covers postfixRank (v ++ w) := by
  induction turns generalizing operand v ts with
  | zero => exact Reads.pure (by simpa using h)
  | succ turns ih =>
      refine Reads.acceptOperator_bind ?_ (Reads.pure (by simpa using h))
      intro t rest op ht hop
      simp only [Token.isOperator_iff, ht, TokenKind.operator.injEq]
      split
      · subst op
        refine (hinner .expression rest).bind fun e w _ _ he => ?_
        refine Reads.requireOperator_bind fun closing rest hclosing => ?_
        refine (ih (h.index ht he hclosing)).mono fun _ _ _ he => ?_
        simpa using he
      · split
        · subst op
          refine Reads.requireKind_bind fun selector rest _ hselector => ?_
          have hfield : (Expr.field .none operand t selector).Covers postfixRank
              (v ++ [t, selector]) :=
            ⟨Nat.le_refl _, ⟨h.1, h.2.1, ht, hselector⟩,
              h.2.2.append (.kept (.kept .nil))⟩
          refine (ih hfield).mono fun _ _ _ he => ?_
          simpa using he
        · have hstep : (Expr.step .none operand t).Covers postfixRank (v ++ [t]) := by
            refine ⟨Nat.le_refl _, ⟨h.1, h.2.1, ?_⟩, h.2.2.append (.kept .nil)⟩
            simp_all
          refine (ih hstep).mono fun _ _ _ he => ?_
          simpa using he

theorem reads_unary (hinner : ReadsInner inner) (ht : t.kind ∈ exprStart) :
    Reads (unary inner t) ts fun e w _ => e.Covers unaryRank (t :: w) := by
  simp only [unary, List.any_eq_true, Token.isOperator_iff, List.contains_iff_mem]
  split
  · rename_i hop
    refine (hinner .unary ts).bind fun e w _ _ he => Reads.pure ?_
    rw [List.append_nil]
    exact ⟨Nat.le_refl _, ⟨hop, he.1, he.2.1⟩, .kept he.2.2⟩
  · rename_i hop
    have hprimary : t.kind ∈ primaryStart := by
      refine (List.mem_append.1 ht).resolve_right fun h => hop ?_
      obtain ⟨op, hmem, hkind⟩ := List.mem_map.1 h
      exact ⟨op, hmem, hkind.symm⟩
    rw [if_pos hprimary]
    refine (reads_primary hinner hprimary).bind fun e w rest _ he => Reads.remaining_bind ?_
    exact (reads_postfixes hinner rest.length he).mono fun _ _ _ h => h.mono (Nat.le_succ _)

theorem rejects_unary (ht : t.kind ∉ exprStart) : Rejects (unary inner t) t ts := by
  simp only [exprStart, List.mem_append, List.mem_map, not_or, not_exists, not_and] at ht
  have hop : ∀ op ∈ unaryOperators, t.kind ≠ .operator op := fun op h heq => ht.2 op h heq.symm
  rw [unary, if_neg (by simpa [Token.isOperator] using hop), if_neg (by simpa using ht.1)]
  exact rejects_fail _ t ts

theorem reads_foldOperators {ops : List Operator} {tighter : List (List Operator)}
    {operand : Token → Parse Expr} (hladder : ops :: tighter <:+ ladder)
    (hoperand : ∀ ts, Reads (Parse.next exprStart operand) ts fun e w _ =>
      e.Covers (ladderRank tighter) w)
    (turns : Nat) {left : Expr} (h : left.Covers (ladderRank (ops :: tighter)) v) :
    Reads (foldOperators ops operand turns left) ts fun e w _ =>
      e.Covers (ladderRank (ops :: tighter)) (v ++ w) := by
  obtain ⟨hrow, htighter⟩ := ladderRank_cons hladder
  induction turns generalizing left v ts with
  | zero => exact Reads.pure (by simpa using h)
  | succ turns ih =>
      refine Reads.acceptOperator_bind ?_ (Reads.pure (by simpa using h))
      intro t rest op ht hop
      refine (hoperand rest).bind fun e w rest' _ he => ?_
      have hrow? : t.ladderRow? = some (ladder.length - (tighter.length + 1)) := by
        rw [Token.ladderRow?, ht]
        exact (mem_iff_ladderRow? hladder op).1 hop
      have hbinary : (Expr.binary .none left t e).Covers (ladderRank (ops :: tighter))
          (v ++ t :: w) := by
        refine ⟨?_, ⟨_, hrow?, ?_, h.2.1, ?_, he.2.1⟩, h.2.2.append (.kept he.2.2)⟩
        · have hrank : (Expr.binary .none left t e).rank = ladderRank (ops :: tighter) := by
            rw [Expr.rank, hrow?, Option.getD_some, hrow]
          exact Nat.le_of_eq hrank.symm
        · rw [← hrow]
          exact h.1
        · rw [← hrow]
          exact Nat.lt_of_lt_of_le (by omega) he.1
      refine (ih hbinary).mono fun _ _ _ he => ?_
      simpa using he

/-- Levels of a ladder read well if what they start with is well read. -/
theorem next_of_starts {body : Token → Parse Expr} {rank : Nat}
    (haccept : ∀ t ts, t.kind ∈ exprStart →
      Reads (body t) ts fun e w _ => e.Covers rank (t :: w))
    (hreject : ∀ t ts, t.kind ∉ exprStart → Rejects (body t) t ts) (ts : List Token) :
    Reads (Parse.next exprStart body) ts fun e w _ => e.Covers rank w :=
  Reads.next exprStart (by decide) (fun t rest _ => haccept t rest) hreject

theorem rejects_binary (levels : List (List Operator)) (ht : t.kind ∉ exprStart) :
    Rejects (binary inner levels t) t ts := by
  induction levels with
  | nil => exact rejects_unary ht
  | cons ops tighter ih => exact ih.bind _

theorem reads_binary (hinner : ReadsInner inner) {levels : List (List Operator)}
    (hladder : levels <:+ ladder) (ht : t.kind ∈ exprStart) :
    Reads (binary inner levels t) ts fun e w _ => e.Covers (ladderRank levels) (t :: w) := by
  induction levels generalizing t ts with
  | nil => exact reads_unary hinner ht
  | cons ops tighter ih =>
      have hsuffix : tighter <:+ ladder := (List.suffix_cons ops tighter).trans hladder
      obtain ⟨-, htighter⟩ := ladderRank_cons hladder
      refine (ih hsuffix ht).bind fun e w rest _ he => Reads.remaining_bind ?_
      refine reads_foldOperators hladder ?_ rest.length (he.mono (by omega))
      exact next_of_starts (fun t ts ht => ih hsuffix ht) fun t ts => rejects_binary tighter

theorem reads_binaryResume (hinner : ReadsInner inner) {levels : List (List Operator)}
    (hladder : levels <:+ ladder) {operand : Expr} (h : operand.Covers unaryRank v) :
    Reads (binaryResume inner levels operand) ts fun e w _ =>
      e.Covers (ladderRank levels) (v ++ w) := by
  induction levels generalizing ts with
  | nil =>
      refine Reads.pure ?_
      rw [List.append_nil]
      exact h
  | cons ops tighter ih =>
      have hsuffix : tighter <:+ ladder := (List.suffix_cons ops tighter).trans hladder
      obtain ⟨-, htighter⟩ := ladderRank_cons hladder
      refine (ih hsuffix).bind fun e w rest _ he => Reads.remaining_bind ?_
      refine (reads_foldOperators hladder ?_ rest.length (he.mono (by omega))).mono ?_
      · exact next_of_starts (fun t ts ht => reads_binary hinner hsuffix ht)
          fun t ts => rejects_binary tighter
      · intro e' w' _ he'
        simpa using he'

/-! ## Choices, assignments and lists -/

theorem reads_ternaryTail (hinner : ReadsInner inner) {condition : Expr}
    (h : condition.Covers 3 v) :
    Reads (ternaryTail inner condition) ts fun e w _ =>
      e.Covers Level.conditional.rank (v ++ w) := by
  refine Reads.accept_bind ?_ fun _ => Reads.pure ?_
  · intro question rest _ hquestion
    refine (hinner .expression rest).bind fun e w rest' _ he => ?_
    refine Reads.requireOperator_bind fun colon rest'' hcolon => ?_
    refine (hinner .assignment rest'').bind fun e' w' _ _ he' => Reads.pure ?_
    rw [List.append_nil]
    exact ⟨Nat.le_refl _, ⟨h.1, h.2.1, hquestion, he.2.1, hcolon, he'.1, he'.2.1⟩,
      h.2.2.append (.kept (he.2.2.append (.kept he'.2.2)))⟩
  · rw [List.append_nil]
    exact h.mono (by decide)

theorem reads_conditional (hinner : ReadsInner inner) (ht : t.kind ∈ exprStart) :
    Reads (conditional inner t) ts fun e w _ => e.Covers Level.conditional.rank (t :: w) :=
  (reads_binary hinner (List.suffix_refl ladder) ht).bind fun _ _ _ _ he =>
    reads_ternaryTail hinner he

theorem reads_conditionalResume (hinner : ReadsInner inner) {operand : Expr}
    (h : operand.Covers unaryRank v) :
    Reads (conditionalResume inner operand) ts fun e w _ =>
      e.Covers Level.conditional.rank (v ++ w) := by
  refine (reads_binaryResume hinner (List.suffix_refl ladder) h).bind fun e w rest _ he => ?_
  refine (reads_ternaryTail hinner he).mono ?_
  intro e' w' _ he'
  simpa using he'

theorem reads_assignment (hinner : ReadsInner inner) (ht : t.kind ∈ exprStart) :
    Reads (assignment inner t) ts fun e w _ => e.Covers Level.assignment.rank (t :: w) := by
  refine (reads_unary hinner ht).bind fun left v rest _ hleft => ?_
  refine Reads.acceptIf_bind ?_ fun _ => ?_
  · intro op rest _ hop
    refine (hinner .assignment rest).bind fun e w _ _ he => Reads.pure ?_
    rw [List.append_nil]
    exact ⟨Nat.le_refl _, ⟨hleft.1, hleft.2.1, hop, he.1, he.2.1⟩, hleft.2.2.append (.kept he.2.2)⟩
  · exact (reads_conditionalResume hinner hleft).mono fun _ _ _ he => he.mono (by decide)

theorem reads_commaTail (hinner : ReadsInner inner) (turns : Nat) :
    Reads (commaTail inner turns) ts fun es w _ => Expr.CoverTail es w := by
  induction turns generalizing ts with
  | zero => exact Reads.pure ⟨trivial, .nil⟩
  | succ turns ih =>
      refine Reads.accept_bind ?_ fun _ => Reads.pure ⟨trivial, .nil⟩
      intro comma rest _ hcomma
      refine (hinner .assignment rest).bind fun e w rest' _ he => ?_
      refine ih.bind fun es w' _ _ hes => Reads.pure ?_
      rw [List.append_nil]
      exact ⟨⟨he.1, he.2.1, hes.1⟩, .separator hcomma (he.2.2.append hes.2)⟩

theorem reads_expression (hinner : ReadsInner inner) (ht : t.kind ∈ exprStart) :
    Reads (expression inner t) ts fun e w _ => e.Covers Level.expression.rank (t :: w) := by
  refine (reads_assignment hinner ht).bind fun e v rest _ he => Reads.remaining_bind ?_
  refine (reads_commaTail hinner rest.length).bind fun es w _ _ hes => ?_
  cases es with
  | nil =>
      rw [Spells.nil_iff.1 hes.2]
      refine Reads.pure ?_
      rw [List.append_nil, List.append_nil]
      exact he.mono (Nat.zero_le _)
  | cons e' es =>
      refine Reads.pure ?_
      rw [List.append_nil]
      exact ⟨Nat.zero_le _, ⟨by simp, he.1, he.2.1, hes.1⟩, he.2.2.append hes.2⟩

theorem rejects_exprOf (level : Level) (ht : t.kind ∉ exprStart) :
    Rejects (exprOf inner level t) t ts := by
  cases level with
  | unary => exact rejects_unary ht
  | conditional => exact (rejects_binary ladder ht).bind _
  | assignment => exact (rejects_unary ht).bind _
  | expression => exact ((rejects_unary ht).bind _).bind _

theorem reads_exprOf (hinner : ReadsInner inner) (level : Level) (ht : t.kind ∈ exprStart) :
    Reads (exprOf inner level t) ts fun e w _ => e.Covers level.rank (t :: w) := by
  cases level with
  | unary => exact reads_unary hinner ht
  | conditional => exact reads_conditional hinner ht
  | assignment => exact reads_assignment hinner ht
  | expression => exact reads_expression hinner ht

/-! ## Rules -/

theorem readsInner_exprWithin (depth : Nat) : ReadsInner (exprWithin depth) := by
  induction depth with
  | zero =>
      intro level ts
      -- Nothing is taken here, and a number makes an expression of any level.
      have hone : (Expr.literal .none (.plain .intConstant)).Covers level.rank
          [.plain .intConstant] :=
        ⟨by cases level <;> decide, show TokenKind.intConstant ∈ literalStart by decide, .kept .nil⟩
      cases ts with
      | nil => exact Reads.of_error rfl ⟨[], rfl, fun _ => rfl, _, [.intConstant], hone⟩
      | cons t rest => exact Reads.of_error rfl ⟨[], rfl, by simp, _, [.intConstant], hone⟩
  | succ depth ih =>
      intro level ts
      exact next_of_starts (fun t ts => reads_exprOf ih level) (fun t ts => rejects_exprOf level) ts

theorem reads_withInner {α : Type} {body : ExprParser → Parse α}
    {Good : α → List Token → List Token → Prop}
    (h : ∀ inner, ReadsInner inner → Reads (body inner) ts Good) :
    Reads (withInner body) ts Good :=
  Reads.congr rfl (h _ (readsInner_exprWithin ts.length))

theorem reads_expressionRule_body (ht : t.kind ∈ exprStart) :
    Reads (expressionRule.body t) ts fun e w _ => e.Covers Level.expression.rank (t :: w) :=
  reads_withInner fun _ hinner => reads_expression hinner ht

theorem reads_expressionRule : Reads expressionRule.next ts fun e w _ =>
    e.Covers Level.expression.rank w :=
  Reads.rule_next (by decide) fun _ _ => reads_expressionRule_body

theorem reads_assignmentRule : Reads assignmentRule.next ts fun e w _ =>
    e.Covers Level.assignment.rank w :=
  Reads.rule_next (by decide) fun _ _ ht =>
    reads_withInner fun _ hinner => reads_assignment hinner ht

theorem reads_arraySize : Reads arraySize ts fun size w _ =>
    (∀ s ∈ size, s.WellFormed) ∧ Spells (sizePieces size) w :=
  reads_withInner fun _ => reads_sizeIn

end

end Essl
