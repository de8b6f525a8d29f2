import Essl.Proofs.Grammar.ExprReading
import Essl.Proofs.Tree.Erasure

/-!
# Expressions are read back

The tokens of a well-levelled expression, with a token after them that cannot go on after it, are
read as that expression. Left operands are where care is needed: what is read of them is the start
of a loop over the operators that follow, so the statements about them are about that loop.
-/

namespace Essl

open Grammar

/-! ## What comes first and what comes after -/

namespace Stops

variable {rank : Nat} {t : Token} {rest : List Token}

theorem mono {tighter : Nat} (h : Stops rank rest) (hle : rank ≤ tighter) :
    Stops tighter rest :=
  fun t ht hold hhold => Nat.lt_of_lt_of_le (h t ht hold hhold) hle

theorem cons {hold : Nat} (ht : t.hold? = some hold) (hlt : hold < rank) :
    Stops rank (t :: rest) := by
  intro u hu hold' hhold
  cases hu
  rw [ht] at hhold
  cases hhold
  exact hlt

theorem of_none (ht : t.hold? = none) : Stops rank (t :: rest) := by
  intro u hu hold hhold
  cases hu
  simp [ht] at hhold

theorem ne {op : Operator} {hold : Nat} (h : Stops rank rest)
    (hop : ∀ t : Token, t.kind = .operator op → t.hold? = some hold) (hle : rank ≤ hold) :
    ∀ t ∈ rest.head?, t.kind ≠ .operator op := by
  intro t ht hkind
  have hlt := h t ht hold (hop t hkind)
  omega

end Stops

namespace Token

variable {t : Token} {op : Operator}

/-- Only the kind of a token says how it holds on. -/
theorem hold?_of_kind {kind : TokenKind} (ht : t.kind = kind) :
    t.hold? = (Token.plain kind).hold? := by
  rw [Token.hold?, ht]
  rfl

theorem hold?_closing (ht : t.kind = .operator op)
    (hop : op ∈ [Operator.closeParen, .closeBracket, .colon, .semicolon]) : t.hold? = none := by
  have h : ∀ op ∈ [Operator.closeParen, .closeBracket, .colon, .semicolon],
      (Token.plain (.operator op)).hold? = none := by decide
  rw [hold?_of_kind ht, h op hop]

theorem hold?_postfix (ht : t.kind = .operator op)
    (hop : op ∈ [Operator.openBracket, .dot, .increment, .decrement, .openParen]) :
    t.hold? = some postfixRank := by
  have h : ∀ op ∈ [Operator.openBracket, .dot, .increment, .decrement, .openParen],
      (Token.plain (.operator op)).hold? = some postfixRank := by decide
  rw [hold?_of_kind ht, h op hop]

theorem hold?_comma (ht : t.kind = .operator .comma) : t.hold? = some 0 := hold?_of_kind ht

theorem hold?_question (ht : t.kind = .operator .question) : t.hold? = some 2 :=
  hold?_of_kind ht

theorem operator?_eq_some {kind : TokenKind} : kind.operator? = some op ↔ kind = .operator op := by
  cases kind <;> simp [TokenKind.operator?]

theorem hold?_assignment (ht : t.kind.operator?.any Operator.isAssignment) :
    t.hold? = some 1 := by
  have h : ∀ op ∈ Operator.all, op.isAssignment →
      (Token.plain (.operator op)).hold? = some 1 := by decide
  obtain ⟨op, hop, hassign⟩ := (Option.any_eq_true ..).1 ht
  rw [hold?_of_kind (operator?_eq_some.1 hop), h op op.mem_all hassign]

theorem ladderRow?_eq_some {row : Nat} :
    t.ladderRow? = some row ↔ ∃ op, t.kind = .operator op ∧ op.ladderRow? = some row := by
  simp only [ladderRow?, Option.bind_eq_some_iff, operator?_eq_some]

theorem hold?_ladder {row : Nat} (ht : t.ladderRow? = some row) : t.hold? = some (row + 3) := by
  have h : ∀ op ∈ Operator.all, op.ladderRow? ≠ none →
      (Token.plain (.operator op)).hold? = op.ladderRow?.map (· + 3) := by decide
  obtain ⟨op, hkind, hrow⟩ := ladderRow?_eq_some.1 ht
  rw [hold?_of_kind hkind, h op op.mem_all (by simp [hrow]), hrow]
  rfl

theorem ladderRow?_lt {row : Nat} (ht : t.ladderRow? = some row) : row < ladder.length := by
  obtain ⟨op, -, hrow⟩ := ladderRow?_eq_some.1 ht
  exact (List.findIdx?_eq_some_iff_getElem.1 hrow).1

end Token

/-- Every expression starts with a token that the grammar looks for. -/
theorem Expr.exists_first : ∀ (e : Expr) {w : List Token}, e.WellLevelled → Spells e.pieces w →
    ∃ t v, w = t :: v ∧ t.kind ∈ exprStart
  | .assignment _ left op right, w, h, hw =>
      hw.first_append (exists_first left h.2.1)
  | .ternary _ condition question whenTrue colon whenFalse, w, h, hw =>
      hw.first_append (exists_first condition h.2.1)
  | .binary _ left op right, w, h, hw => by
      obtain ⟨row, -, -, hleft, -⟩ := h
      exact hw.first_append (exists_first left hleft)
  | .unary _ op operand, w, h, hw => by
      obtain ⟨v, rfl, -⟩ := Spells.kept_cons_iff.1 hw
      obtain ⟨⟨o, ho, hop⟩, -⟩ := h
      refine ⟨op, v, rfl, List.mem_append_right _ ?_⟩
      rw [hop]
      exact List.mem_map_of_mem ho
  | .step _ operand op, w, h, hw =>
      hw.first_append (exists_first operand h.2.1)
  | .literal _ token, w, h, hw => by
      obtain ⟨v, rfl, -⟩ := Spells.kept_cons_iff.1 hw
      exact ⟨token, v, rfl, List.mem_append_left _ (List.mem_append_left _
        (List.mem_append_left _ h))⟩
  | .group _ opening inner closing, w, h, hw => by
      obtain ⟨v, rfl, -⟩ := Spells.kept_cons_iff.1 hw
      exact ⟨opening, v, rfl, by rw [h.1]; decide⟩
  | .variable _ name, w, h, hw => by
      obtain ⟨v, rfl, -⟩ := Spells.kept_cons_iff.1 hw
      exact ⟨name, v, rfl, by rw [show name.kind = _ from h]; decide⟩
  | .call _ callee .., w, h, hw => by
      obtain ⟨v, rfl, -⟩ := Spells.kept_cons_iff.1 hw
      exact ⟨callee, v, rfl, List.mem_append_left _ (List.mem_append_right _ h.1)⟩
  | .arrayCall _ callee .., w, h, hw => by
      obtain ⟨v, rfl, -⟩ := Spells.kept_cons_iff.1 hw
      exact ⟨callee, v, rfl, List.mem_append_left _ (List.mem_append_right _ h.1)⟩
  | .field _ operand dot selector, w, h, hw =>
      hw.first_append (exists_first operand h.2.1)
  | .index _ operand opening position closing, w, h, hw =>
      hw.first_append (exists_first operand h.2.1)
  | .list _ (e :: es), w, h, hw =>
      hw.first_append (exists_first e h.2.2.1)
  | .list _ [], w, h, hw => absurd h.1 (by decide)

theorem Expr.Covers.exists_first {e : Expr} {rank : Nat} {w : List Token} (h : e.Covers rank w) :
    ∃ t v, w = t :: v ∧ t.kind ∈ exprStart := e.exists_first h.2.1 h.2.2

theorem first_of_cons {P : Token → Prop} {t : Token} {w : List Token}
    (h : ∃ first v, t :: w = first :: v ∧ P first) : P t := by
  obtain ⟨first, v, heq, hfirst⟩ := h
  rwa [(List.cons.inj heq).1]

/-- What starts with one of some kinds starts with no other. -/
theorem head_of_first {kinds : List TokenKind} {P : TokenKind → Prop} {w : List Token}
    (h : ∃ t v, w = t :: v ∧ t.kind ∈ kinds) (hkinds : ∀ kind ∈ kinds, P kind)
    (rest : List Token) : ∀ t ∈ (w ++ rest).head?, P t.kind := by
  obtain ⟨t, v, rfl, ht⟩ := h
  intro u hu
  cases hu
  exact hkinds t.kind ht

theorem head_ne_of_first {kinds : List TokenKind} {kind : TokenKind} {w : List Token}
    (h : ∃ t v, w = t :: v ∧ t.kind ∈ kinds) (hkind : kind ∉ kinds) (rest : List Token) :
    ∀ t ∈ (w ++ rest).head?, t.kind ≠ kind :=
  head_of_first (P := fun k => k ≠ kind) h (fun _ hmem heq => hkind (heq ▸ hmem)) rest

theorem Expr.Covers.head_ne {e : Expr} {rank : Nat} {w : List Token} (h : e.Covers rank w)
    {kind : TokenKind} (hkind : kind ∉ exprStart) (rest : List Token) :
    ∀ t ∈ (w ++ rest).head?, t.kind ≠ kind := head_ne_of_first h.exists_first hkind rest

section

variable {inner : ExprParser} {n : Nat} {w rest : List Token}

/-- What may come after an expression of a level. -/
def Grammar.Level.stop : Level → Nat
  | .expression => 0
  | .assignment | .conditional => 1
  | .unary => unaryRank

/-- Expressions of at most so many tokens are read back. -/
def ReadsBack (inner : ExprParser) (n : Nat) : Prop :=
  ∀ (level : Level) (e : Expr) (w rest : List Token), e.Covers level.rank w → w.length ≤ n →
    Stops level.stop rest → nextExpr inner level (w ++ rest) = .ok (e.erase, rest)

/-! ## Calls -/

theorem Expr.CoverTail.stops {es : List Expr} (h : Expr.CoverTail es w) (hrest : Stops 1 rest) :
    Stops 1 (w ++ rest) := by
  cases es with
  | nil =>
      rw [Spells.nil_iff.1 h.2]
      exact hrest
  | cons e es =>
      obtain ⟨comma, v, rfl, hcomma, -⟩ := Spells.separator_cons_iff.1 h.2
      exact Stops.cons (Token.hold?_comma hcomma) (by decide)

/-- An expression and those after commas after it. -/
theorem Expr.coverTail_split {e : Expr} {es : List Expr}
    (h : Expr.ArgumentsLevelled (e :: es))
    (hw : Spells (e.pieces ++ commaBefore (Expr.piecesOfEach es)) w) :
    ∃ u v, w = u ++ v ∧ e.Covers Level.assignment.rank u ∧ Expr.CoverTail es v := by
  obtain ⟨u, v, rfl, hu, hv⟩ := Spells.append_iff.1 hw
  exact ⟨u, v, rfl, ⟨h.1, h.2.1, hu⟩, h.2.2, hv⟩

theorem argumentsTail_apply (hinner : ReadsBack inner n) {closing : Token}
    (hclosing : closing.kind = .operator .closeParen) :
    ∀ (es : List Expr) (turns : Nat) (w : List Token), Expr.CoverTail es w → w.length ≤ n →
      w.length < turns →
      argumentsTail inner turns (w ++ closing :: rest) = .ok ((Expr.eraseAll es, closing), rest)
  | _, 0, w, _, _, hturns => absurd hturns (Nat.not_lt_zero _)
  | [], turns + 1, w, hes, _, _ => by
      rw [Spells.nil_iff.1 hes.2, List.nil_append, argumentsTail, Parse.bind_ok (Parse.take_cons ..)]
      have hcomma : ¬ closing.isOperator .comma := by simp [Token.isOperator, hclosing]
      simp only [if_neg hcomma, if_pos (Token.isOperator_iff.2 hclosing)]
      rfl
  | e :: es, turns + 1, w, hes, hlen, hturns => by
      obtain ⟨comma, v, rfl, hkind, hv⟩ := Spells.separator_cons_iff.1 hes.2
      have hcomma : comma.isOperator .comma := Token.isOperator_iff.2 hkind
      obtain ⟨u, v, rfl, hu, htail⟩ := Expr.coverTail_split hes.1 hv
      simp only [List.length_cons, List.length_append] at hlen hturns
      have hstops : Stops 1 (v ++ closing :: rest) :=
        htail.stops (Stops.of_none (Token.hold?_closing hclosing (by decide)))
      have hread := hinner .assignment e u (v ++ closing :: rest) hu (by omega) hstops
      have hmore := argumentsTail_apply hinner hclosing es turns v htail (by omega) (by omega)
      rw [List.cons_append, List.append_assoc, argumentsTail, Parse.bind_ok (Parse.take_cons ..)]
      simp only [if_pos hcomma]
      rw [Parse.bind_ok hread, Parse.bind_ok hmore]
      rfl

/-- The call without what is known of its arguments. -/
def Grammar.CallTail.erase (tail : CallTail) : CallTail :=
  { tail with arguments := Expr.eraseAll tail.arguments }

theorem callTail_apply (hinner : ReadsBack inner n) {tail : CallTail} (h : tail.WellFormed)
    (hw : Spells tail.pieces w) (hlen : w.length ≤ n) :
    callTail inner (w ++ rest) = .ok (tail.erase, rest) := by
  obtain ⟨opening, void, arguments, closing⟩ := tail
  simp only [CallTail.WellFormed, CallTail.pieces] at h hw
  obtain ⟨hopening, hvoid, harguments, hclosing⟩ := h
  obtain ⟨v, rfl, hv⟩ := Spells.kept_cons_iff.1 hw
  simp only [List.length_cons] at hlen
  rw [List.cons_append, callTail, Parse.bind_ok (Parse.requireOperator_cons hopening _)]
  cases void with
  | some void =>
      obtain ⟨hkind, rfl⟩ := hvoid void rfl
      obtain ⟨v, rfl, hend⟩ := Spells.kept_cons_iff.1 hv
      obtain ⟨v, rfl, hnil⟩ := Spells.kept_cons_iff.1 hend
      rw [Spells.nil_iff.1 hnil, List.cons_append, Parse.bind_ok (Parse.accept_cons hkind _)]
      simp only [List.cons_append, List.nil_append]
      rw [Parse.bind_ok (Parse.requireOperator_cons hclosing _)]
      rfl
  | none =>
      cases arguments with
      | nil =>
          obtain ⟨v, rfl, hnil⟩ := Spells.kept_cons_iff.1 hv
          rw [Spells.nil_iff.1 hnil, List.cons_append,
            Parse.bind_ok (Parse.accept_of_head (by simp [hclosing]))]
          simp only []
          rw [Parse.bind_ok (Parse.accept_cons hclosing _)]
          rfl
      | cons e es =>
          have hsplit : Spells ((e.pieces ++ commaBefore (Expr.piecesOfEach es)) ++ [.kept closing])
              v := by
            simpa [commaBetween, Expr.piecesOfEach] using hv
          obtain ⟨u, rfl, hu⟩ := Spells.append_kept_iff.1 hsplit
          obtain ⟨u, v, rfl, hfirst, htail⟩ := Expr.coverTail_split harguments hu
          simp only [List.length_append, List.length_singleton] at hlen
          have hstops : Stops 1 (v ++ closing :: rest) :=
            htail.stops (Stops.of_none (Token.hold?_closing hclosing (by decide)))
          have hread := hinner .assignment e u (v ++ closing :: rest) hfirst (by omega) hstops
          have hmore : argumentsTail inner _ (v ++ closing :: rest) = .ok (_, rest) :=
            argumentsTail_apply hinner hclosing es ((v ++ closing :: rest).length + 1) v htail
              (by omega) (Parse.length_lt_turns v _)
          have happend : u ++ v ++ [closing] ++ rest = u ++ (v ++ closing :: rest) := by simp
          rw [happend, Parse.bind_ok (Parse.accept_of_head (hfirst.head_ne (by decide) _))]
          simp only []
          rw [Parse.bind_ok (Parse.accept_of_head (hfirst.head_ne (by decide) _))]
          simp only []
          rw [Parse.bind_ok hread, Parse.bind_ok (Parse.remaining_apply _), Parse.bind_ok hmore]
          rfl

/-! ## Primary expressions -/

theorem head_openParen {tail : CallTail} (h : tail.WellFormed) (hw : Spells tail.pieces w)
    (rest : List Token) : (w ++ rest).head?.map Token.kind = some (.operator .openParen) := by
  obtain ⟨v, rfl, -⟩ := Spells.kept_cons_iff.1 hw
  simp [h.1]

theorem call_apply (hinner : ReadsBack inner n) (callee : Token) {tail : CallTail}
    (h : tail.WellFormed) (hw : Spells tail.pieces w) (hlen : w.length ≤ n) :
    call inner callee (w ++ rest) =
      .ok (.call .none callee tail.opening tail.void (Expr.eraseAll tail.arguments) tail.closing,
        rest) := by
  rw [call, Parse.bind_ok (callTail_apply hinner h hw hlen)]
  rfl

theorem arrayCall_apply (hinner : ReadsBack inner n) (callee : Token) (size : ArraySize)
    {tail : CallTail} (h : tail.WellFormed) (hw : Spells tail.pieces w) (hlen : w.length ≤ n) :
    arrayCall inner callee size (w ++ rest) =
      .ok (.arrayCall .none callee size.opening size.size size.closing tail.opening tail.void
        (Expr.eraseAll tail.arguments) tail.closing, rest) := by
  rw [arrayCall, Parse.bind_ok (callTail_apply hinner h hw hlen)]
  rfl

/-- A call by name or of a constructor. -/
theorem functionOrVariable_call (hinner : ReadsBack inner n) {callee : Token} {tail : CallTail}
    (h : tail.WellFormed) (hw : Spells tail.pieces w) (hlen : w.length ≤ n) :
    functionOrVariable inner callee (w ++ rest) =
      .ok (.call .none callee tail.opening tail.void (Expr.eraseAll tail.arguments) tail.closing,
        rest) := by
  have hhead := head_openParen h hw rest
  rw [functionOrVariable]
  split
  · rw [reference, Parse.bind_ok (Parse.peekKind_apply _), hhead]
    exact call_apply hinner callee h hw hlen
  · rw [constructor, Parse.bind_ok (Parse.peekKind_apply _), hhead]
    exact call_apply hinner callee h hw hlen

/-- `[ position ]` after a name. -/
theorem reference_bracket (hinner : ReadsBack inner n) (name : Token) {position : Expr}
    {opening closing : Token} (hopening : opening.kind = .operator .openBracket)
    (hposition : position.Covers 0 w) (hclosing : closing.kind = .operator .closeBracket)
    (hlen : w.length ≤ n) :
    reference inner name (opening :: (w ++ closing :: rest)) =
      if rest.head?.map Token.kind = some (.operator .openParen) then
        arrayCall inner name ⟨opening, position.erase, closing⟩ rest
      else .ok (.index .none (.variable .none name) opening position.erase closing, rest) := by
  have hread := hinner .expression position w (closing :: rest) hposition hlen
    (Stops.of_none (Token.hold?_closing hclosing (by decide)))
  rw [reference, Parse.bind_ok (Parse.peekKind_apply _)]
  simp only [List.head?_cons, Option.map_some, hopening]
  rw [Parse.bind_ok (Parse.requireOperator_cons hopening _), Parse.bind_ok hread,
    Parse.bind_ok (Parse.requireOperator_cons hclosing _), Parse.bind_ok (Parse.peekKind_apply _)]
  split <;> rfl

theorem reference_variable (name : Token)
    (hparen : ∀ t ∈ rest.head?, t.kind ≠ .operator .openParen)
    (hbracket : ∀ t ∈ rest.head?, t.kind ≠ .operator .openBracket) :
    reference inner name rest = .ok (.variable .none name, rest) := by
  cases rest with
  | nil => rfl
  | cons t rest =>
      have hparen : t.kind ≠ .operator .openParen := hparen t rfl
      have hbracket : t.kind ≠ .operator .openBracket := hbracket t rfl
      rw [reference, Parse.bind_ok (Parse.peekKind_apply _)]
      simp only [List.head?_cons, Option.map_some]
      refine congrFun (?_ : _ = (pure (.variable .none name) : Parse Expr)) (t :: rest)
      split
      · rename_i hkind
        exact absurd (Option.some.inj hkind) hparen
      · rename_i hkind
        exact absurd (Option.some.inj hkind) hbracket
      · rfl

theorem sizeIn_apply (hinner : ReadsBack inner n) {size : ArraySize} (h : size.WellFormed)
    (hw : Spells (sizePieces (some size)) w) (hlen : w.length ≤ n) :
    sizeIn inner (w ++ rest) = .ok (some size.erase, rest) := by
  obtain ⟨opening, size, closing⟩ := size
  obtain ⟨hopening, hsize, hclosing⟩ := h
  obtain ⟨v, rfl, hv⟩ := Spells.kept_cons_iff.1 hw
  obtain ⟨u, rfl, hu⟩ := Spells.append_kept_iff.1 hv
  simp only [List.length_cons, List.length_append] at hlen
  have hread := hinner .conditional size u (closing :: rest) ⟨hsize.1, hsize.2, hu⟩ (by omega)
    (Stops.of_none (Token.hold?_closing hclosing (by decide)))
  have happend : opening :: (u ++ [closing]) ++ rest = opening :: (u ++ closing :: rest) := by simp
  rw [happend, sizeIn, Parse.bind_ok (Parse.accept_cons hopening _)]
  simp only []
  rw [Parse.bind_ok hread, Parse.bind_ok (Parse.requireOperator_cons hclosing _)]
  rfl

theorem sizeIn_none (hrest : ∀ t ∈ rest.head?, t.kind ≠ .operator .openBracket) :
    sizeIn inner rest = .ok (none, rest) := by
  rw [sizeIn, Parse.bind_ok (Parse.accept_of_head hrest)]
  rfl

/-- An array constructor by name or of a built-in type. -/
theorem functionOrVariable_arrayCall (hinner : ReadsBack inner n) {callee : Token}
    {size : ArraySize} {tail : CallTail} {u v : List Token}
    (hopening : size.opening.kind = .operator .openBracket)
    (hsize : size.size.FitsLevel (sizeLevel callee))
    (hclosing : size.closing.kind = .operator .closeBracket)
    (hu : Spells (sizePieces (some size)) u)
    (h : tail.WellFormed) (hv : Spells tail.pieces v) (hlen : u.length + v.length ≤ n) :
    functionOrVariable inner callee (u ++ (v ++ rest)) =
      .ok (.arrayCall .none callee size.opening size.size.erase size.closing tail.opening
        tail.void (Expr.eraseAll tail.arguments) tail.closing, rest) := by
  have hhead := head_openParen h hv rest
  rw [sizeLevel] at hsize
  rw [functionOrVariable]
  split
  · rename_i hname
    obtain ⟨opening, size, closing⟩ := size
    rw [if_pos hname] at hsize
    obtain ⟨_, rfl, hbrackets⟩ := Spells.kept_cons_iff.1 hu
    obtain ⟨u, rfl, hposition⟩ := Spells.append_kept_iff.1 hbrackets
    simp only [List.length_cons, List.length_append] at hlen
    have happend : opening :: (u ++ [closing]) ++ (v ++ rest) =
        opening :: (u ++ closing :: (v ++ rest)) := by simp
    rw [happend, reference_bracket hinner callee hopening ⟨hsize.1, hsize.2, hposition⟩ hclosing
      (by omega), if_pos hhead]
    exact arrayCall_apply hinner callee _ h hv (by omega)
  · rename_i hname
    rw [if_neg hname] at hsize
    have hbracket : (u ++ (v ++ rest)).head?.map Token.kind = some (.operator .openBracket) := by
      obtain ⟨u, rfl, -⟩ := Spells.kept_cons_iff.1 hu
      simp [hopening]
    rw [constructor, Parse.bind_ok (Parse.peekKind_apply _), hbracket]
    simp only []
    rw [Parse.bind_ok (sizeIn_apply hinner ⟨hopening, hsize, hclosing⟩ hu (by omega))]
    exact arrayCall_apply hinner callee _ h hv (by omega)

/-! ## Operators after an operand -/

theorem unary_of_primary {t : Token} {ts : List Token} {e : Expr} (ht : t.kind ∈ primaryStart)
    (h : primary inner t ts = .ok (e, rest)) :
    Parse.next exprStart (unary inner) (t :: ts) = postfixes inner rest.length e rest := by
  have hop : ¬ unaryOperators.any (t.isOperator ·) := by
    have hdisjoint : ∀ op ∈ unaryOperators, TokenKind.operator op ∉ primaryStart := by decide
    simp only [List.any_eq_true, Token.isOperator_iff, not_exists, not_and]
    exact fun op hop hkind => hdisjoint op hop (hkind ▸ ht)
  rw [Parse.next_cons, unary, if_neg hop, if_pos (by simpa using ht), Parse.bind_ok h,
    Parse.bind_ok (Parse.remaining_apply _)]

theorem primary_name {t : Token} (ht : t.kind ∈ nameStart) :
    primary inner t = functionOrVariable inner t := by
  have hdisjoint : ∀ kind ∈ nameStart, kind ∉ literalStart ∧ kind ∉ groupStart := by decide
  obtain ⟨hliteral, hgroup⟩ := hdisjoint _ ht
  rw [primary, if_neg (by simpa using hliteral), if_neg (by simpa using hgroup),
    if_pos (by simpa using ht)]

theorem unary_of_name {t : Token} {ts : List Token} {e : Expr} (ht : t.kind ∈ nameStart)
    (h : functionOrVariable inner t ts = .ok (e, rest)) :
    Parse.next exprStart (unary inner) (t :: ts) = postfixes inner rest.length e rest :=
  unary_of_primary (List.mem_append_right _ ht) (by rw [primary_name ht, h])

theorem postfixes_bracket (hinner : ReadsBack inner n) (turns : Nat) (operand : Expr)
    {position : Expr} {opening closing : Token}
    (hopening : opening.kind = .operator .openBracket) (hposition : position.Covers 0 w)
    (hclosing : closing.kind = .operator .closeBracket) (hlen : w.length ≤ n) :
    postfixes inner (turns + 1) operand (opening :: (w ++ closing :: rest)) =
      postfixes inner turns (.index .none operand opening position.erase closing) rest := by
  have hread := hinner .expression position w (closing :: rest) hposition hlen
    (Stops.of_none (Token.hold?_closing hclosing (by decide)))
  rw [postfixes, Parse.bind_ok (Parse.acceptOperator_cons hopening (by decide) _)]
  simp only [if_pos (Token.isOperator_iff.2 hopening)]
  rw [Parse.bind_ok hread, Parse.bind_ok (Parse.requireOperator_cons hclosing _)]

theorem postfixes_dot (turns : Nat) (operand : Expr) {dot selector : Token}
    (hdot : dot.kind = .operator .dot) (hselector : selector.kind = .identifier) :
    postfixes inner (turns + 1) operand (dot :: selector :: rest) =
      postfixes inner turns (.field .none operand dot selector) rest := by
  rw [postfixes, Parse.bind_ok (Parse.acceptOperator_cons hdot (by decide) _)]
  simp only [Token.isOperator, hdot]
  rw [if_neg (by decide), if_pos (by decide),
    Parse.bind_ok (Parse.require_cons (by simp [hselector]) _)]

theorem postfixes_step (turns : Nat) (operand : Expr) {op : Token}
    (hop : op.kind = .operator .increment ∨ op.kind = .operator .decrement) :
    postfixes inner (turns + 1) operand (op :: rest) =
      postfixes inner turns (.step .none operand op) rest := by
  rcases hop with hop | hop <;>
    (rw [postfixes, Parse.bind_ok (Parse.acceptOperator_cons hop (by decide) _)]
     simp only [Token.isOperator, hop]
     rw [if_neg (by decide), if_neg (by decide)])

theorem postfixes_stop (turns : Nat) (operand : Expr) (hrest : Stops unaryRank rest) :
    postfixes inner turns operand rest = .ok (operand, rest) := by
  cases turns with
  | zero => rfl
  | succ turns =>
      rw [postfixes, Parse.bind_ok (Parse.acceptOperator_of_head ?_)]
      · rfl
      · intro t ht op hop hkind
        have hhold : t.hold? = some postfixRank :=
          Token.hold?_postfix hkind (List.mem_append_left [Operator.openParen] hop)
        have hlt := hrest t ht postfixRank hhold
        exact absurd hlt (by decide)

/-- A bare name, after which a bracket is read differently. -/
def Expr.IsName : Expr → Prop
  | .variable .. => True
  | _ => False

theorem Expr.IsName.exists_eq {e : Expr} (h : e.IsName) : ∃ info name, e = .variable info name := by
  cases e with
  | «variable» info name => exact ⟨info, name, rfl⟩
  | _ => exact h.elim

theorem unary_index_of_name (hinner : ReadsBack inner n) {name opening closing : Token}
    {position : Expr} (hname : name.kind = .identifier)
    (hopening : opening.kind = .operator .openBracket) (hposition : position.Covers 0 w)
    (hclosing : closing.kind = .operator .closeBracket) (hlen : w.length ≤ n)
    (hparen : ∀ t ∈ rest.head?, t.kind ≠ .operator .openParen) :
    Parse.next exprStart (unary inner) (name :: opening :: (w ++ closing :: rest)) =
      postfixes inner rest.length
        (.index .none (.variable .none name) opening position.erase closing) rest := by
  have hnot : ¬ rest.head?.map Token.kind = some (.operator .openParen) := by
    intro h
    obtain ⟨t, ht, hkind⟩ := Option.map_eq_some_iff.1 h
    exact hparen t ht hkind
  refine unary_of_name (by rw [hname]; decide) ?_
  rw [functionOrVariable, if_pos hname,
    reference_bracket hinner name hopening hposition hclosing hlen, if_neg hnot]

theorem Expr.rank_binary_lt {info : ExprInfo} {left right : Expr} {op : Token}
    (h : (Expr.binary info left op right).WellLevelled) :
    (Expr.binary info left op right).rank < unaryRank := by
  obtain ⟨row, hrow, -⟩ := h
  have hlt := Token.ladderRow?_lt hrow
  rw [Expr.rank, hrow, Option.getD_some, unaryRank]
  omega

theorem Expr.exists_unary_eq {e : Expr} (h : e.WellLevelled) (hrank : e.rank = unaryRank) :
    ∃ info op operand, e = .unary info op operand := by
  cases e with
  | unary info op operand => exact ⟨info, op, operand, rfl⟩
  | binary => exact absurd hrank (Nat.ne_of_lt (Expr.rank_binary_lt h))
  | list => exact absurd hrank (show 0 ≠ unaryRank by decide)
  | assignment => exact absurd hrank (show 1 ≠ unaryRank by decide)
  | ternary => exact absurd hrank (show 2 ≠ unaryRank by decide)
  | _ => exact absurd hrank (show postfixRank ≠ unaryRank by decide)

theorem Expr.exists_binary_eq {e : Expr} (hloose : 3 ≤ e.rank) (hrank : e.rank < unaryRank) :
    ∃ info left op right, e = .binary info left op right := by
  cases e with
  | binary info left op right => exact ⟨info, left, op, right, rfl⟩
  | list => exact absurd hloose (show ¬ 3 ≤ 0 by decide)
  | assignment => exact absurd hloose (show ¬ 3 ≤ 1 by decide)
  | ternary => exact absurd hloose (show ¬ 3 ≤ 2 by decide)
  | unary => exact absurd hrank (Nat.lt_irrefl unaryRank)
  | _ => exact absurd hrank (show ¬ postfixRank < unaryRank by decide)

theorem Expr.exists_list_eq {e : Expr} (hrank : e.rank = 0) :
    ∃ info es, e = .list info es := by
  cases e with
  | list info es => exact ⟨info, es, rfl⟩
  | binary =>
      rw [Expr.rank] at hrank
      omega
  | assignment => exact absurd hrank (show 1 ≠ 0 by decide)
  | ternary => exact absurd hrank (show 2 ≠ 0 by decide)
  | unary => exact absurd hrank (show unaryRank ≠ 0 by decide)
  | _ => exact absurd hrank (show postfixRank ≠ 0 by decide)

theorem Expr.exists_assignment_eq {e : Expr} (hrank : e.rank = 1) :
    ∃ info left op right, e = .assignment info left op right := by
  cases e with
  | assignment info left op right => exact ⟨info, left, op, right, rfl⟩
  | binary =>
      rw [Expr.rank] at hrank
      omega
  | list => exact absurd hrank (show 0 ≠ 1 by decide)
  | ternary => exact absurd hrank (show 2 ≠ 1 by decide)
  | unary => exact absurd hrank (show unaryRank ≠ 1 by decide)
  | _ => exact absurd hrank (show postfixRank ≠ 1 by decide)

theorem Expr.exists_ternary_eq {e : Expr} (hrank : e.rank = 2) :
    ∃ info condition question whenTrue colon whenFalse,
      e = .ternary info condition question whenTrue colon whenFalse := by
  cases e with
  | ternary => exact ⟨_, _, _, _, _, _, rfl⟩
  | binary =>
      rw [Expr.rank] at hrank
      omega
  | list => exact absurd hrank (show 0 ≠ 2 by decide)
  | assignment => exact absurd hrank (show 1 ≠ 2 by decide)
  | unary => exact absurd hrank (show unaryRank ≠ 2 by decide)
  | _ => exact absurd hrank (show postfixRank ≠ 2 by decide)

/-- After the tokens of an operand without operators before it the loop over what comes after
operands is where it stands with that operand. -/
theorem exists_postfixes (hinner : ReadsBack inner n) : ∀ (e : Expr) (w rest : List Token),
    e.Covers postfixRank w → w.length ≤ n + 1 →
    (∀ t ∈ rest.head?, t.kind ≠ .operator .openParen) →
    (e.IsName → ∀ t ∈ rest.head?, t.kind ≠ .operator .openBracket) →
    ∃ turns, rest.length ≤ turns ∧
      Parse.next exprStart (unary inner) (w ++ rest) = postfixes inner turns e.erase rest
  | .literal _ token, w, rest, ⟨_, h, hw⟩, _, _, _ => by
      obtain ⟨_, rfl, hnil⟩ := Spells.kept_cons_iff.1 hw
      obtain rfl := Spells.nil_iff.1 hnil
      have hliteral : token.kind ∈ literalStart := h
      refine ⟨rest.length, Nat.le_refl _, unary_of_primary ?_ ?_⟩
      · exact List.mem_append_left _ (List.mem_append_left _ hliteral)
      · rw [primary, if_pos (by simpa using hliteral)]
        rfl
  | .group _ opening e closing, w, rest, ⟨_, h, hw⟩, hlen, _, _ => by
      obtain ⟨hopening, he, hclosing⟩ := h
      obtain ⟨_, rfl, hinside⟩ := Spells.kept_cons_iff.1 hw
      obtain ⟨u, rfl, hu⟩ := Spells.append_kept_iff.1 hinside
      simp only [List.length_cons, List.length_append] at hlen
      have hread := hinner .expression e u (closing :: rest) ⟨Nat.zero_le _, he, hu⟩ (by omega)
        (Stops.of_none (Token.hold?_closing hclosing (by decide)))
      have happend : opening :: (u ++ [closing]) ++ rest = opening :: (u ++ closing :: rest) := by
        simp
      rw [happend]
      refine ⟨rest.length, Nat.le_refl _, unary_of_primary (by rw [hopening]; decide) ?_⟩
      rw [primary, if_neg (by rw [hopening]; decide), if_pos (by rw [hopening]; decide), group,
        Parse.bind_ok hread, Parse.bind_ok (Parse.requireOperator_cons hclosing _)]
      rfl
  | .variable _ name, w, rest, ⟨_, h, hw⟩, _, hparen, hbracket => by
      obtain ⟨_, rfl, hnil⟩ := Spells.kept_cons_iff.1 hw
      obtain rfl := Spells.nil_iff.1 hnil
      have hkind : name.kind = .identifier := h
      refine ⟨rest.length, Nat.le_refl _, unary_of_name (by rw [hkind]; decide) ?_⟩
      change functionOrVariable inner name rest = _
      rw [functionOrVariable, if_pos hkind]
      exact reference_variable name hparen (hbracket trivial)
  | .call _ callee opening void arguments closing, w, rest, ⟨_, h, hw⟩, hlen, _, _ => by
      obtain ⟨u, rfl, hu⟩ := Spells.kept_cons_iff.1 hw
      rw [List.length_cons] at hlen
      have htail : CallTail.WellFormed ⟨opening, void, arguments, closing⟩ := h.2
      exact ⟨rest.length, Nat.le_refl _, unary_of_name h.1
        (functionOrVariable_call hinner htail hu (by omega))⟩
  | .arrayCall _ callee bracket size bracketEnd opening void arguments closing, w, rest,
      ⟨_, h, hw⟩, hlen, _, _ => by
      obtain ⟨hcallee, hbracket, hrank, hsize, hend, htail⟩ := h
      obtain ⟨_, rfl, hbrackets⟩ := Spells.kept_cons_iff.1 hw
      obtain ⟨_, rfl, hparts⟩ := Spells.kept_cons_iff.1 hbrackets
      obtain ⟨u, _, rfl, hu, hrest⟩ := Spells.append_iff.1 hparts
      obtain ⟨v, rfl, hv⟩ := Spells.kept_cons_iff.1 hrest
      simp only [List.length_cons, List.length_append] at hlen
      have hsizes : Spells (sizePieces (some ⟨bracket, size, bracketEnd⟩))
          (bracket :: (u ++ [bracketEnd])) := .kept (hu.append (.kept .nil))
      have hcall : CallTail.WellFormed ⟨opening, void, arguments, closing⟩ := htail
      have hread : functionOrVariable inner callee (_ ++ (v ++ rest)) = .ok (_, rest) :=
        functionOrVariable_arrayCall hinner hbracket ⟨hrank, hsize⟩ hend hsizes hcall hv
          (by simp only [List.length_cons, List.length_append, List.length_nil]; omega)
      have happend : callee :: bracket :: (u ++ bracketEnd :: v) ++ rest =
          callee :: (bracket :: (u ++ [bracketEnd]) ++ (v ++ rest)) := by simp
      rw [happend]
      exact ⟨rest.length, Nat.le_refl _, unary_of_name hcallee hread⟩
  | .field _ operand dot selector, w, rest, ⟨_, h, hw⟩, hlen, _, _ => by
      obtain ⟨hrank, hoperand, hdot, hselector⟩ := h
      obtain ⟨u, _, rfl, hu, hselected⟩ := Spells.append_iff.1 hw
      obtain ⟨_, rfl, hname⟩ := Spells.kept_cons_iff.1 hselected
      obtain ⟨_, rfl, hnil⟩ := Spells.kept_cons_iff.1 hname
      obtain rfl := Spells.nil_iff.1 hnil
      simp only [List.length_cons, List.length_append] at hlen
      obtain ⟨turns, hturns, hread⟩ := exists_postfixes hinner operand u (dot :: selector :: rest)
        ⟨hrank, hoperand, hu⟩ (by omega) (by simp [hdot]) (by simp [hdot])
      simp only [List.length_cons] at hturns
      obtain ⟨turns, rfl⟩ : ∃ k, turns = k + 1 := ⟨turns - 1, by omega⟩
      refine ⟨turns, by omega, ?_⟩
      rw [List.append_assoc]
      exact hread.trans (postfixes_dot turns operand.erase hdot hselector)
  | .step _ operand op, w, rest, ⟨_, h, hw⟩, hlen, _, _ => by
      obtain ⟨hrank, hoperand, hop⟩ := h
      obtain ⟨u, rfl, hu⟩ := Spells.append_kept_iff.1 hw
      simp only [List.length_cons, List.length_append] at hlen
      obtain ⟨turns, hturns, hread⟩ := exists_postfixes hinner operand u (op :: rest)
        ⟨hrank, hoperand, hu⟩ (by omega) (by rcases hop with hop | hop <;> simp [hop])
        (by rcases hop with hop | hop <;> simp [hop])
      simp only [List.length_cons] at hturns
      obtain ⟨turns, rfl⟩ : ∃ k, turns = k + 1 := ⟨turns - 1, by omega⟩
      refine ⟨turns, by omega, ?_⟩
      rw [List.append_assoc]
      exact hread.trans (postfixes_step turns operand.erase hop)
  | .index _ operand opening position closing, w, rest, ⟨_, h, hw⟩, hlen, hparen, _ => by
      obtain ⟨hrank, hoperand, hopening, hposition, hclosing⟩ := h
      obtain ⟨u, _, rfl, hu, hbrackets⟩ := Spells.append_iff.1 hw
      obtain ⟨_, rfl, hinside⟩ := Spells.kept_cons_iff.1 hbrackets
      obtain ⟨v, rfl, hv⟩ := Spells.append_kept_iff.1 hinside
      simp only [List.length_cons, List.length_append] at hlen
      have hinside : position.Covers 0 v := ⟨Nat.zero_le _, hposition, hv⟩
      have happend : u ++ opening :: (v ++ [closing]) ++ rest =
          u ++ opening :: (v ++ closing :: rest) := by simp
      rw [happend]
      by_cases hname : operand.IsName
      · -- The name takes the brackets with it.
        obtain ⟨info, name, rfl⟩ := hname.exists_eq
        obtain ⟨_, rfl, hnil⟩ := Spells.kept_cons_iff.1 hu
        obtain rfl := Spells.nil_iff.1 hnil
        exact ⟨rest.length, Nat.le_refl _, unary_index_of_name hinner hoperand hopening hinside
          hclosing (by omega) hparen⟩
      · obtain ⟨turns, hturns, hread⟩ := exists_postfixes hinner operand u
          (opening :: (v ++ closing :: rest)) ⟨hrank, hoperand, hu⟩ (by omega)
          (by simp [hopening]) (fun h => absurd h hname)
        simp only [List.length_cons, List.length_append] at hturns
        obtain ⟨turns, rfl⟩ : ∃ k, turns = k + 1 := ⟨turns - 1, by omega⟩
        refine ⟨turns, by omega, hread.trans ?_⟩
        exact postfixes_bracket hinner turns operand.erase hopening hinside hclosing (by omega)
  | .assignment .., _, _, h, _, _, _ => absurd h.1 (show ¬ postfixRank ≤ 1 by decide)
  | .ternary .., _, _, h, _, _, _ => absurd h.1 (show ¬ postfixRank ≤ 2 by decide)
  | .unary .., _, _, h, _, _, _ => absurd h.1 (show ¬ postfixRank ≤ unaryRank by decide)
  | .list .., _, _, h, _, _, _ => absurd h.1 (show ¬ postfixRank ≤ 0 by decide)
  | .binary .., _, _, h, _, _, _ => by
      have hlt := Expr.rank_binary_lt h.2.1
      have hle := h.1
      rw [postfixRank] at hle
      omega

theorem unary_apply (hinner : ReadsBack inner n) {e : Expr} (h : e.Covers unaryRank w)
    (hlen : w.length ≤ n + 1) (hrest : Stops unaryRank rest) :
    Parse.next exprStart (unary inner) (w ++ rest) = .ok (e.erase, rest) := by
  by_cases hrank : postfixRank ≤ e.rank
  · obtain ⟨turns, -, hread⟩ := exists_postfixes hinner e w rest ⟨hrank, h.2⟩ hlen
      (hrest.ne (fun t ht => Token.hold?_postfix ht (by decide)) (by decide))
      (fun _ => hrest.ne (fun t ht => Token.hold?_postfix ht (by decide)) (by decide))
    rw [hread, postfixes_stop turns e.erase hrest]
  · obtain ⟨hle, h, hw⟩ := h
    have hrank : e.rank = unaryRank := by rw [postfixRank] at hrank; omega
    obtain ⟨_, op, operand, rfl⟩ := Expr.exists_unary_eq h hrank
    obtain ⟨⟨o, ho, hkind⟩, hoperand⟩ := h
    obtain ⟨u, rfl, hu⟩ := Spells.kept_cons_iff.1 hw
    rw [List.length_cons] at hlen
    have hop : unaryOperators.any (op.isOperator ·) :=
      List.any_eq_true.2 ⟨o, ho, Token.isOperator_iff.2 hkind⟩
    have hread := hinner .unary operand u rest ⟨hoperand.1, hoperand.2, hu⟩ (by omega) hrest
    rw [List.cons_append, Parse.next_cons, unary, if_pos hop, Parse.bind_ok hread]
    rfl

/-! ## The ladder -/

section

variable {ops : List Operator} {tighter : List (List Operator)} {operand : Token → Parse Expr}

theorem foldOperators_stop (hladder : ops :: tighter <:+ ladder) (turns : Nat) (e : Expr)
    (hrest : Stops (ladderRank (ops :: tighter)) rest) :
    foldOperators ops operand turns e rest = .ok (e, rest) := by
  cases turns with
  | zero => rfl
  | succ turns =>
      rw [foldOperators, Parse.bind_ok (Parse.acceptOperator_of_head ?_)]
      · rfl
      · intro t ht op hop hkind
        have hrow := (mem_iff_ladderRow? hladder op).1 hop
        have hhold := Token.hold?_ladder (Token.ladderRow?_eq_some.2 ⟨op, hkind, hrow⟩)
        have hlt := hrest t ht _ hhold
        rw [(ladderRank_cons hladder).1] at hlt
        omega

theorem foldOperators_step {op : Operator} {t : Token} (ht : t.kind = .operator op)
    (hop : op ∈ ops) (turns : Nat) (left : Expr) {right : Expr}
    (hread : Parse.next exprStart operand (w ++ rest) = .ok (right, rest)) :
    foldOperators ops operand (turns + 1) left (t :: (w ++ rest)) =
      foldOperators ops operand turns (.binary .none left t right) rest := by
  rw [foldOperators, Parse.bind_ok (Parse.acceptOperator_cons ht hop _)]
  simp only []
  rw [Parse.bind_ok hread]

end

/-- Expressions of at most so many tokens are read back by the levels of a ladder. -/
def LadderReadsBack (inner : ExprParser) (levels : List (List Operator)) (n : Nat) : Prop :=
  ∀ (e : Expr) (w rest : List Token), e.Covers (ladderRank levels) w → w.length ≤ n →
    Stops (ladderRank levels) rest →
    Parse.next exprStart (binary inner levels) (w ++ rest) = .ok (e.erase, rest)

theorem next_binary_cons (ops : List Operator) (tighter : List (List Operator)) :
    Parse.next exprStart (binary inner (ops :: tighter)) =
      (Parse.next exprStart (binary inner tighter) >>= fun left => Parse.remaining >>= fun turns =>
        foldOperators ops (binary inner tighter) turns left) := by
  rw [← Parse.next_bind]
  rfl

/-- After the tokens of a left operand the loop over the operators of a row is where it stands
with that operand. -/
theorem exists_foldOperators {ops : List Operator} {tighter : List (List Operator)}
    (hladder : ops :: tighter <:+ ladder) (htighter : LadderReadsBack inner tighter n) (e : Expr)
    (w rest : List Token) (h : e.Covers (ladderRank (ops :: tighter)) w) (hlen : w.length ≤ n)
    (hrest : Stops (ladderRank tighter) rest) :
    ∃ turns, rest.length ≤ turns ∧
      Parse.next exprStart (binary inner (ops :: tighter)) (w ++ rest) =
        foldOperators ops (binary inner tighter) turns e.erase rest := by
  obtain ⟨hrow, hrank⟩ := ladderRank_cons hladder
  by_cases htight : ladderRank tighter ≤ e.rank
  · refine ⟨rest.length, Nat.le_refl _, ?_⟩
    rw [next_binary_cons, Parse.bind_ok (htighter e w rest ⟨htight, h.2⟩ hlen hrest),
      Parse.bind_ok (Parse.remaining_apply _)]
  · obtain ⟨hle, hlevelled, hw⟩ := h
    have hlength := hladder.length_le
    have hunary : ladderRank tighter ≤ unaryRank := Nat.sub_le ..
    obtain ⟨_, left, op, right, rfl⟩ := Expr.exists_binary_eq (e := e) (by omega) (by omega)
    obtain ⟨row, hop, hleft, hlevelled, hright, hlevelled'⟩ := hlevelled
    obtain ⟨u, _, rfl, hu, htail⟩ := Spells.append_iff.1 hw
    obtain ⟨v, rfl, hv⟩ := Spells.kept_cons_iff.1 htail
    rw [Expr.rank, hop, Option.getD_some] at hle htight
    obtain rfl : row = ladder.length - (tighter.length + 1) := by omega
    obtain ⟨o, hkind, ho⟩ := Token.ladderRow?_eq_some.1 hop
    simp only [List.length_append, List.length_cons] at hlen
    have hstops : Stops (ladderRank tighter) (op :: (v ++ rest)) :=
      Stops.cons (Token.hold?_ladder hop) (by omega)
    obtain ⟨turns, hturns, hread⟩ := exists_foldOperators hladder htighter left u
      (op :: (v ++ rest)) ⟨by omega, hlevelled, hu⟩ (by omega) hstops
    simp only [List.length_cons, List.length_append] at hturns
    obtain ⟨turns, rfl⟩ : ∃ k, turns = k + 1 := ⟨turns - 1, by omega⟩
    refine ⟨turns, by omega, ?_⟩
    rw [List.append_assoc]
    refine hread.trans (foldOperators_step hkind ((mem_iff_ladderRow? hladder o).2 ho) turns
      left.erase (htighter right v rest ⟨by omega, hlevelled', hv⟩ (by omega) hrest))
termination_by w.length
decreasing_by subst_vars; simp

theorem ladderReadsBack (hinner : ReadsBack inner n) {levels : List (List Operator)}
    (hladder : levels <:+ ladder) : LadderReadsBack inner levels (n + 1) := by
  induction levels with
  | nil => exact fun e w rest h hlen hrest => unary_apply hinner h hlen hrest
  | cons ops tighter ih =>
      intro e w rest h hlen hrest
      obtain ⟨-, hrank⟩ := ladderRank_cons hladder
      have htighter := ih ((List.suffix_cons ops tighter).trans hladder)
      obtain ⟨turns, -, hread⟩ := exists_foldOperators hladder htighter e w rest h hlen
        (hrest.mono (by omega))
      rw [hread, foldOperators_stop hladder turns e.erase hrest]

/-! ## Choices, assignments and lists -/

theorem next_conditional : Parse.next exprStart (conditional inner) =
    Parse.next exprStart (binary inner ladder) >>= ternaryTail inner := by
  rw [← Parse.next_bind]
  rfl

theorem conditional_apply (hinner : ReadsBack inner n) {e : Expr} (h : e.Covers 2 w)
    (hlen : w.length ≤ n + 1) (hrest : Stops 1 rest) :
    Parse.next exprStart (conditional inner) (w ++ rest) = .ok (e.erase, rest) := by
  have hladder := ladderReadsBack hinner (List.suffix_refl ladder)
  rw [next_conditional]
  by_cases hrank : 3 ≤ e.rank
  · rw [Parse.bind_ok (hladder e w rest ⟨hrank, h.2⟩ hlen (hrest.mono (by decide))), ternaryTail,
      Parse.bind_ok (Parse.accept_of_head
        (hrest.ne (fun t => Token.hold?_question) (by decide)))]
    rfl
  · obtain ⟨hle, h, hw⟩ := h
    obtain ⟨_, condition, question, whenTrue, colon, whenFalse, rfl⟩ :=
      Expr.exists_ternary_eq (show e.rank = 2 by omega)
    obtain ⟨hcondition, hcondition', hquestion, htrue, hcolon, hfalse, hfalse'⟩ := h
    obtain ⟨u, _, rfl, hu, htail⟩ := Spells.append_iff.1 hw
    obtain ⟨_, rfl, hbranches⟩ := Spells.kept_cons_iff.1 htail
    obtain ⟨v, _, rfl, hv, hcolons⟩ := Spells.append_iff.1 hbranches
    obtain ⟨x, rfl, hx⟩ := Spells.kept_cons_iff.1 hcolons
    simp only [List.length_append, List.length_cons] at hlen
    have hread := hladder condition u (question :: (v ++ colon :: (x ++ rest)))
      ⟨hcondition, hcondition', hu⟩ (by omega)
      (Stops.cons (Token.hold?_question hquestion) (by decide))
    have hread' := hinner .expression whenTrue v (colon :: (x ++ rest))
      ⟨Nat.zero_le _, htrue, hv⟩ (by omega)
      (Stops.of_none (Token.hold?_closing hcolon (by decide)))
    have hread'' := hinner .assignment whenFalse x rest ⟨hfalse, hfalse', hx⟩ (by omega) hrest
    have happend : u ++ question :: (v ++ colon :: x) ++ rest =
        u ++ question :: (v ++ colon :: (x ++ rest)) := by simp
    rw [happend, Parse.bind_ok hread, ternaryTail, Parse.bind_ok (Parse.accept_cons hquestion _)]
    simp only []
    rw [Parse.bind_ok hread', Parse.bind_ok (Parse.requireOperator_cons hcolon _),
      Parse.bind_ok hread'']
    rfl

/-- Reading on after the first operand is no different from reading from the start. -/
theorem binary_eq_resume (levels : List (List Operator)) (t : Token) :
    binary inner levels t = unary inner t >>= binaryResume inner levels := by
  induction levels with
  | nil => exact (bind_pure _).symm
  | cons ops tighter ih =>
      rw [binary, ih, bind_assoc]
      rfl

theorem conditional_eq_resume (t : Token) :
    conditional inner t = unary inner t >>= conditionalResume inner := by
  rw [conditional, binary_eq_resume, bind_assoc]
  rfl

theorem next_conditional_eq_resume : Parse.next exprStart (conditional inner) =
    Parse.next exprStart (unary inner) >>= conditionalResume inner := by
  rw [← Parse.next_bind]
  exact congrArg _ (funext conditional_eq_resume)

/-- A token between the first operand of a conditional expression and the rest of it. -/
def Token.JoinsOperands (t : Token) : Prop := ∃ hold, t.hold? = some hold ∧ 2 ≤ hold ∧ hold < unaryRank

theorem Token.JoinsOperands.of_ladder {t : Token} {row : Nat} (h : t.ladderRow? = some row) :
    t.JoinsOperands := by
  have hlt := Token.ladderRow?_lt h
  refine ⟨row + 3, Token.hold?_ladder h, by omega, ?_⟩
  rw [unaryRank]
  omega

theorem head_append_cons {P : Token → Prop} {u v : List Token} {t : Token}
    (hu : ∀ s ∈ u.head?, P s) (ht : P t) : ∀ s ∈ (u ++ t :: v).head?, P s := by
  cases u with
  | nil => simpa using ht
  | cons => simpa using hu

/-- A conditional expression begins with an operand that only operators come before. -/
theorem Expr.exists_operand (e : Expr) (w : List Token) (h : e.Covers 2 w) :
    ∃ (operand : Expr) (u v : List Token), w = u ++ v ∧ operand.Covers unaryRank u ∧
      ∀ t ∈ v.head?, t.JoinsOperands := by
  obtain ⟨hle, hlevelled, hw⟩ := h
  by_cases hunary : unaryRank ≤ e.rank
  · exact ⟨e, w, [], by simp, ⟨hunary, hlevelled, hw⟩, by simp⟩
  by_cases hrank : 3 ≤ e.rank
  · obtain ⟨_, left, op, right, rfl⟩ := Expr.exists_binary_eq hrank (by omega)
    obtain ⟨row, hop, hleft, hlevelled, -⟩ := hlevelled
    obtain ⟨x, _, rfl, hx, htail⟩ := Spells.append_iff.1 hw
    obtain ⟨y, rfl, -⟩ := Spells.kept_cons_iff.1 htail
    obtain ⟨operand, u, v, rfl, hu, hv⟩ := Expr.exists_operand left x ⟨by omega, hlevelled, hx⟩
    exact ⟨operand, u, v ++ op :: y, by simp, hu,
      head_append_cons hv (Token.JoinsOperands.of_ladder hop)⟩
  · obtain ⟨_, condition, question, _, _, _, rfl⟩ :=
      Expr.exists_ternary_eq (show e.rank = 2 by omega)
    obtain ⟨hcondition, hlevelled, hquestion, -⟩ := hlevelled
    obtain ⟨x, _, rfl, hx, htail⟩ := Spells.append_iff.1 hw
    obtain ⟨y, rfl, -⟩ := Spells.kept_cons_iff.1 htail
    obtain ⟨operand, u, v, rfl, hu, hv⟩ :=
      Expr.exists_operand condition x ⟨by omega, hlevelled, hx⟩
    exact ⟨operand, u, v ++ question :: y, by simp, hu,
      head_append_cons hv ⟨2, Token.hold?_question hquestion, Nat.le_refl _, by decide⟩⟩
termination_by w.length
decreasing_by all_goals subst_vars; simp

theorem next_assignment : Parse.next exprStart (assignment inner) =
    (Parse.next exprStart (unary inner) >>= fun left =>
      Parse.acceptIf (·.kind.operator?.any Operator.isAssignment) >>= fun
      | none => conditionalResume inner left
      | some op => nextExpr inner .assignment >>= fun right =>
        pure (.assignment .none left op right)) := by
  rw [← Parse.next_bind]
  rfl

theorem assignment_apply (hinner : ReadsBack inner n) {e : Expr} (h : e.Covers 1 w)
    (hlen : w.length ≤ n + 1) (hrest : Stops 1 rest) :
    Parse.next exprStart (assignment inner) (w ++ rest) = .ok (e.erase, rest) := by
  rw [next_assignment]
  by_cases hrank : 2 ≤ e.rank
  · obtain ⟨operand, u, v, happend, hu, hv⟩ := Expr.exists_operand e w ⟨hrank, h.2⟩
    have hlength : u.length ≤ n + 1 := by
      rw [happend, List.length_append] at hlen
      omega
    have hstops : Stops unaryRank (v ++ rest) := by
      cases v with
      | nil => exact hrest.mono (by decide)
      | cons t v =>
          obtain ⟨hold, hhold, -, hlt⟩ := hv t rfl
          exact Stops.cons hhold hlt
    have hread := unary_apply hinner hu hlength hstops
    have hconditional := conditional_apply hinner ⟨hrank, h.2⟩ hlen hrest
    rw [next_conditional_eq_resume, happend, List.append_assoc, Parse.bind_ok hread] at hconditional
    have hassign : ∀ t ∈ (v ++ rest).head?, t.kind.operator?.any Operator.isAssignment = false := by
      intro t ht
      by_contra hassign
      have hhold := Token.hold?_assignment (Bool.of_not_eq_false hassign)
      cases v with
      | nil => exact absurd (hrest t ht 1 hhold) (by decide)
      | cons s v =>
          cases ht
          obtain ⟨hold, hhold', hle, -⟩ := hv t rfl
          rw [hhold] at hhold'
          cases hhold'
          exact absurd hle (by decide)
    rw [happend, List.append_assoc, Parse.bind_ok hread,
      Parse.bind_ok (Parse.acceptIf_of_head hassign)]
    exact hconditional
  · obtain ⟨hle, h, hw⟩ := h
    obtain ⟨_, left, op, right, rfl⟩ :=
      Expr.exists_assignment_eq (show e.rank = 1 by omega)
    obtain ⟨hleft, hleft', hop, hright, hright'⟩ := h
    obtain ⟨u, _, rfl, hu, htail⟩ := Spells.append_iff.1 hw
    obtain ⟨v, rfl, hv⟩ := Spells.kept_cons_iff.1 htail
    simp only [List.length_append, List.length_cons] at hlen
    have hstops : Stops unaryRank (op :: (v ++ rest)) :=
      Stops.cons (Token.hold?_assignment hop) (by decide)
    have hread := unary_apply hinner ⟨hleft, hleft', hu⟩ (by omega) hstops
    have hread' := hinner .assignment right v rest ⟨hright, hright', hv⟩ (by omega) hrest
    rw [List.append_assoc, List.cons_append, Parse.bind_ok hread,
      Parse.bind_ok (Parse.acceptIf_cons hop _)]
    simp only []
    rw [Parse.bind_ok hread']
    rfl

theorem commaTail_apply (hinner : ReadsBack inner n) (hrest : Stops 0 rest) :
    ∀ (es : List Expr) (turns : Nat) (w : List Token), Expr.CoverTail es w → w.length ≤ n →
      w.length ≤ turns → commaTail inner turns (w ++ rest) = .ok (Expr.eraseAll es, rest)
  | [], turns, w, hes, _, _ => by
      rw [Spells.nil_iff.1 hes.2, List.nil_append]
      cases turns with
      | zero => rfl
      | succ turns =>
          rw [commaTail, Parse.bind_ok (Parse.accept_of_head
            (hrest.ne (fun t => Token.hold?_comma) (Nat.le_refl 0)))]
          rfl
  | e :: es, turns, w, hes, hlen, hturns => by
      obtain ⟨comma, v, rfl, hkind, hv⟩ := Spells.separator_cons_iff.1 hes.2
      have hcomma : comma.kind = .operator .comma := hkind
      obtain ⟨u, v, rfl, hu, htail⟩ := Expr.coverTail_split hes.1 hv
      simp only [List.length_cons, List.length_append] at hlen hturns
      obtain ⟨turns, rfl⟩ : ∃ k, turns = k + 1 := ⟨turns - 1, by omega⟩
      have hread := hinner .assignment e u (v ++ rest) hu (by omega)
        (htail.stops (hrest.mono (Nat.zero_le 1)))
      have hmore := commaTail_apply hinner hrest es turns v htail (by omega) (by omega)
      rw [List.cons_append, List.append_assoc, commaTail,
        Parse.bind_ok (Parse.accept_cons hcomma _)]
      simp only []
      rw [Parse.bind_ok hread, Parse.bind_ok hmore]
      rfl

theorem next_expression : Parse.next exprStart (expression inner) =
    (Parse.next exprStart (assignment inner) >>= fun first => Parse.remaining >>= fun turns =>
      commaTail inner turns >>= fun
      | [] => pure first
      | rest => pure (.list .none (first :: rest))) := by
  rw [← Parse.next_bind]
  rfl

theorem expression_apply (hinner : ReadsBack inner n) {e : Expr} (h : e.Covers 0 w)
    (hlen : w.length ≤ n + 1) (hrest : Stops 0 rest) :
    Parse.next exprStart (expression inner) (w ++ rest) = .ok (e.erase, rest) := by
  rw [next_expression]
  by_cases hrank : 1 ≤ e.rank
  · have hread := assignment_apply hinner ⟨hrank, h.2⟩ hlen (hrest.mono (Nat.zero_le 1))
    have hmore : commaTail inner rest.length rest = .ok ([], rest) :=
      commaTail_apply hinner hrest [] rest.length [] ⟨trivial, .nil⟩ (Nat.zero_le _)
        (Nat.zero_le _)
    rw [Parse.bind_ok hread, Parse.bind_ok (Parse.remaining_apply _), Parse.bind_ok hmore]
    rfl
  · obtain ⟨_, h, hw⟩ := h
    obtain ⟨_, es, rfl⟩ := Expr.exists_list_eq (show e.rank = 0 by omega)
    obtain ⟨hcount, hes⟩ := h
    match es, hcount with
    | e :: e' :: es, _ =>
        obtain ⟨u, v, rfl, hu, htail⟩ := Expr.coverTail_split hes hw
        obtain ⟨t, u', rfl, -⟩ := hu.exists_first
        simp only [List.length_append, List.length_cons] at hlen
        have hread := assignment_apply hinner hu (by rw [List.length_cons]; omega)
          (htail.stops (hrest.mono (Nat.zero_le 1)))
        have hmore := commaTail_apply hinner hrest (e' :: es) (v ++ rest).length v htail
          (by omega) (by simp)
        rw [List.append_assoc, Parse.bind_ok hread, Parse.bind_ok (Parse.remaining_apply _),
          Parse.bind_ok hmore]
        rfl

/-! ## All levels together -/

theorem exprOf_apply (hinner : ReadsBack inner n) (level : Level) {e : Expr}
    (h : e.Covers level.rank w) (hlen : w.length ≤ n + 1) (hrest : Stops level.stop rest) :
    Parse.next exprStart (exprOf inner level) (w ++ rest) = .ok (e.erase, rest) := by
  cases level with
  | unary => exact unary_apply hinner h hlen hrest
  | conditional => exact conditional_apply hinner h hlen hrest
  | assignment => exact assignment_apply hinner h hlen hrest
  | expression => exact expression_apply hinner h hlen hrest

theorem readsBack_exprWithin (n : Nat) : ReadsBack (exprWithin n) n := by
  induction n with
  | zero =>
      intro level e w rest h hlen
      obtain ⟨t, v, rfl, -⟩ := h.exists_first
      exact absurd hlen (Nat.not_succ_le_zero _)
  | succ n ih => exact fun level e w rest h hlen hrest => exprOf_apply ih level h hlen hrest

/-- Enough inner levels are allowed for where the rule of a level starts. -/
theorem exprRule_apply (level : Level) {body : ExprParser → Token → Parse Expr}
    (hbody : ∀ inner, body inner = exprOf inner level) {e : Expr} (h : e.Covers level.rank w)
    (hrest : Stops level.stop rest) : (exprRule body).next (w ++ rest) = .ok (e.erase, rest) := by
  obtain ⟨t, v, rfl, ht⟩ := h.exists_first
  have hread := exprOf_apply (readsBack_exprWithin (v ++ rest).length) level h (by simp) hrest
  rw [List.cons_append, Rule.next, Parse.next_cons, Rule.parse_of_mem ht]
  rw [List.cons_append, Parse.next_cons, ← hbody] at hread
  exact hread

theorem expressionRule_next {e : Expr} (h : e.Covers 0 w) (hrest : Stops 0 rest) :
    expressionRule.next (w ++ rest) = .ok (e.erase, rest) :=
  exprRule_apply .expression (fun _ => rfl) h hrest

theorem expressionRule_body {e : Expr} {t : Token} (h : e.Covers 0 (t :: w))
    (hrest : Stops 0 rest) : expressionRule.body t (w ++ rest) = .ok (e.erase, rest) := by
  have ht := first_of_cons (h.exists_first)
  have hread := expressionRule_next h hrest
  rwa [List.cons_append, Rule.next, Parse.next_cons, Rule.parse_of_mem ht] at hread

theorem assignmentRule_next {e : Expr} (h : e.Covers 1 w) (hrest : Stops 1 rest) :
    assignmentRule.next (w ++ rest) = .ok (e.erase, rest) :=
  exprRule_apply .assignment (fun _ => rfl) h hrest

theorem arraySize_some {size : ArraySize} (h : size.WellFormed)
    (hw : Spells (sizePieces (some size)) w) :
    arraySize (w ++ rest) = .ok (some size.erase, rest) :=
  sizeIn_apply (readsBack_exprWithin _) h hw (by simp)

theorem arraySize_none (hrest : ∀ t ∈ rest.head?, t.kind ≠ .operator .openBracket) :
    arraySize rest = .ok (none, rest) := sizeIn_none hrest

end

/-! ## The round trip -/

/-- Whatever its operators, groups, calls and selections are, an expression whose parts stand
where the grammar allows them without parentheses is read back from its tokens. The tokens after
it are left. -/
theorem Expr.WellLevelled.expressionRule_reads {e : Expr} (h : e.WellLevelled)
    {ts rest : List Token} (hts : Spells e.pieces ts)
    (hrest : ∀ t ∈ rest.head?, ¬ t.ContinuesExpr) :
    expressionRule.next (ts ++ rest) = .ok (e.erase, rest) := by
  have hstops : Stops 0 rest := by
    intro t ht hold hhold
    have hnone : t.hold? = none := Classical.not_not.1 (hrest t ht)
    rw [hnone] at hhold
    cases hhold
  exact expressionRule_next ⟨Nat.zero_le _, h, hts⟩ hstops

/-- In `x = x[1] + x * -x, x` every level of the grammar but that of the ternary operator has its
turn. -/
theorem expressionRule_reads_list :
    let op := fun op => Token.plain (.operator op)
    let x := Token.plain .identifier
    let name := Expr.variable .none x
    let sum := Expr.binary .none
      (.index .none name (op .openBracket) (.literal .none (.plain .intConstant))
        (op .closeBracket)) (op .plus)
      (.binary .none name (op .times) (.unary .none (op .minus) name))
    expressionRule.next [x, op .assign, x, op .openBracket, .plain .intConstant,
        op .closeBracket, op .plus, x, op .times, op .minus, x, op .comma, x, op .semicolon] =
      .ok (.list .none [.assignment .none name (op .assign) sum, name], [op .semicolon]) := by
  intro op x name sum
  have hname : name.WellLevelled := rfl
  have hindex : Expr.WellLevelled (.index .none name (op .openBracket)
      (.literal .none (.plain .intConstant)) (op .closeBracket)) :=
    ⟨by decide, hname, rfl, show TokenKind.intConstant ∈ literalStart by decide, rfl⟩
  have hproduct : Expr.WellLevelled (.binary .none name (op .times)
      (.unary .none (op .minus) name)) :=
    ⟨10, by decide, by decide, hname, by decide, ⟨.minus, by decide, rfl⟩, by decide, hname⟩
  have hsum : sum.WellLevelled :=
    ⟨9, by decide, by decide, hindex, by decide, hproduct⟩
  have hassignment : Expr.WellLevelled (.assignment .none name (op .assign) sum) :=
    ⟨by decide, hname, by decide, by decide, hsum⟩
  have hlist : Expr.WellLevelled (.list .none [.assignment .none name (op .assign) sum, name]) :=
    ⟨by decide, by decide, hassignment, by decide, hname, trivial⟩
  have hspells : Spells (Expr.list .none [.assignment .none name (op .assign) sum, name]).pieces
      [x, op .assign, x, op .openBracket, .plain .intConstant, op .closeBracket, op .plus, x,
        op .times, op .minus, x, op .comma, x] := by
    simp [Expr.pieces, Expr.piecesOfEach, commaBetween, commaBefore, sum, name, op, Separator.op]
  have hstop : ∀ t ∈ [op .semicolon].head?, ¬ t.ContinuesExpr := by
    rintro _ ⟨⟩ hcontinues
    exact hcontinues rfl
  exact hlist.expressionRule_reads hspells hstop

end Essl
