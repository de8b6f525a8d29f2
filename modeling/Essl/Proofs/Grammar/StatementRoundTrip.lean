import Essl.Proofs.Grammar.DeclarationRoundTrip
import Essl.Proofs.Grammar.StatementReading

/-!
# Statements and shaders are read back

The first two tokens of a statement tell a declaration from an expression. An `else` after a
statement is read as part of it if the statement ends in a conditional that has none, so those are
the statements that what comes after them matters for.
-/

namespace Essl

open Grammar

/-! ## First tokens -/

section

variable {t : Token} {second : Option TokenKind}

theorem startsDeclaration_operator {op : Operator} (ht : t.kind = .operator op) :
    startsDeclaration t second = false := by
  rw [startsDeclaration, ht]

theorem startsDeclaration_literal (ht : t.kind ∈ literalStart) :
    startsDeclaration t second = false := by
  simp only [literalStart, List.mem_cons, List.not_mem_nil, or_false] at ht
  rcases ht with ht | ht | ht <;> rw [startsDeclaration, ht]

theorem startsDeclaration_typeKeyword {p : Primitive} (ht : t.kind = .keyword (.type p)) :
    startsDeclaration t second =
      (second != some (.operator .openParen) && second != some (.operator .openBracket)) := by
  rw [startsDeclaration, ht]

theorem startsDeclaration_keyword
    (ht : t.kind ∈ .keyword .struct :: (storageStart ++ precisionStart)) :
    startsDeclaration t second = true := by
  simp only [storageStart, precisionStart, List.cons_append, List.nil_append, List.mem_cons,
    List.not_mem_nil, or_false] at ht
  rcases ht with ht | ht | ht | ht | ht | ht | ht | ht | ht <;>
    (rw [startsDeclaration, ht]; try rfl)

end

section

variable {p q : List Piece} {t : Token} {v rest : List Token}

/-- Whatever follows that is not a name, the tokens do not look like those of a declaration. -/
def LooksLikeExpr (p : List Piece) : Prop :=
  ∀ ⦃t : Token⦄ ⦃v rest : List Token⦄, Spells p (t :: v) →
    (∀ u ∈ rest.head?, u.kind ≠ .identifier) →
      startsDeclaration t ((v ++ rest).head?.map Token.kind) = false

/-- What follows the start of an expression that is looked at does not matter unless it is a
name. -/
theorem LooksLikeExpr.append (hp : LooksLikeExpr p)
    (hfirst : ∀ {u}, Spells p u → ∃ t v, u = t :: v ∧ t.kind ∈ exprStart)
    (hq : ∀ {u : List Token}, Spells q u → ∃ t v, u = t :: v ∧ t.kind ≠ .identifier) :
    LooksLikeExpr (p ++ q) := by
  intro t v rest hw _
  obtain ⟨u, x, rfl, hu, hx⟩ := hw.append_of_first hfirst
  obtain ⟨next, x, rfl, hnext⟩ := hq hx
  rw [List.append_assoc]
  exact hp hu (by simpa using hnext)

theorem LooksLikeExpr.append_kept {op : Token} (hp : LooksLikeExpr p)
    (hfirst : ∀ {u}, Spells p u → ∃ t v, u = t :: v ∧ t.kind ∈ exprStart)
    (hop : op.kind ≠ .identifier) : LooksLikeExpr (p ++ .kept op :: q) :=
  hp.append hfirst fun hu => by
    obtain ⟨v, rfl, -⟩ := Spells.kept_cons_iff.1 hu
    exact ⟨op, v, rfl, hop⟩

theorem LooksLikeExpr.of_first {op : Token}
    (h : ∀ second, startsDeclaration op second = false) : LooksLikeExpr (.kept op :: q) := by
  intro t v rest hw _
  obtain ⟨hfirst, -⟩ := Spells.of_kept_cons hw
  rw [hfirst]
  exact h _

theorem LooksLikeExpr.of_name {name bracket : Token} {op : Operator}
    (hname : name.kind ∈ nameStart) (hbracket : bracket.kind = .operator op)
    (hop : op = .openParen ∨ op = .openBracket) :
    LooksLikeExpr (.kept name :: .kept bracket :: q) := by
  intro t v rest hw _
  obtain ⟨rfl, htail⟩ := Spells.of_kept_cons hw
  obtain ⟨v, rfl, -⟩ := Spells.kept_cons_iff.1 htail
  rw [List.cons_append, List.head?_cons, Option.map_some, hbracket]
  rcases List.mem_cons.1 hname with hname | hname
  · rw [startsDeclaration_identifier hname]
    rfl
  · obtain ⟨p, -, hp⟩ := List.mem_map.1 hname
    rw [startsDeclaration_typeKeyword hp.symm]
    rcases hop with rfl | rfl <;> rfl

end

theorem Expr.looksLikeExpr : ∀ {e : Expr}, e.WellLevelled → LooksLikeExpr e.pieces
  | .assignment _ left op right, h => by
      refine (looksLikeExpr h.2.1).append_kept (exists_first left h.2.1) fun hop => ?_
      have hassign := h.2.2.1
      rw [hop] at hassign
      exact absurd hassign (by decide)
  | .ternary _ condition question whenTrue colon whenFalse, h => by
      exact (looksLikeExpr h.2.1).append_kept (exists_first condition h.2.1) (by simp [h.2.2.1])
  | .binary _ left op right, h => by
      obtain ⟨row, hrow, -, hleft, -⟩ := h
      obtain ⟨o, hop, -⟩ := Token.ladderRow?_eq_some.1 hrow
      exact (looksLikeExpr hleft).append_kept (exists_first left hleft) (by simp [hop])
  | .unary _ op operand, h => by
      obtain ⟨⟨o, -, hop⟩, -⟩ := h
      exact LooksLikeExpr.of_first fun _ => startsDeclaration_operator hop
  | .step _ operand op, h => by
      refine (looksLikeExpr h.2.1).append_kept (exists_first operand h.2.1) ?_
      rcases h.2.2 with hop | hop <;> simp [hop]
  | .literal _ token, h => LooksLikeExpr.of_first fun _ => startsDeclaration_literal h
  | .group _ opening inner closing, h =>
      LooksLikeExpr.of_first fun _ => startsDeclaration_operator h.1
  | .variable _ name, h => by
      intro t v rest hw hrest
      obtain ⟨rfl, hnil⟩ := Spells.of_kept_cons hw
      obtain rfl := Spells.nil_iff.1 hnil
      rw [startsDeclaration_identifier h]
      cases rest with
      | nil => rfl
      | cons u rest => simpa using hrest u rfl
  | .call _ callee opening .., h => LooksLikeExpr.of_name h.1 h.2.1 (.inl rfl)
  | .arrayCall _ callee bracket .., h => LooksLikeExpr.of_name h.1 h.2.1 (.inr rfl)
  | .field _ operand dot selector, h =>
      (looksLikeExpr h.2.1).append_kept (exists_first operand h.2.1) (by simp [h.2.2.1])
  | .index _ operand opening position closing, h =>
      (looksLikeExpr h.2.1).append_kept (exists_first operand h.2.1) (by simp [h.2.2.1])
  | .list _ (e :: es), h => by
      obtain ⟨hlength, -, he, -⟩ := h
      refine (looksLikeExpr he).append (exists_first e he) fun hu => ?_
      obtain ⟨e', es, rfl⟩ : ∃ e' es', es = e' :: es' :=
        List.exists_cons_of_ne_nil fun hnil => by simp [hnil] at hlength
      obtain ⟨t, v, rfl, ht, -⟩ := Spells.separator_cons_iff.1 hu
      exact ⟨t, v, rfl, by simp [ht]⟩

/-! ## Types and declarations -/

theorem TypeSpec.FullFormed.eq_of_name {s : TypeSpec} {t : Token} {v : List Token}
    (h : s.FullFormed) (hw : Spells s.pieces (t :: v))
    (ht : t.kind ∉ .keyword .struct :: (storageStart ++ precisionStart)) :
    v = [] ∧ ∃ type, s = .named .none t type := by
  obtain ⟨⟨hstorage, hprecision⟩, hcore⟩ := h
  rw [pieces, TypeQualifiers.pieces] at hw
  cases hwords : s.qualifiers.storage with
  | cons word words =>
      rw [hwords] at hw hstorage
      obtain ⟨hfirst, -⟩ := Spells.of_kept_cons hw
      rw [hfirst] at ht
      exact absurd (List.mem_cons_of_mem _ (List.mem_append_left _ hstorage.eq_of_cons.1)) ht
  | nil =>
      rw [hwords] at hw
      cases hp : s.qualifiers.precision with
      | some p =>
          rw [hp] at hw
          obtain ⟨hfirst, -⟩ := Spells.of_kept_cons hw
          rw [hfirst] at ht
          exact absurd (List.mem_cons_of_mem _ (List.mem_append_right _ (hprecision p hp))) ht
      | none =>
          rw [hp] at hw
          have hbare : s.qualifiers = .none := TypeQualifiers.Bare.eq_none ⟨hwords, hp⟩
          have hwcore : Spells s.core (t :: v) := hw
          cases s with
          | struct q keyword =>
              rw [core] at hwcore
              obtain ⟨hfirst, -⟩ := Spells.of_kept_cons hwcore
              have hkeyword : keyword.kind = .keyword .struct := hcore.1
              rw [hfirst, hkeyword] at ht
              exact absurd List.mem_cons_self ht
          | named q name type =>
              obtain ⟨rfl, hnil⟩ := Spells.of_kept_cons hwcore
              exact ⟨Spells.nil_iff.1 hnil, type, by rw [show q = .none from hbare]⟩

/-- The tokens of a type and the one after them look like those of a declaration. -/
theorem TypeSpec.FullFormed.startsDeclaration {s : TypeSpec} {t next : Token}
    {v rest : List Token} (h : s.FullFormed) (hw : Spells s.pieces (t :: v))
    (hnext : next.kind = .identifier ∨ next.kind = .operator .semicolon ∧ t.kind ≠ .identifier) :
    startsDeclaration t ((v ++ next :: rest).head?.map Token.kind) = true := by
  by_cases ht : t.kind ∈ .keyword .struct :: (storageStart ++ precisionStart)
  · exact startsDeclaration_keyword ht
  · obtain ⟨rfl, type, rfl⟩ := h.eq_of_name hw ht
    have hname : t.kind ∈ bareTypeStart := h.2.1
    rw [List.nil_append, List.head?_cons, Option.map_some]
    have hkinds : ∀ kind ∈ bareTypeStart, kind = .keyword .struct ∨ kind = .identifier ∨
        kind ∈ typeKeywords.map fun p => TokenKind.keyword (.type p) := by
      intro kind hkind
      simp only [bareTypeStart, List.mem_append, List.mem_cons, List.not_mem_nil, or_false] at hkind
      tauto
    rcases hkinds _ hname with hstruct | hident | htype
    · exact absurd hstruct h.2.2
    · rw [startsDeclaration_identifier hident, hnext.resolve_right fun hsemicolon =>
        hsemicolon.2 hident]
      rfl
    · obtain ⟨p, -, hp⟩ := List.mem_map.1 htype
      rw [startsDeclaration_typeKeyword hp.symm]
      rcases hnext with hkind | ⟨hkind, -⟩ <;> rw [hkind] <;> rfl

theorem FunctionHeader.WellFormed.exists_first {h : FunctionHeader} {p : List Piece}
    {w : List Token} (hh : h.WellFormed) (hw : Spells (h.pieces ++ p) w) :
    ∃ t v, w = t :: v ∧ t.kind ∈ qualifiedTypeStart := by
  rw [FunctionHeader.pieces, List.append_assoc] at hw
  exact hw.first_append hh.1.exists_first

theorem Declaration.exists_first {d : Declaration} {w : List Token} (h : d.WellFormed)
    (hw : Spells d.pieces w) : ∃ t v, w = t :: v ∧ t.kind ∈ declarationStart := by
  have htype : (∃ t v, w = t :: v ∧ t.kind ∈ qualifiedTypeStart) →
      ∃ t v, w = t :: v ∧ t.kind ∈ declarationStart := by
    rintro ⟨t, v, rfl, ht⟩
    exact ⟨t, v, rfl, List.mem_cons_of_mem _ ht⟩
  cases d with
  | declarators s ds semicolon => exact htype (hw.first_append h.1.exists_first)
  | type s semicolon => exact htype (hw.first_append h.1.exists_first)
  | precision keyword precision s semicolon =>
      obtain ⟨v, rfl, -⟩ := Spells.kept_cons_iff.1 hw
      refine ⟨keyword, v, rfl, ?_⟩
      rw [show keyword.kind = _ from h.1]
      exact List.mem_cons_self
  | invariants keyword names semicolon =>
      obtain ⟨v, rfl, -⟩ := Spells.kept_cons_iff.1 hw
      refine ⟨keyword, v, rfl, ?_⟩
      rw [show keyword.kind = _ from h.1]
      decide
  | prototype header semicolon =>
      exact htype (FunctionHeader.WellFormed.exists_first h.1 hw)
  | function header body =>
      rw [pieces] at hw
      exact htype (FunctionHeader.WellFormed.exists_first h.1 hw)

theorem Statement.exists_first_simple {s : Statement} {ownScope : Bool} {w : List Token}
    (h : s.WellFormed ownScope) (hsimple : s.IsSimple) (hne : ∀ semicolon, s ≠ .empty semicolon)
    (hw : Spells s.pieces w) : ∃ t v, w = t :: v ∧ t.kind ∈ simpleStart := by
  cases s with
  | declaration d =>
      obtain ⟨t, v, rfl, ht⟩ := d.exists_first h.1 hw
      exact ⟨t, v, rfl, List.mem_append_left _ ht⟩
  | expression e semicolon =>
      have hkinds : ∀ kind ∈ exprStart, kind ∈ simpleStart := by decide
      obtain ⟨t, v, rfl, ht⟩ := hw.first_append (e.exists_first h.1.2)
      exact ⟨t, v, rfl, hkinds _ ht⟩
  | empty semicolon => exact absurd rfl (hne semicolon)
  | block | ifThen | ifElse | whileLoop | doLoop | forLoop | jump | «return» => exact hsimple.elim

theorem Statement.exists_first {s : Statement} {ownScope : Bool} {w : List Token}
    (h : s.WellFormed ownScope) (hw : Spells s.pieces w) :
    ∃ t v, w = t :: v ∧ t.kind ∈ statementStart ∧
      (t.kind = .operator .openBrace → ∃ b, s = .block b) := by
  have hsimple : (∃ t v, w = t :: v ∧ t.kind ∈ simpleStart) → ∃ t v, w = t :: v ∧
      t.kind ∈ statementStart ∧ (t.kind = .operator .openBrace → ∃ b, s = .block b) := by
    have hbrace : TokenKind.operator .openBrace ∉ simpleStart := by decide
    rintro ⟨t, v, rfl, ht⟩
    exact ⟨t, v, rfl, List.mem_append_right _ ht, fun hkind => absurd (hkind ▸ ht) hbrace⟩
  have hkeyword : ∀ {keyword : Token} {p : List Piece} {k : Keyword}, keyword.kind = .keyword k →
      .keyword k ∈ controlStart → Spells (.kept keyword :: p) w → ∃ t v, w = t :: v ∧
        t.kind ∈ statementStart ∧ (t.kind = .operator .openBrace → ∃ b, s = .block b) := by
    intro keyword p k hk hmem hw
    obtain ⟨v, rfl, -⟩ := Spells.kept_cons_iff.1 hw
    exact ⟨keyword, v, rfl, List.mem_append_left _ (hk ▸ hmem), by simp [hk]⟩
  cases s with
  | declaration d => exact hsimple (exists_first_simple h trivial (by simp) hw)
  | block b =>
      obtain ⟨opening, statements, closing, newScope⟩ := b
      obtain ⟨v, rfl, -⟩ := Spells.kept_cons_iff.1 hw
      have hopening : opening.kind = .operator .openBrace := h.1
      exact ⟨opening, v, rfl, by rw [hopening]; exact List.mem_cons_self, fun _ => ⟨_, rfl⟩⟩
  | expression e semicolon => exact hsimple (exists_first_simple h trivial (by simp) hw)
  | empty semicolon =>
      obtain ⟨v, rfl, -⟩ := Spells.kept_cons_iff.1 hw
      have hsemicolon : semicolon.kind = .operator .semicolon := h
      exact ⟨semicolon, v, rfl, by rw [hsemicolon]; decide, by simp [hsemicolon]⟩
  | ifThen => exact hkeyword h.1 (by decide) hw
  | ifElse => exact hkeyword h.1 (by decide) hw
  | whileLoop => exact hkeyword h.1 (by decide) hw
  | doLoop => exact hkeyword h.1 (by decide) hw
  | forLoop => exact hkeyword h.1 (by decide) hw
  | jump keyword semicolon =>
      obtain ⟨hk | hk | hk, -⟩ := h
      · exact hkeyword hk (by decide) hw
      · exact hkeyword hk (by decide) hw
      · exact hkeyword hk (by decide) hw
  | «return» => exact hkeyword h.1 (by decide) hw

section

variable {inner : Token → Parse Statement} {n : Nat} {t : Token} {w rest : List Token}

/-- Statements of at most so many tokens are read back. -/
def ReadsStatementBack (inner : Token → Parse Statement) (n : Nat) : Prop :=
  ∀ (s : Statement) (w rest : List Token), s.WellFormed true → Spells s.pieces w →
    w.length ≤ n → (s.EndsOpen → ∀ t ∈ rest.head?, t.kind ≠ .keyword .else) →
      Parse.next statementStart inner (w ++ rest) = .ok (s.erase, rest)

/-! ## Blocks and functions -/

theorem blockTail_apply (hinner : ReadsStatementBack inner n) {closing : Token}
    (hclosing : closing.kind = .operator .closeBrace) :
    ∀ (statements : List Statement) (turns : Nat) (w : List Token),
      Statement.AllFormed statements → Spells (Statement.piecesOfAll statements) w →
      w.length ≤ n → w.length < turns →
      blockTail inner turns (w ++ closing :: rest) =
        .ok ((Statement.eraseAll statements, closing), rest)
  | _, 0, w, _, _, _, hturns => absurd hturns (Nat.not_lt_zero _)
  | [], turns + 1, w, _, hw, _, _ => by
      rw [Spells.nil_iff.1 hw, List.nil_append, blockTail, Parse.bind_ok (Parse.take_cons ..)]
      simp only [if_pos (Token.isOperator_iff.2 hclosing)]
      rfl
  | s :: ss, turns + 1, w, h, hw, hlen, hturns => by
      obtain ⟨u, v, rfl, hu, hv⟩ := Spells.append_iff.1 hw
      have helse : ∀ t ∈ (v ++ closing :: rest).head?, t.kind ≠ .keyword .else := by
        cases ss with
        | nil => simp [Spells.nil_iff.1 hv, hclosing]
        | cons s' ss =>
            obtain ⟨t, x, rfl, ht⟩ := hv.first_append (Statement.exists_first h.2.1)
            have hnot : TokenKind.keyword .else ∉ statementStart := by decide
            have hfirst : t.kind ≠ .keyword .else := fun hkind => hnot (hkind ▸ ht.1)
            simpa using hfirst
      obtain ⟨t, x, rfl, ht, -⟩ := Statement.exists_first h.1 hu
      simp only [List.length_append, List.length_cons] at hlen hturns
      have hread : inner t (x ++ (v ++ closing :: rest)) = .ok (s.erase, v ++ closing :: rest) :=
        hinner s (t :: x) (v ++ closing :: rest) h.1 hu (by rw [List.length_cons]; omega) fun _ =>
          helse
      have hmore := blockTail_apply hinner hclosing ss turns v h.2 hv (by omega) (by omega)
      have hbrace : ¬ t.isOperator .closeBrace := by
        have hnot : TokenKind.operator .closeBrace ∉ statementStart := by decide
        exact fun hkind => hnot (Token.isOperator_iff.1 hkind ▸ ht)
      rw [List.append_assoc, List.cons_append, blockTail, Parse.bind_ok (Parse.take_cons ..)]
      simp only [if_neg hbrace]
      rw [Parse.bind_ok hread, Parse.bind_ok hmore]
      rfl

theorem block_apply (hinner : ReadsStatementBack inner n) {b : Block} {ownScope : Bool}
    (h : b.WellFormed ownScope) (hw : Spells b.pieces (t :: w)) (hlen : w.length ≤ n) :
    block inner t ownScope (w ++ rest) = .ok (b.erase, rest) := by
  obtain ⟨opening, statements, closing, newScope⟩ := b
  obtain ⟨-, hall, hclosing, rfl⟩ := h
  obtain ⟨rfl, hinside⟩ := Spells.of_kept_cons hw
  obtain ⟨u, rfl, hu⟩ := Spells.append_kept_iff.1 hinside
  rw [List.length_append] at hlen
  have hread : blockTail inner _ (u ++ closing :: rest) = .ok (_, rest) :=
    blockTail_apply hinner hclosing statements ((u ++ closing :: rest).length + 1) u hall hu
      (by omega) (Parse.length_lt_turns u _)
  rw [List.append_assoc, List.singleton_append, block, Parse.bind_ok (Parse.remaining_apply _),
    Parse.bind_ok hread]
  rfl

theorem function_prototype {header : FunctionHeader} {semicolon : Token} (h : header.WellFormed)
    (hw : Spells (commaBetween (header.parameters.map ParameterSpec.pieces) ++
      [.kept header.closing]) w) (hsemicolon : semicolon.kind = .operator .semicolon) :
    function inner header.returnType.erase header.name header.opening (w ++ semicolon :: rest) =
      .ok (.prototype header.erase semicolon, rest) := by
  have hread : parameters (w ++ semicolon :: rest) = .ok (_, semicolon :: rest) :=
    parameters_apply h.2.2.2.2 h.2.2.2.1 hw
  rw [function, Parse.bind_ok hread]
  simp only []
  rw [Parse.bind_ok (Parse.take_cons ..)]
  simp only [if_pos (Token.isOperator_iff.2 hsemicolon)]
  rfl

theorem function_definition (hinner : ReadsStatementBack inner n) {header : FunctionHeader}
    {body : Block} {x : List Token} (h : header.WellFormed) (hbody : body.WellFormed false)
    (hw : Spells (commaBetween (header.parameters.map ParameterSpec.pieces) ++
      [.kept header.closing]) w) (hx : Spells body.pieces x) (hlen : x.length ≤ n) :
    function inner header.returnType.erase header.name header.opening (w ++ (x ++ rest)) =
      .ok (.function header.erase body.erase, rest) := by
  have hread : parameters (w ++ (x ++ rest)) = .ok (_, x ++ rest) :=
    parameters_apply h.2.2.2.2 h.2.2.2.1 hw
  obtain ⟨opening, statements, closing, newScope⟩ := body
  obtain ⟨v, rfl, -⟩ := Spells.kept_cons_iff.1 hx
  have hopening : opening.kind = .operator .openBrace := hbody.1
  have hsemicolon : ¬ opening.isOperator .semicolon := by simp [Token.isOperator, hopening]
  rw [List.length_cons] at hlen
  rw [function, Parse.bind_ok hread]
  simp only []
  rw [List.cons_append, Parse.bind_ok (Parse.take_cons ..)]
  simp only [if_neg hsemicolon, if_pos (Token.isOperator_iff.2 hopening)]
  rw [Parse.bind_ok (block_apply hinner hbody hx (by omega))]
  rfl

/-! ## Declarations -/

theorem typedDeclaration_header {header : FunctionHeader} (h : header.WellFormed) :
    typedDeclaration inner header.returnType.erase (header.name :: header.opening :: rest) =
      function inner header.returnType.erase header.name header.opening rest := by
  rw [typedDeclaration, Parse.bind_ok (Parse.accept_of_head (by simp [h.2.1]))]
  simp only []
  rw [Parse.bind_ok (next_identifier h.2.1 _), Parse.bind_ok (Parse.accept_cons h.2.2.1 _)]

theorem Declarator.WellFormed.not_openParen {d : Declarator} (h : d.WellFormed)
    (hw : Spells d.pieces (d.name :: w)) (hrest : EndsDeclarator rest) :
    ∀ t ∈ (w ++ rest).head?, t.kind ≠ .operator .openParen := by
  obtain ⟨name, size, initializer, type, symbol⟩ := d
  obtain ⟨-, hparts⟩ := Spells.of_kept_cons hw
  cases size with
  | some size =>
      obtain ⟨v, rfl, -⟩ := Spells.kept_cons_iff.1 hparts
      have hopening : size.opening.kind = .operator .openBracket := (h.2.1 size rfl).1
      simp [hopening]
  | none =>
      cases initializer with
      | some e =>
          obtain ⟨assign, v, rfl, hassign, -⟩ := Spells.separator_cons_iff.1 hparts
          have hkind : assign.kind = .operator .assign := hassign
          simp [hkind]
      | none =>
          rw [Spells.nil_iff.1 hparts]
          exact hrest.ne (by decide) (by decide)

theorem typedDeclaration_declarators {s : TypeSpec} {ds : List Declarator} {semicolon : Token}
    (hne : ds ≠ []) (hall : ∀ d ∈ ds, d.WellFormed)
    (hsemicolon : semicolon.kind = .operator .semicolon)
    (hw : Spells (commaBetween (ds.map Declarator.pieces) ++ [.kept semicolon]) w) :
    typedDeclaration inner s.erase (w ++ rest) =
      .ok ((Declaration.declarators s ds semicolon).erase, rest) := by
  obtain ⟨d, ds, rfl⟩ := List.exists_cons_of_ne_nil hne
  have hd := hall d List.mem_cons_self
  rw [List.map_cons, commaBetween, List.append_assoc] at hw
  obtain ⟨u, v, rfl, hu, hv⟩ := Spells.append_iff.1 hw
  obtain ⟨x, rfl, -⟩ := Spells.kept_cons_iff.1 hu
  have hends : EndsDeclarator (v ++ rest) := endsDeclarator_commaBefore hsemicolon hv
  have hread : declarator d.name (x ++ (v ++ rest)) = .ok (d.erase, v ++ rest) :=
    declarator_apply hd hu hends
  have hmore : moreDeclarators _ _ _ (v ++ rest) = .ok (_, rest) :=
    moreDeclarators_apply hsemicolon ds ((v ++ rest).length + 1) true d.erase v
      (fun e he => hall e (List.mem_cons_of_mem d he)) hv (Nat.le_of_lt (Parse.length_lt_turns v rest))
  rw [List.append_assoc, List.cons_append, typedDeclaration,
    Parse.bind_ok (Parse.accept_of_head (by simp [hd.1]))]
  simp only []
  rw [Parse.bind_ok (next_identifier hd.1 _),
    Parse.bind_ok (Parse.accept_of_head (hd.not_openParen hu hends))]
  simp only []
  rw [Parse.bind_ok hread, Parse.bind_ok (Parse.remaining_apply _), Parse.bind_ok hmore]
  rfl

theorem typedDeclaration_type {s : TypeSpec} {semicolon : Token}
    (hsemicolon : semicolon.kind = .operator .semicolon) :
    typedDeclaration inner s.erase (semicolon :: rest) =
      .ok ((Declaration.type s semicolon).erase, rest) := by
  rw [typedDeclaration, Parse.bind_ok (Parse.accept_cons hsemicolon _)]
  rfl

theorem TypeSpec.FullFormed.varying_of_invariant {s : TypeSpec} (h : s.FullFormed)
    (hw : Spells s.pieces (t :: w)) (ht : t.kind = .keyword (.qualifier .invariant)) :
    (w ++ rest).head?.map Token.kind = some (.keyword (.qualifier .varying)) := by
  have hallowed := h.1.1
  cases hstorage : s.qualifiers.storage with
  | nil =>
      have hfirst := first_of_cons (PreciseFormed.exists_first ⟨⟨hstorage, h.1.2⟩, h.2⟩ hw)
      rw [ht] at hfirst
      exact absurd hfirst (by decide)
  | cons word words =>
      rw [hstorage] at hallowed
      rw [pieces, TypeQualifiers.pieces, hstorage] at hw
      obtain ⟨rfl, hafter⟩ := Spells.of_kept_cons hw
      obtain ⟨-, ⟨-, hnot⟩ | ⟨varying, rfl, -, hvarying⟩⟩ := hallowed.eq_of_cons
      · exact absurd ht hnot
      · obtain ⟨v, rfl, -⟩ := Spells.kept_cons_iff.1 hafter
        simp [hvarying]

/-- After `invariant` a type goes on with `varying`, so it is not taken for a list of names. -/
theorem declaration_typed {s : TypeSpec} (hs : s.FullFormed) (hw : Spells s.pieces (t :: w)) :
    declaration inner t (w ++ rest) = typedDeclaration inner s.erase rest := by
  have ht := first_of_cons (hs.exists_first hw)
  have hprecision : ¬ t.isKeyword .precision := by
    have hnot : TokenKind.keyword .precision ∉ qualifiedTypeStart := by decide
    exact fun hkind => hnot (Token.isKeyword_iff.1 hkind ▸ ht)
  have hvarying : ¬ (t.isKeyword (.qualifier .invariant) &&
      (w ++ rest).head?.map Token.kind != some (.keyword (.qualifier .varying))) := by
    intro hboth
    obtain ⟨hinvariant, hother⟩ := Bool.and_eq_true_iff.1 hboth
    exact bne_iff_ne.1 hother (hs.varying_of_invariant hw (Token.isKeyword_iff.1 hinvariant))
  rw [declaration, if_neg hprecision, Parse.bind_ok (Parse.peekKind_apply _), if_neg hvarying,
    Rule.parse_of_mem ht, Parse.bind_ok (qualifiedTypeRule_body hs hw)]

/-- The tokens of a function up to its return type, after it, and after the header. -/
theorem FunctionHeader.WellFormed.exists_parts {header : FunctionHeader} {q : List Piece}
    (h : header.WellFormed) (hw : Spells (header.pieces ++ q) (t :: w)) :
    ∃ u v x, w = u ++ header.name :: header.opening :: (v ++ x) ∧
      Spells header.returnType.pieces (t :: u) ∧
      Spells (commaBetween (header.parameters.map ParameterSpec.pieces) ++
        [.kept header.closing]) v ∧ Spells q x := by
  rw [pieces, List.append_assoc] at hw
  obtain ⟨u, y, rfl, hu, hy⟩ := hw.append_of_first h.1.exists_first
  obtain ⟨z, x, rfl, hz, hx⟩ := Spells.append_iff.1 hy
  obtain ⟨_, rfl, hopening⟩ := Spells.kept_cons_iff.1 hz
  obtain ⟨v, rfl, hv⟩ := Spells.kept_cons_iff.1 hopening
  exact ⟨u, v, x, rfl, hu, hv, hx⟩

theorem declaration_apply (hinner : ReadsStatementBack inner n) {d : Declaration}
    (h : d.WellFormed) (hw : Spells d.pieces (t :: w)) (hlen : w.length ≤ n) :
    declaration inner t (w ++ rest) = .ok (d.erase, rest) := by
  cases d with
  | declarators s ds semicolon =>
      obtain ⟨u, v, rfl, hu, hv⟩ := Spells.append_of_first hw h.1.exists_first
      rw [List.append_assoc, declaration_typed h.1 hu]
      exact typedDeclaration_declarators h.2.1 h.2.2.1 h.2.2.2 hv
  | type s semicolon =>
      obtain ⟨u, v, rfl, hu, hv⟩ := Spells.append_of_first hw h.1.exists_first
      obtain ⟨_, rfl, hnil⟩ := Spells.kept_cons_iff.1 hv
      obtain rfl := Spells.nil_iff.1 hnil
      rw [List.append_assoc, declaration_typed h.1 hu]
      exact typedDeclaration_type h.2
  | precision keyword precision s semicolon =>
      obtain ⟨rfl, -⟩ := Spells.of_kept_cons hw
      rw [declaration, if_pos (Token.isKeyword_iff.2 h.1)]
      exact precisionDeclaration_apply h hw
  | invariants keyword names semicolon =>
      obtain ⟨rfl, hnames⟩ := Spells.of_kept_cons hw
      have hfirst : (w ++ rest).head?.map Token.kind = some .identifier := by
        obtain ⟨name, names, rfl⟩ := List.exists_cons_of_ne_nil h.2.1
        obtain ⟨v, rfl, -⟩ := Spells.kept_cons_iff.1 hnames
        simp [h.2.2.1 name List.mem_cons_self]
      have hprecision : ¬ t.isKeyword .precision := by
        rw [Token.isKeyword_iff, show t.kind = _ from h.1]
        decide
      have hvarying : t.isKeyword (.qualifier .invariant) &&
          (w ++ rest).head?.map Token.kind != some (.keyword (.qualifier .varying)) := by
        rw [Token.isKeyword_iff.2 h.1, hfirst]
        rfl
      rw [declaration, if_neg hprecision, Parse.bind_ok (Parse.peekKind_apply _), if_pos hvarying]
      exact invariantDeclaration_apply h hw
  | prototype header semicolon =>
      obtain ⟨u, v, x, rfl, hu, hv, hx⟩ := h.1.exists_parts hw
      obtain ⟨_, rfl, hnil⟩ := Spells.kept_cons_iff.1 hx
      have happend : u ++ header.name :: header.opening :: (v ++ [semicolon]) ++ rest =
          u ++ header.name :: header.opening :: (v ++ semicolon :: rest) := by simp
      rw [Spells.nil_iff.1 hnil, happend, declaration_typed h.1.1 hu, typedDeclaration_header h.1]
      exact function_prototype h.1 hv h.2
  | function header body =>
      rw [Declaration.pieces] at hw
      obtain ⟨u, v, x, rfl, hu, hv, hx⟩ := FunctionHeader.WellFormed.exists_parts h.1 hw
      simp only [List.length_append, List.length_cons] at hlen
      have happend : u ++ header.name :: header.opening :: (v ++ x) ++ rest =
          u ++ header.name :: header.opening :: (v ++ (x ++ rest)) := by simp
      rw [happend, declaration_typed h.1.1 hu, typedDeclaration_header h.1]
      exact function_definition hinner h.1 h.2 hv hx (by omega)

/-! ## Statements -/

theorem Declaration.startsDeclaration {d : Declaration} (h : d.WellFormed)
    (hopens : d.OpensStatement) (hw : Spells d.pieces (t :: w)) :
    startsDeclaration t ((w ++ rest).head?.map Token.kind) = true := by
  have htyped : ∀ {s : TypeSpec} {u v : List Token} {next : Token}, s.FullFormed →
      Spells s.pieces (t :: u) → next.kind = .identifier →
      Grammar.startsDeclaration t ((u ++ next :: v ++ rest).head?.map Token.kind) = true := by
    intro s u v next hs hu hnext
    rw [List.append_assoc, List.cons_append]
    exact hs.startsDeclaration hu (.inl hnext)
  cases d with
  | declarators s ds semicolon =>
      obtain ⟨d, ds, rfl⟩ := List.exists_cons_of_ne_nil h.2.1
      obtain ⟨u, v, rfl, hu, hv⟩ := Spells.append_of_first hw h.1.exists_first
      obtain ⟨v, rfl, -⟩ := Spells.kept_cons_iff.1 hv
      exact htyped h.1 hu (h.2.2.1 d List.mem_cons_self).1
  | type s semicolon =>
      obtain ⟨u, v, rfl, hu, hv⟩ := Spells.append_of_first hw h.1.exists_first
      obtain ⟨_, rfl, hnil⟩ := Spells.kept_cons_iff.1 hv
      obtain rfl := Spells.nil_iff.1 hnil
      have hname : t.kind ≠ .identifier := by
        intro ht
        obtain ⟨-, type, rfl⟩ := h.1.eq_of_name hu (by rw [ht]; decide)
        exact hopens TypeQualifiers.bare_none ht
      rw [List.append_assoc]
      exact h.1.startsDeclaration hu (.inr ⟨h.2, hname⟩)
  | precision keyword precision s semicolon =>
      obtain ⟨hfirst, -⟩ := Spells.of_kept_cons hw
      rw [hfirst, Grammar.startsDeclaration, show keyword.kind = _ from h.1]
  | invariants keyword names semicolon =>
      obtain ⟨hfirst, -⟩ := Spells.of_kept_cons hw
      rw [hfirst]
      exact startsDeclaration_keyword (by rw [show keyword.kind = _ from h.1]; decide)
  | prototype header semicolon =>
      obtain ⟨u, v, x, rfl, hu, -⟩ := h.1.exists_parts hw
      exact htyped h.1.1 hu h.1.2.1
  | function header body =>
      rw [pieces] at hw
      obtain ⟨u, v, x, rfl, hu, -⟩ := FunctionHeader.WellFormed.exists_parts h.1 hw
      exact htyped h.1.1 hu h.1.2.1

theorem simpleStatement_apply (hinner : ReadsStatementBack inner n) {s : Statement}
    {ownScope : Bool} (h : s.WellFormed ownScope) (hsimple : s.IsSimple)
    (hne : ∀ semicolon, s ≠ .empty semicolon) (hw : Spells s.pieces (t :: w))
    (hlen : w.length ≤ n) : simpleStatement inner t (w ++ rest) = .ok (s.erase, rest) := by
  cases s with
  | declaration d =>
      obtain ⟨hd, hopens⟩ := h
      have hstarts : startsDeclaration t ((w ++ rest).head?.map Token.kind) = true :=
        d.startsDeclaration hd hopens hw
      have ht := first_of_cons (Declaration.exists_first hd hw)
      have hread : (declarationRuleOf inner).body t (w ++ rest) = .ok (d.erase, rest) :=
        declaration_apply hinner hd hw hlen
      rw [simpleStatement, Parse.bind_ok (Parse.peekKind_apply _), if_pos hstarts,
        Rule.parseLookedAhead_of_mem ht, Parse.bind_ok hread]
      rfl
  | expression e semicolon =>
      obtain ⟨⟨hrank, he⟩, hsemicolon⟩ := h
      have ht := first_of_cons (Spells.first_append hw (e.exists_first he))
      obtain ⟨u, v, rfl, hu, hv⟩ := Spells.append_of_first hw (e.exists_first he)
      obtain ⟨_, rfl, hnil⟩ := Spells.kept_cons_iff.1 hv
      obtain rfl := Spells.nil_iff.1 hnil
      have hstarts : ¬ startsDeclaration t ((u ++ semicolon :: rest).head?.map Token.kind) := by
        rw [Expr.looksLikeExpr he hu (by simp [hsemicolon])]
        exact Bool.false_ne_true
      have hread : expressionRule.body t (u ++ semicolon :: rest) =
          .ok (e.erase, semicolon :: rest) :=
        expressionRule_body ⟨hrank, he, hu⟩
          (Stops.of_none (Token.hold?_closing hsemicolon (by decide)))
      rw [List.append_assoc, List.singleton_append, simpleStatement,
        Parse.bind_ok (Parse.peekKind_apply _), if_neg hstarts, Rule.parseLookedAhead_of_mem ht,
        Parse.bind_ok hread, Parse.bind_ok (Parse.requireOperator_cons hsemicolon _)]
      rfl
  | empty semicolon => exact absurd rfl (hne semicolon)
  | block | ifThen | ifElse | whileLoop | doLoop | forLoop | jump | «return» => exact hsimple.elim

theorem Condition.exists_first {c : Condition} (h : c.WellFormed) (hw : Spells c.pieces w) :
    ∃ t v, w = t :: v ∧ t.kind ∈ simpleStart := by
  cases c with
  | expression e =>
      have hkinds : ∀ kind ∈ exprStart, kind ∈ simpleStart := by decide
      obtain ⟨t, v, rfl, ht⟩ := e.exists_first h.2 hw
      exact ⟨t, v, rfl, hkinds _ ht⟩
  | declaration s d =>
      obtain ⟨t, v, rfl, ht⟩ := hw.first_append h.1.exists_first
      exact ⟨t, v, rfl, List.mem_append_left _ (List.mem_cons_of_mem _ ht)⟩

theorem condition_apply {c : Condition} (h : c.WellFormed) (hw : Spells c.pieces w)
    (hrest : Stops 0 rest) (hname : ∀ t ∈ rest.head?, t.kind ≠ .identifier) :
    condition (w ++ rest) = .ok (c.erase, rest) := by
  cases c with
  | expression e =>
      obtain ⟨hrank, he⟩ := h
      obtain ⟨t, w, rfl, ht⟩ := e.exists_first he hw
      have hstarts : ¬ startsDeclaration t ((w ++ rest).head?.map Token.kind) := by
        rw [Expr.looksLikeExpr he hw hname]
        exact Bool.false_ne_true
      rw [condition, List.cons_append, Parse.next_cons, Parse.bind_ok (Parse.peekKind_apply _),
        if_neg hstarts, Rule.parseLookedAhead_of_mem ht,
        Parse.bind_ok (expressionRule_body ⟨hrank, he, hw⟩ hrest)]
      rfl
  | declaration s d =>
      obtain ⟨hs, ⟨hdname, -, hdinit⟩, hsize, hinit⟩ := h
      obtain ⟨u, v, rfl, hu, hv⟩ := Spells.append_iff.1 hw
      obtain ⟨t, u, rfl, ht⟩ := hs.exists_first hu
      obtain ⟨e, he⟩ := Option.ne_none_iff_exists'.1 hinit
      rw [Declarator.pieces, hsize, he] at hv
      obtain ⟨_, rfl, hassigned⟩ := Spells.kept_cons_iff.1 hv
      obtain ⟨assign, v, rfl, hassign, hvalue⟩ := Spells.separator_cons_iff.1 hassigned
      have hkind : assign.kind = .operator .assign := hassign
      have hlevel := hdinit e he
      have hstarts : startsDeclaration t
          ((u ++ d.name :: assign :: (v ++ rest)).head?.map Token.kind) = true :=
        hs.startsDeclaration hu (.inl hdname)
      have happend : t :: u ++ d.name :: assign :: v ++ rest =
          t :: (u ++ d.name :: assign :: (v ++ rest)) := by simp
      have hread : assignmentRule.next (v ++ rest) = .ok (e.erase, rest) :=
        assignmentRule_next ⟨hlevel.1, hlevel.2, hvalue⟩ (hrest.mono (Nat.zero_le 1))
      rw [condition, happend, Parse.next_cons, Parse.bind_ok (Parse.peekKind_apply _),
        if_pos hstarts, Rule.parseLookedAhead_of_mem ht,
        Parse.bind_ok (qualifiedTypeRule_body hs hu),
        Parse.bind_ok (Parse.require_cons (by simp [hdname]) _),
        Parse.bind_ok (Parse.requireOperator_cons hkind _), Parse.bind_ok hread]
      simp only [Condition.erase, Declarator.erase, hsize, he]
      rfl

theorem loopBody_apply (hinner : ReadsStatementBack inner n) {s : Statement}
    (h : s.WellFormed false) (hw : Spells s.pieces w) (hlen : w.length ≤ n)
    (helse : s.EndsOpen → ∀ t ∈ rest.head?, t.kind ≠ .keyword .else) :
    loopBody inner (w ++ rest) = .ok (s.erase, rest) := by
  obtain ⟨t, w, rfl, -, hblock⟩ := Statement.exists_first h hw
  by_cases ht : t.kind = .operator .openBrace
  · obtain ⟨b, rfl⟩ := hblock ht
    rw [Statement.pieces] at hw
    rw [List.length_cons] at hlen
    rw [List.cons_append, loopBody, Parse.bind_ok (Parse.accept_cons ht _)]
    simp only []
    rw [Parse.bind_ok (block_apply hinner h hw (by omega))]
    rfl
  · have hread := hinner s (t :: w) rest (h.of_not_block hw ht true) hw hlen helse
    rw [List.cons_append, loopBody, Parse.bind_ok (Parse.accept_of_head (by simpa using ht))]
    exact hread

/-- What an expression in parentheses is followed by does not go on after it. -/
theorem stops_closeParen {closing : Token} (h : closing.kind = .operator .closeParen) :
    Stops 0 (closing :: rest) :=
  Stops.of_none (Token.hold?_closing h (by decide))

theorem stops_semicolon {semicolon : Token} (h : semicolon.kind = .operator .semicolon) :
    Stops 0 (semicolon :: rest) :=
  Stops.of_none (Token.hold?_closing h (by decide))

theorem ifStatement_then (hinner : ReadsStatementBack inner n) {opening closing : Token}
    {condition : Expr} {whenTrue : Statement}
    (h : (Statement.ifThen t opening condition closing whenTrue).WellFormed true)
    (hw : Spells (Statement.ifThen t opening condition closing whenTrue).pieces (t :: w))
    (hlen : w.length ≤ n) (helse : ∀ t ∈ rest.head?, t.kind ≠ .keyword .else) :
    ifStatement inner t (w ++ rest) =
      .ok ((Statement.ifThen t opening condition closing whenTrue).erase, rest) := by
  obtain ⟨-, hopening, ⟨hrank, hcondition⟩, hclosing, htrue⟩ := h
  obtain ⟨-, hparts⟩ := Spells.of_kept_cons hw
  simp only [Spells.kept_cons_iff, Spells.append_iff] at hparts
  obtain ⟨_, rfl, u, _, rfl, hu, v, rfl, hv⟩ := hparts
  simp only [List.length_append, List.length_cons] at hlen
  have happend : opening :: (u ++ closing :: v) ++ rest =
      opening :: (u ++ closing :: (v ++ rest)) := by simp
  have hread := hinner whenTrue v rest htrue hv (by omega) fun _ => helse
  rw [happend, ifStatement, Parse.bind_ok (Parse.requireOperator_cons hopening _),
    Parse.bind_ok (expressionRule_next ⟨hrank, hcondition, hu⟩ (stops_closeParen hclosing)),
    Parse.bind_ok (Parse.requireOperator_cons hclosing _), Parse.bind_ok hread,
    Parse.bind_ok (Parse.accept_of_head helse)]
  rfl

/-- A conditional before an `else` has one already, or it would be read as part of it. -/
theorem ifStatement_else (hinner : ReadsStatementBack inner n) {opening closing otherwise : Token}
    {condition : Expr} {whenTrue whenFalse : Statement}
    (h : (Statement.ifElse t opening condition closing whenTrue otherwise whenFalse).WellFormed
      true)
    (hw : Spells (Statement.ifElse t opening condition closing whenTrue otherwise whenFalse).pieces
      (t :: w)) (hlen : w.length ≤ n)
    (helse : whenFalse.EndsOpen → ∀ t ∈ rest.head?, t.kind ≠ .keyword .else) :
    ifStatement inner t (w ++ rest) =
      .ok ((Statement.ifElse t opening condition closing whenTrue otherwise whenFalse).erase,
        rest) := by
  obtain ⟨-, hopening, ⟨hrank, hcondition⟩, hclosing, htrue, hends, hotherwise, hfalse⟩ := h
  obtain ⟨-, hparts⟩ := Spells.of_kept_cons hw
  simp only [Spells.kept_cons_iff, Spells.append_iff] at hparts
  obtain ⟨_, rfl, u, _, rfl, hu, _, rfl, v, _, rfl, hv, x, rfl, hx⟩ := hparts
  simp only [List.length_append, List.length_cons] at hlen
  have happend : opening :: (u ++ closing :: (v ++ otherwise :: x)) ++ rest =
      opening :: (u ++ closing :: (v ++ otherwise :: (x ++ rest))) := by simp
  have hread := hinner whenTrue v (otherwise :: (x ++ rest)) htrue hv (by omega)
    fun hopen => absurd hopen hends
  have hread' := hinner whenFalse x rest hfalse hx (by omega) helse
  rw [happend, ifStatement, Parse.bind_ok (Parse.requireOperator_cons hopening _),
    Parse.bind_ok (expressionRule_next ⟨hrank, hcondition, hu⟩ (stops_closeParen hclosing)),
    Parse.bind_ok (Parse.requireOperator_cons hclosing _), Parse.bind_ok hread,
    Parse.bind_ok (Parse.accept_cons hotherwise _)]
  simp only []
  rw [Parse.bind_ok hread']
  rfl

theorem whileStatement_apply (hinner : ReadsStatementBack inner n) {opening closing : Token}
    {condition : Condition} {body : Statement}
    (h : (Statement.whileLoop t opening condition closing body).WellFormed true)
    (hw : Spells (Statement.whileLoop t opening condition closing body).pieces (t :: w))
    (hlen : w.length ≤ n) (helse : body.EndsOpen → ∀ t ∈ rest.head?, t.kind ≠ .keyword .else) :
    whileStatement inner t (w ++ rest) =
      .ok ((Statement.whileLoop t opening condition closing body).erase, rest) := by
  obtain ⟨-, hopening, hcondition, hclosing, hbody⟩ := h
  obtain ⟨-, hparts⟩ := Spells.of_kept_cons hw
  simp only [Spells.kept_cons_iff, Spells.append_iff] at hparts
  obtain ⟨_, rfl, u, _, rfl, hu, v, rfl, hv⟩ := hparts
  simp only [List.length_append, List.length_cons] at hlen
  have happend : opening :: (u ++ closing :: v) ++ rest =
      opening :: (u ++ closing :: (v ++ rest)) := by simp
  have hread : Grammar.condition (u ++ closing :: (v ++ rest)) = .ok (_, closing :: (v ++ rest)) :=
    condition_apply hcondition hu (stops_closeParen hclosing) (by simp [hclosing])
  rw [happend, whileStatement, Parse.bind_ok (Parse.requireOperator_cons hopening _),
    Parse.bind_ok hread, Parse.bind_ok (Parse.requireOperator_cons hclosing _),
    Parse.bind_ok (loopBody_apply hinner hbody hv (by omega) helse)]
  rfl

theorem doStatement_apply (hinner : ReadsStatementBack inner n)
    {whileWord opening closing semicolon : Token} {condition : Expr} {body : Statement}
    (h : (Statement.doLoop t body whileWord opening condition closing semicolon).WellFormed true)
    (hw : Spells (Statement.doLoop t body whileWord opening condition closing semicolon).pieces
      (t :: w)) (hlen : w.length ≤ n) :
    doStatement inner t (w ++ rest) =
      .ok ((Statement.doLoop t body whileWord opening condition closing semicolon).erase, rest) := by
  obtain ⟨-, hbody, hwhile, hopening, ⟨hrank, hcondition⟩, hclosing, hsemicolon⟩ := h
  obtain ⟨-, hparts⟩ := Spells.of_kept_cons hw
  simp only [Spells.kept_cons_iff, Spells.append_iff, Spells.nil_iff] at hparts
  obtain ⟨v, _, rfl, hv, _, rfl, _, rfl, u, _, rfl, hu, _, rfl, _, rfl, rfl⟩ := hparts
  simp only [List.length_append, List.length_cons] at hlen
  have happend : v ++ whileWord :: opening :: (u ++ [closing, semicolon]) ++ rest =
      v ++ whileWord :: opening :: (u ++ closing :: semicolon :: rest) := by simp
  have hread := hinner body v (whileWord :: opening :: (u ++ closing :: semicolon :: rest)) hbody hv
    (by omega) (fun _ => by simp [hwhile])
  rw [happend, doStatement, Parse.bind_ok hread,
    Parse.bind_ok (Parse.require_cons (by simp [hwhile]) _),
    Parse.bind_ok (Parse.requireOperator_cons hopening _),
    Parse.bind_ok (expressionRule_next ⟨hrank, hcondition, hu⟩ (stops_closeParen hclosing)),
    Parse.bind_ok (Parse.requireOperator_cons hclosing _),
    Parse.bind_ok (Parse.requireOperator_cons hsemicolon _)]
  rfl

theorem returnStatement_apply {value : Option Expr} {semicolon : Token}
    (h : (Statement.return t value semicolon).WellFormed true)
    (hw : Spells (Statement.return t value semicolon).pieces (t :: w)) :
    returnStatement t (w ++ rest) = .ok ((Statement.return t value semicolon).erase, rest) := by
  obtain ⟨-, hvalue, hsemicolon⟩ := h
  obtain ⟨-, hparts⟩ := Spells.of_kept_cons hw
  simp only [Spells.kept_cons_iff, Spells.append_iff, Spells.nil_iff] at hparts
  obtain ⟨u, _, rfl, hu, _, rfl, rfl⟩ := hparts
  rw [List.append_assoc, List.singleton_append]
  cases value with
  | none =>
      rw [Spells.nil_iff.1 hu, List.nil_append, returnStatement,
        Parse.bind_ok (Parse.accept_cons hsemicolon _)]
      rfl
  | some e =>
      have he : e.Covers 0 u := ⟨(hvalue e rfl).1, (hvalue e rfl).2, hu⟩
      have hhead : ∀ t ∈ (u ++ semicolon :: rest).head?, t.kind ≠ .operator .semicolon :=
        he.head_ne (by decide) _
      rw [returnStatement, Parse.bind_ok (Parse.accept_of_head hhead)]
      simp only []
      rw [Parse.bind_ok (expressionRule_next he (stops_semicolon hsemicolon)),
        Parse.bind_ok (Parse.requireOperator_cons hsemicolon _)]
      rfl

theorem forInit_apply (hinner : ReadsStatementBack inner n) {init : Statement}
    (h : init.WellFormed true) (hsimple : init.IsSimple) (hw : Spells init.pieces w)
    (hlen : w.length ≤ n) :
    Parse.next forInitStart (forInit inner) (w ++ rest) = .ok (init.erase, rest) := by
  by_cases hempty : ∃ semicolon, init = .empty semicolon
  · obtain ⟨semicolon, rfl⟩ := hempty
    obtain ⟨_, rfl, hnil⟩ := Spells.kept_cons_iff.1 hw
    rw [Spells.nil_iff.1 hnil, List.cons_append, Parse.next_cons, forInit,
      if_pos (Token.isOperator_iff.2 h)]
    rfl
  · have hne : ∀ semicolon, init ≠ .empty semicolon := fun semicolon heq => hempty ⟨semicolon, heq⟩
    obtain ⟨t, v, rfl, ht⟩ := Statement.exists_first_simple h hsimple hne hw
    have hsemicolon : ¬ t.isOperator .semicolon := by
      have hnot : TokenKind.operator .semicolon ∉ simpleStart := by decide
      exact fun hkind => hnot (Token.isOperator_iff.1 hkind ▸ ht)
    rw [List.length_cons] at hlen
    rw [List.cons_append, Parse.next_cons, forInit, if_neg hsemicolon, if_pos (by simpa using ht)]
    exact simpleStatement_apply hinner h hsimple hne hw (by omega)

/-- A part that is left out where a certain token follows. -/
theorem unless_apply {α β : Type} {p : Parse α} {k : Option α → Parse β} {o : Option α}
    {pieces : α → List Piece} {erase : α → α} {closing : Token} {kind : TokenKind}
    (hclosing : closing.kind = kind) (hw : Spells (o.elim [] pieces) w)
    (hsome : ∀ a ∈ o, (∀ t ∈ (w ++ closing :: rest).head?, t.kind ≠ kind) ∧
      p (w ++ closing :: rest) = .ok (erase a, closing :: rest)) :
    (if (w ++ closing :: rest).head?.map Token.kind = some kind then pure none >>= k
      else some <$> p >>= k) (w ++ closing :: rest) = k (o.map erase) (closing :: rest) := by
  cases o with
  | none =>
      rw [Spells.nil_iff.1 hw, List.nil_append, if_pos (by simp [hclosing])]
      rfl
  | some a =>
      obtain ⟨hhead, hread⟩ := hsome a rfl
      have hnot : ¬ (w ++ closing :: rest).head?.map Token.kind = some kind := by
        simpa using hhead
      have hmap : (some <$> p) (w ++ closing :: rest) = .ok (some (erase a), closing :: rest) := by
        rw [map_eq_pure_bind, Parse.bind_ok hread]
        rfl
      rw [if_neg hnot, Parse.bind_ok hmap]
      rfl

theorem forStatement_apply (hinner : ReadsStatementBack inner n)
    {opening semicolon closing : Token} {init body : Statement} {condition : Option Condition}
    {increment : Option Expr}
    (h : (Statement.forLoop t opening init condition semicolon increment closing body).WellFormed
      true)
    (hw : Spells (Statement.forLoop t opening init condition semicolon increment closing
      body).pieces (t :: w)) (hlen : w.length ≤ n)
    (helse : body.EndsOpen → ∀ t ∈ rest.head?, t.kind ≠ .keyword .else) :
    forStatement inner t (w ++ rest) =
      .ok ((Statement.forLoop t opening init condition semicolon increment closing body).erase,
        rest) := by
  obtain ⟨-, hopening, hinit, hsimple, hcondition, hsemicolon, hincrement, hclosing, hbody⟩ := h
  obtain ⟨-, hparts⟩ := Spells.of_kept_cons hw
  simp only [Spells.kept_cons_iff, Spells.append_iff] at hparts
  obtain ⟨_, rfl, u, _, rfl, hu, v, _, rfl, hv, _, rfl, x, _, rfl, hx, y, rfl, hy⟩ := hparts
  simp only [List.length_append, List.length_cons] at hlen
  have happend : opening :: (u ++ (v ++ semicolon :: (x ++ closing :: y))) ++ rest =
      opening :: (u ++ (v ++ semicolon :: (x ++ closing :: (y ++ rest)))) := by simp
  have hconditionRead : ∀ c ∈ condition,
      (∀ t ∈ (v ++ semicolon :: (x ++ closing :: (y ++ rest))).head?,
        t.kind ≠ .operator .semicolon) ∧
      Grammar.condition (v ++ semicolon :: (x ++ closing :: (y ++ rest))) =
        .ok (c.erase, semicolon :: (x ++ closing :: (y ++ rest))) := by
    rintro c rfl
    exact ⟨head_ne_of_first (Condition.exists_first (hcondition c rfl) hv) (by decide) _,
      condition_apply (hcondition c rfl) hv (stops_semicolon hsemicolon) (by simp [hsemicolon])⟩
  have hincrementRead : ∀ e ∈ increment,
      (∀ t ∈ (x ++ closing :: (y ++ rest)).head?, t.kind ≠ .operator .closeParen) ∧
      expressionRule.next (x ++ closing :: (y ++ rest)) = .ok (e.erase, closing :: (y ++ rest)) := by
    rintro e rfl
    have he : e.Covers 0 x := ⟨(hincrement e rfl).1, (hincrement e rfl).2, hx⟩
    exact ⟨he.head_ne (by decide) _, expressionRule_next he (stops_closeParen hclosing)⟩
  rw [happend, forStatement, Parse.bind_ok (Parse.requireOperator_cons hopening _),
    Parse.bind_ok (forInit_apply hinner hinit hsimple hu (by omega)),
    Parse.bind_ok (Parse.peekKind_apply _)]
  refine (unless_apply hsemicolon hv hconditionRead).trans ?_
  dsimp only
  rw [Parse.bind_ok (Parse.requireOperator_cons hsemicolon _),
    Parse.bind_ok (Parse.peekKind_apply _)]
  refine (unless_apply hclosing hx hincrementRead).trans ?_
  rw [Parse.bind_ok (Parse.requireOperator_cons hclosing _),
    Parse.bind_ok (loopBody_apply hinner hbody hy (by omega) helse)]
  rfl

theorem statement_of_simple (ht : t.kind ∈ simpleStart) :
    statement inner t = simpleStatement inner t := by
  have hcontrol : ∀ kind ∈ controlStart, t.kind ≠ kind := by
    have hdisjoint : ∀ kind ∈ controlStart, kind ∉ simpleStart := by decide
    exact fun kind hkind heq => hdisjoint kind hkind (heq ▸ ht)
  rw [statement]
  split
  · exact absurd ‹_› (hcontrol _ (by decide))
  · exact absurd ‹_› (hcontrol _ (by decide))
  · exact absurd ‹_› (hcontrol _ (by decide))
  · exact absurd ‹_› (hcontrol _ (by decide))
  · exact absurd ‹_› (hcontrol _ (by decide))
  · exact absurd ‹_› (hcontrol _ (by decide))
  · exact absurd ‹_› (hcontrol _ (by decide))
  · exact absurd ‹_› (hcontrol _ (by decide))
  · exact absurd ‹_› (hcontrol _ (by decide))
  · exact absurd ‹_› (hcontrol _ (by decide))
  · rw [if_pos (by simpa using ht)]

theorem statement_apply (hinner : ReadsStatementBack inner n) {s : Statement}
    (h : s.WellFormed true) (hw : Spells s.pieces (t :: w)) (hlen : w.length ≤ n)
    (helse : s.EndsOpen → ∀ t ∈ rest.head?, t.kind ≠ .keyword .else) :
    statement inner t (w ++ rest) = .ok (s.erase, rest) := by
  have hsimple : s.IsSimple → (∀ semicolon, s ≠ .empty semicolon) →
      statement inner t (w ++ rest) = .ok (s.erase, rest) := by
    intro hs hne
    have ht := first_of_cons (s.exists_first_simple h hs hne hw)
    rw [statement_of_simple ht]
    exact simpleStatement_apply hinner h hs hne hw hlen
  cases s with
  | declaration d => exact hsimple trivial (by simp)
  | expression e semicolon => exact hsimple trivial (by simp)
  | block b =>
      obtain ⟨opening, statements, closing, newScope⟩ := b
      obtain ⟨rfl, -⟩ := Spells.of_kept_cons hw
      have hread : block inner t true (w ++ rest) = .ok (_, rest) := block_apply hinner h hw hlen
      simp only [statement, show t.kind = _ from h.1]
      rw [Parse.bind_ok hread]
      rfl
  | empty semicolon =>
      obtain ⟨rfl, hnil⟩ := Spells.of_kept_cons hw
      simp only [statement, show t.kind = _ from h, Spells.nil_iff.1 hnil]
      rfl
  | ifThen keyword =>
      obtain ⟨rfl, -⟩ := Spells.of_kept_cons hw
      simp only [statement, show t.kind = _ from h.1]
      exact ifStatement_then hinner h hw hlen (helse trivial)
  | ifElse keyword =>
      obtain ⟨rfl, -⟩ := Spells.of_kept_cons hw
      simp only [statement, show t.kind = _ from h.1]
      exact ifStatement_else hinner h hw hlen helse
  | whileLoop keyword =>
      obtain ⟨rfl, -⟩ := Spells.of_kept_cons hw
      simp only [statement, show t.kind = _ from h.1]
      exact whileStatement_apply hinner h hw hlen helse
  | doLoop keyword =>
      obtain ⟨rfl, -⟩ := Spells.of_kept_cons hw
      simp only [statement, show t.kind = _ from h.1]
      exact doStatement_apply hinner h hw hlen
  | forLoop keyword =>
      obtain ⟨rfl, -⟩ := Spells.of_kept_cons hw
      simp only [statement, show t.kind = _ from h.1]
      exact forStatement_apply hinner h hw hlen helse
  | jump keyword semicolon =>
      obtain ⟨hkeyword, hsemicolon⟩ := h
      obtain ⟨rfl, hafter⟩ := Spells.of_kept_cons hw
      obtain ⟨_, rfl, hnil⟩ := Spells.kept_cons_iff.1 hafter
      obtain rfl := Spells.nil_iff.1 hnil
      rcases hkeyword with ht | ht | ht <;> simp only [statement, ht] <;>
        (rw [List.singleton_append, Parse.bind_ok (Parse.requireOperator_cons hsemicolon _)]; rfl)
  | «return» keyword =>
      obtain ⟨rfl, -⟩ := Spells.of_kept_cons hw
      simp only [statement, show t.kind = _ from h.1]
      exact returnStatement_apply h hw

theorem readsStatementBack_statementWithin (n : Nat) :
    ReadsStatementBack (statementWithin n) n := by
  induction n with
  | zero =>
      intro s w rest h hw hlen _
      obtain ⟨t, v, rfl, -⟩ := s.exists_first h hw
      exact absurd hlen (Nat.not_succ_le_zero _)
  | succ n ih =>
      intro s w rest h hw hlen helse
      obtain ⟨t, v, rfl, -⟩ := s.exists_first h hw
      rw [List.length_cons] at hlen
      rw [List.cons_append, Parse.next_cons]
      exact statement_apply ih h hw (by omega) helse

theorem declarationRule_parse {d : Declaration} (h : d.WellFormed)
    (hw : Spells d.pieces (t :: w)) :
    declarationRule.parse t (w ++ rest) = .ok (d.erase, rest) := by
  have ht := first_of_cons (d.exists_first h hw)
  rw [Rule.parse_of_mem ht]
  exact declaration_apply (readsStatementBack_statementWithin (w ++ rest).length) h hw (by simp)

end

/-! ## Shaders -/

/-- All of the tokens of a well-formed shader are read, and they are read as that shader. -/
theorem shaderWithin_apply : ∀ (ds : List Declaration) (turns : Nat) (w : List Token),
    (∀ d ∈ ds, d.WellFormed) → Spells (ds.flatMap Declaration.pieces) w → w.length ≤ turns →
      shaderWithin turns w = ⟨ds.map Declaration.erase, none⟩
  | [], turns, w, _, hw, _ => by
      rw [Spells.nil_iff.1 hw]
      cases turns <;> rfl
  | d :: ds, turns, w, h, hw, hturns => by
      obtain ⟨u, v, rfl, hu, hv⟩ := Spells.append_iff.1 hw
      have hd := h d List.mem_cons_self
      obtain ⟨t, u, rfl, -⟩ := d.exists_first hd hu
      simp only [List.length_append, List.length_cons] at hturns
      obtain ⟨turns, rfl⟩ : ∃ k, turns = k + 1 := ⟨turns - 1, by omega⟩
      have hmore := shaderWithin_apply ds turns v (fun e he => h e (List.mem_cons_of_mem d he)) hv
        (by omega)
      rw [List.cons_append, shaderWithin, declarationRule_parse hd hu]
      simp only [hmore, List.map_cons]

end Essl
