import Essl.Grammar.Shader
import Essl.Proofs.Grammar.DeclarationReading

/-!
# What the grammar of statements reads

A statement that is taken is well-formed, token by token, and if it ends in a conditional without
an `else`, none follows it. What was taken before a failure is the start of such a statement.
-/

namespace Essl

open Grammar

/-- The tokens are a well-formed statement, and an `else` after them would not have been left. -/
def Statement.Covers (ownScope : Bool) (s : Statement) (w rest : List Token) : Prop :=
  s.WellFormed ownScope ∧ Spells s.pieces w ∧
    (s.EndsOpen → ∀ t ∈ rest.head?, t.kind ≠ .keyword .else)

/-- The tokens are a well-formed condition. -/
def Condition.Covers (c : Condition) (w : List Token) : Prop := c.WellFormed ∧ Spells c.pieces w

section

variable {inner : Token → Parse Statement} {t : Token} {ts : List Token}

/-- A parser for the statements inside others rejects the token it is given, or takes only a
well-formed statement or what starts one. -/
def ReadsStatement (inner : Token → Parse Statement) : Prop :=
  ∀ t ts, Rejects (inner t) t ts ∨ Reads (inner t) ts fun s w rest => s.Covers true (t :: w) rest

theorem Statement.covers_empty (ownScope : Bool) (ht : t.kind = .operator .semicolon) :
    (Statement.empty t).Covers ownScope [t] ts := ⟨ht, .kept .nil, False.elim⟩

theorem reads_nextStatement (hinner : ReadsStatement inner) (expected : List TokenKind) :
    Reads (Parse.next expected inner) ts fun s w rest => s.Covers true w rest := by
  have hempty : (Statement.empty (.plain (.operator .semicolon))).Covers true
      ([TokenKind.operator .semicolon].map Token.plain) [] := Statement.covers_empty true rfl
  exact Reads.next_of_start hempty fun t rest _ => hinner t rest

/-! ## Blocks and functions -/

theorem reads_blockTail (hinner : ReadsStatement inner) (turns : Nat)
    (hturns : ts.length ≤ turns - 1) :
    Reads (blockTail inner turns) ts fun a w _ =>
      Statement.AllFormed a.1 ∧ a.2.kind = .operator .closeBrace ∧
        Spells (Statement.piecesOfAll a.1 ++ [.kept a.2]) w := by
  have hend : ∀ t : Token, t.kind = .operator .closeBrace →
      Statement.AllFormed [] ∧ t.kind = .operator .closeBrace ∧
        Spells (Statement.piecesOfAll [] ++ [.kept t]) [t] :=
    fun t ht => ⟨trivial, ht, .kept .nil⟩
  have hstart : Statement.AllFormed [] ∧ TokenKind.operator .closeBrace = .operator .closeBrace ∧
      Spells (Statement.piecesOfAll [] ++ [.kept (.plain (.operator .closeBrace))])
        ([TokenKind.operator .closeBrace].map Token.plain) :=
    hend (.plain (.operator .closeBrace)) rfl
  induction turns generalizing ts with
  | zero =>
      exact Reads.fail_none _ (List.length_eq_zero_iff.1 (by omega))
        (a := ([], .plain (.operator .closeBrace))) hstart
  | succ turns ih =>
      refine Reads.take_bind_of_start (a := ([], .plain (.operator .closeBrace))) hstart rfl ?_
      rintro t rest rfl
      by_cases ht : t.isOperator .closeBrace = true
      · simp only [if_pos ht]
        exact .inr (Reads.pure (hend t (Token.isOperator_iff.1 ht)))
      · simp only [if_neg ht]
        obtain hreject | hread := hinner t rest
        · exact .inl (hreject.bind _)
        · rw [List.length_cons] at hturns
          refine .inr (hread.bind fun s w rest' _ hs => ?_)
          refine (ih (by omega)).bind fun a w' _ _ ha => Reads.pure ?_
          refine ⟨⟨hs.1, ha.1⟩, ha.2.1, ?_⟩
          simpa [Statement.piecesOfAll] using hs.2.1.append ha.2.2

theorem reads_block (hinner : ReadsStatement inner) (ownScope : Bool)
    (ht : t.kind = .operator .openBrace) :
    Reads (block inner t ownScope) ts fun b w _ =>
      b.WellFormed ownScope ∧ Spells b.pieces (t :: w) := by
  refine Reads.remaining_bind ?_
  refine (reads_blockTail hinner (ts.length + 1) (by omega)).bind fun a w _ _ ha => Reads.pure ?_
  rw [List.append_nil]
  exact ⟨⟨ht, ha.1, ha.2.1, rfl⟩, .kept ha.2.2⟩

theorem reads_function (hinner : ReadsStatement inner) {s : TypeSpec} {name opening : Token}
    {v : List Token} (hs : s.FullFormed) (hv : Spells s.pieces v)
    (hname : name.kind = .identifier) (hopening : opening.kind = .operator .openParen) :
    Reads (function inner s name opening) ts fun d w _ =>
      d.Covers (v ++ name :: opening :: w) ∧ d.OpensStatement := by
  refine reads_parameters.bind fun a w rest _ ha => ?_
  obtain ⟨parameters, closing⟩ := a
  obtain ⟨hall, hclosing, hw⟩ := ha
  have hheader : (⟨s, name, opening, parameters, closing, none⟩ : FunctionHeader).WellFormed :=
    ⟨hs, hname, hopening, hall, hclosing⟩
  have hpieces : Spells (⟨s, name, opening, parameters, closing, none⟩ : FunctionHeader).pieces
      (v ++ name :: opening :: w) := hv.append (.kept (.kept hw))
  refine Reads.take_either rfl (fun _ => rfl) (by decide) ?_ ?_
  · intro semicolon _ _ hsemicolon
    refine Reads.pure ⟨⟨⟨hheader, hsemicolon⟩, ?_⟩, trivial⟩
    simpa [Declaration.pieces] using hpieces.append (.kept .nil)
  · intro brace rest' _ hbrace
    refine (reads_block hinner false hbrace).bind fun b w' _ _ hb => Reads.pure ?_
    refine ⟨⟨⟨hheader, hb.1⟩, ?_⟩, trivial⟩
    simpa [Declaration.pieces] using hpieces.append hb.2

/-! ## Declarations -/

/-- Where no semicolon follows, more than a type is declared. -/
theorem reads_typedDeclaration (hinner : ReadsStatement inner) {s : TypeSpec} {v : List Token}
    (hs : s.FullFormed) (hv : Spells s.pieces v) :
    Reads (typedDeclaration inner s) ts fun d w _ =>
      d.Covers (v ++ w) ∧
        (ts.head?.map Token.kind ≠ some (.operator .semicolon) → d.OpensStatement) := by
  refine Reads.accept_bind ?_ fun _ => ?_
  · rintro semicolon rest rfl hsemicolon
    refine Reads.pure ⟨⟨⟨hs, hsemicolon⟩, hv.append (.kept .nil)⟩, ?_⟩
    simp [hsemicolon]
  · refine (reads_identifier _).bind ?_
    rintro name _ rest - ⟨hname, rfl⟩
    refine Reads.accept_bind ?_ fun _ => ?_
    · intro opening rest' _ hopening
      exact (reads_function hinner hs hv hname hopening).mono fun _ _ _ hd => ⟨hd.1, fun _ => hd.2⟩
    · refine (reads_declarator hname).bind fun d w rest _ hd => Reads.remaining_bind ?_
      refine (reads_moreDeclarators (rest.length + 1) true d (by omega)).bind
        fun a w' _ _ ha => Reads.pure ?_
      refine ⟨⟨⟨hs, by simp, by simpa using ⟨hd.1, ha.1⟩, ha.2.1⟩, ?_⟩, fun _ => trivial⟩
      simpa [Declaration.pieces, commaBetween] using hv.append (hd.2.append ha.2.2)

theorem startsDeclaration_identifier (ht : t.kind = .identifier) (second : Option TokenKind) :
    startsDeclaration t second = (second == some .identifier) := by
  rw [startsDeclaration, ht]

/-- Unless a name is taken for a type, a declaration of a type alone is none that looks like an
expression. -/
theorem Declaration.Covers.opensStatement {d : Declaration} {w : List Token}
    (h : d.Covers (t :: w)) (ht : t.kind ≠ .identifier) : d.OpensStatement := by
  match d, h with
  | .type (.named q name _) semicolon, h =>
      intro hbare
      have hw := h.2
      rw [Declaration.pieces, TypeSpec.pieces, TypeSpec.qualifiers, hbare.pieces_eq] at hw
      obtain ⟨hfirst, -⟩ := Spells.of_kept_cons hw
      rw [← hfirst]
      exact ht
  | .type (.struct ..) _, _ => trivial
  | .declarators .., _ => trivial
  | .precision .., _ => trivial
  | .invariants .., _ => trivial
  | .prototype .., _ => trivial
  | .function .., _ => trivial

/-- A declaration is not `name;` if it was told from an expression by its first two tokens. -/
theorem reads_declaration (hinner : ReadsStatement inner) (ht : t.kind ∈ declarationStart) :
    Reads (declaration inner t) ts fun d w _ =>
      d.Covers (t :: w) ∧
        (startsDeclaration t (ts.head?.map Token.kind) → d.OpensStatement) := by
  have hopens : ∀ {d : Declaration} {w : List Token}, t.kind ≠ .identifier → d.Covers (t :: w) →
      d.Covers (t :: w) ∧
        (startsDeclaration t (ts.head?.map Token.kind) → d.OpensStatement) :=
    fun hne hd => ⟨hd, fun _ => hd.opensStatement hne⟩
  rw [declaration]
  split
  · rename_i hprecision
    rw [Token.isKeyword_iff] at hprecision
    exact (reads_precisionDeclaration hprecision).mono fun _ _ _ => hopens (by simp [hprecision])
  · rename_i hprecision
    rw [Token.isKeyword_iff] at hprecision
    refine Reads.peekKind_bind ?_
    split
    · rename_i hinvariant
      obtain ⟨hinvariant, -⟩ := Bool.and_eq_true_iff.1 hinvariant
      rw [Token.isKeyword_iff] at hinvariant
      exact (reads_invariantDeclaration hinvariant).mono fun _ _ _ => hopens (by simp [hinvariant])
    · have htype : t.kind ∈ qualifiedTypeStart := (List.mem_cons.1 ht).resolve_left hprecision
      rw [Rule.parse_of_mem htype]
      by_cases hname : t.kind = .identifier
      · -- A name is a type by itself, so the token after it is the second one of the declaration.
        have hbody : qualifiedTypeRule.body t ts = .ok (.named .none t none, ts) := 
          qualifiedTypeRule_body_identifier hname
        have hs : (TypeSpec.named .none t none).FullFormed := by
          refine TypeSpec.PreciseFormed.full (TypeSpec.BareFormed.precise ?_)
          exact ⟨TypeQualifiers.bare_none, by rw [hname]; decide, by simp [hname]⟩
        rw [Reads, Parse.bind_ok hbody, ← Reads]
        refine (reads_typedDeclaration hinner hs (.kept .nil)).mono fun d w _ hd => ⟨hd.1, ?_⟩
        rw [startsDeclaration_identifier hname]
        intro hsecond
        refine hd.2 ?_
        rw [eq_of_beq hsecond]
        simp
      · refine (reads_qualifiedTypeRule_body htype).bind fun s v rest _ hs => ?_
        exact (reads_typedDeclaration hinner hs.1 hs.2).mono fun _ _ _ hd => hopens hname hd.1

theorem reads_declarationRuleOf (hinner : ReadsStatement inner) (ht : t.kind ∈ declarationStart) :
    Reads ((declarationRuleOf inner).body t) ts fun d w _ =>
      d.Covers (t :: w) ∧
        (startsDeclaration t (ts.head?.map Token.kind) → d.OpensStatement) :=
  reads_declaration hinner ht

/-! ## Statements -/

theorem reads_simpleStatement (hinner : ReadsStatement inner) (ownScope : Bool) :
    Rejects (simpleStatement inner t) t ts ∨
      Reads (simpleStatement inner t) ts fun s w rest =>
        s.Covers ownScope (t :: w) rest ∧ s.IsSimple := by
  by_cases hstarts : startsDeclaration t (ts.head?.map Token.kind)
  · by_cases ht : t.kind ∈ declarationStart
    · refine .inr (Reads.peekKind_bind ?_)
      rw [if_pos hstarts, Rule.parseLookedAhead_of_mem ht]
      refine (reads_declarationRuleOf hinner ht).bind fun d w _ _ hd => Reads.pure ?_
      rw [List.append_nil]
      exact ⟨⟨⟨hd.1.1, hd.2 hstarts⟩, hd.1.2, False.elim⟩, trivial⟩
    · refine .inl (Rejects.peekKind_bind ?_)
      rw [if_pos hstarts]
      exact (Rule.rejects_parseLookedAhead ts ht).bind _
  · by_cases ht : t.kind ∈ exprStart
    · refine .inr (Reads.peekKind_bind ?_)
      rw [if_neg hstarts, Rule.parseLookedAhead_of_mem ht]
      refine (reads_expressionRule_body ht).bind fun e w _ _ he => ?_
      refine Reads.requireOperator_bind fun semicolon _ hsemicolon => Reads.pure ?_
      exact ⟨⟨⟨⟨he.1, he.2.1⟩, hsemicolon⟩, he.2.2.append (.kept .nil), False.elim⟩, trivial⟩
    · refine .inl (Rejects.peekKind_bind ?_)
      rw [if_neg hstarts]
      exact (Rule.rejects_parseLookedAhead ts ht).bind _

theorem reads_condition : Reads condition ts fun c w _ => c.Covers w := by
  have hone : (Condition.expression (.literal .none (.plain .intConstant))).Covers
      ([TokenKind.intConstant].map Token.plain) :=
    ⟨⟨Nat.zero_le _, show TokenKind.intConstant ∈ literalStart by decide⟩, .kept .nil⟩
  refine Reads.next_of_start hone fun t rest _ => ?_
  by_cases hstarts : startsDeclaration t (rest.head?.map Token.kind)
  · by_cases ht : t.kind ∈ qualifiedTypeStart
    · refine .inr (Reads.peekKind_bind ?_)
      rw [if_pos hstarts, Rule.parseLookedAhead_of_mem ht]
      refine (reads_qualifiedTypeRule_body ht).bind fun s w rest' _ hs => ?_
      refine Reads.requireKind_bind fun name rest' _ hname => ?_
      refine Reads.requireOperator_bind fun assign rest' hassign => ?_
      refine reads_assignmentRule.bind fun e w' _ _ he => Reads.pure ?_
      rw [List.append_nil]
      refine ⟨⟨hs.1, ⟨hname, by simp [Declarator.ofName], ?_⟩, rfl, by
        simp [Declarator.ofName]⟩, hs.2.append (.kept (.separator hassign he.2.2))⟩
      intro e' he'
      cases he'
      exact ⟨he.1, he.2.1⟩
    · refine .inl (Rejects.peekKind_bind ?_)
      rw [if_pos hstarts]
      exact (Rule.rejects_parseLookedAhead rest ht).bind _
  · by_cases ht : t.kind ∈ exprStart
    · refine .inr (Reads.peekKind_bind ?_)
      rw [if_neg hstarts, Rule.parseLookedAhead_of_mem ht]
      refine (reads_expressionRule_body ht).bind fun e w _ _ he => Reads.pure ?_
      rw [List.append_nil]
      exact ⟨⟨he.1, he.2.1⟩, he.2.2⟩
    · refine .inl (Rejects.peekKind_bind ?_)
      rw [if_neg hstarts]
      exact (Rule.rejects_parseLookedAhead rest ht).bind _

/-- Only a block is different where blocks have no scopes of their own. -/
theorem Statement.WellFormed.of_not_block {s : Statement} {w : List Token} {ownScope : Bool}
    (h : s.WellFormed ownScope) (hw : Spells s.pieces (t :: w))
    (ht : t.kind ≠ .operator .openBrace) (other : Bool) : s.WellFormed other := by
  match s, h with
  | .block ⟨opening, statements, closing, _⟩, h =>
      obtain ⟨hfirst, -⟩ := Spells.of_kept_cons hw
      rw [hfirst] at ht
      exact absurd h.1 ht
  | .declaration _, h => exact h
  | .expression .., h => exact h
  | .empty _, h => exact h
  | .ifThen .., h => exact h
  | .ifElse .., h => exact h
  | .whileLoop .., h => exact h
  | .doLoop .., h => exact h
  | .forLoop .., h => exact h
  | .jump .., h => exact h
  | .return .., h => exact h

theorem reads_loopBody (hinner : ReadsStatement inner) :
    Reads (loopBody inner) ts fun s w rest => s.Covers false w rest := by
  refine Reads.accept_bind ?_ fun hhead => ?_
  · intro opening rest _ hopening
    refine (reads_block hinner false hopening).bind fun b w _ _ hb => Reads.pure ?_
    rw [List.append_nil]
    exact ⟨hb.1, hb.2, False.elim⟩
  · have hempty : (Statement.empty (.plain (.operator .semicolon))).Covers false
        ([TokenKind.operator .semicolon].map Token.plain) [] := Statement.covers_empty false rfl
    refine Reads.next_of_start hempty ?_
    rintro t rest rfl
    refine (hinner t rest).imp_right fun h => h.mono fun s w _ hs => ?_
    exact ⟨hs.1.of_not_block hs.2.1 (hhead t rfl) false, hs.2⟩

theorem reads_ifStatement (hinner : ReadsStatement inner) (ownScope : Bool)
    (ht : t.kind = .keyword .if) :
    Reads (ifStatement inner t) ts fun s w rest => s.Covers ownScope (t :: w) rest := by
  refine Reads.requireOperator_bind fun opening rest hopening => ?_
  refine reads_expressionRule.bind fun e w rest' _ he => ?_
  refine Reads.requireOperator_bind fun closing rest hclosing => ?_
  refine (reads_nextStatement hinner _).bind fun s v rest _ hs => ?_
  refine Reads.accept_bind ?_ fun helse => Reads.pure ?_
  · rintro otherwise rest rfl hotherwise
    refine (reads_nextStatement hinner _).bind fun s' v' rest' _ hs' => Reads.pure ?_
    refine ⟨⟨ht, hopening, ⟨he.1, he.2.1⟩, hclosing, hs.1, ?_, hotherwise, hs'.1⟩, ?_, hs'.2.2⟩
    · exact fun hopen => hs.2.2 hopen otherwise rfl hotherwise
    · rw [List.append_nil]
      exact .kept (.kept (he.2.2.append (.kept (hs.2.1.append (.kept hs'.2.1)))))
  · refine ⟨⟨ht, hopening, ⟨he.1, he.2.1⟩, hclosing, hs.1⟩, ?_, fun _ => helse⟩
    rw [List.append_nil]
    exact .kept (.kept (he.2.2.append (.kept hs.2.1)))

theorem reads_whileStatement (hinner : ReadsStatement inner) (ownScope : Bool)
    (ht : t.kind = .keyword .while) :
    Reads (whileStatement inner t) ts fun s w rest => s.Covers ownScope (t :: w) rest := by
  refine Reads.requireOperator_bind fun opening rest hopening => ?_
  refine reads_condition.bind fun c w rest' _ hc => ?_
  refine Reads.requireOperator_bind fun closing rest hclosing => ?_
  refine (reads_loopBody hinner).bind fun s v rest _ hs => Reads.pure ?_
  rw [List.append_nil]
  exact ⟨⟨ht, hopening, hc.1, hclosing, hs.1⟩,
    .kept (.kept (hc.2.append (.kept hs.2.1))), hs.2.2⟩

theorem reads_doStatement (hinner : ReadsStatement inner) (ownScope : Bool)
    (ht : t.kind = .keyword .do) :
    Reads (doStatement inner t) ts fun s w rest => s.Covers ownScope (t :: w) rest := by
  refine (reads_nextStatement hinner _).bind fun s v rest _ hs => ?_
  refine Reads.requireKind_bind fun whileWord rest _ hwhile => ?_
  refine Reads.requireOperator_bind fun opening rest hopening => ?_
  refine reads_expressionRule.bind fun e w rest' _ he => ?_
  refine Reads.requireOperator_bind fun closing rest hclosing => ?_
  refine Reads.requireOperator_bind fun semicolon rest hsemicolon => Reads.pure ?_
  exact ⟨⟨ht, hs.1, hwhile, hopening, ⟨he.1, he.2.1⟩, hclosing, hsemicolon⟩,
    .kept (hs.2.1.append (.kept (.kept (he.2.2.append (.kept (.kept .nil)))))), False.elim⟩

theorem reads_forInit (hinner : ReadsStatement inner) :
    Reads (Parse.next forInitStart (forInit inner)) ts fun s w _ =>
      s.WellFormed true ∧ Spells s.pieces w ∧ s.IsSimple := by
  have hempty : (Statement.empty (.plain (.operator .semicolon))).WellFormed true ∧
      Spells (Statement.empty (.plain (.operator .semicolon))).pieces
        ([TokenKind.operator .semicolon].map Token.plain) ∧
      (Statement.empty (.plain (.operator .semicolon))).IsSimple := ⟨rfl, .kept .nil, trivial⟩
  refine Reads.next_of_start hempty fun t rest _ => ?_
  rw [forInit]
  split
  · rename_i ht
    exact .inr (Reads.pure ⟨Token.isOperator_iff.1 ht, .kept .nil, trivial⟩)
  · split
    · exact (reads_simpleStatement hinner true).imp_right fun h =>
        h.mono fun s w _ hs => ⟨hs.1.1, hs.1.2.1, hs.2⟩
    · exact .inl (rejects_fail _ t rest)

/-- A part that is left out where a certain token follows. -/
theorem reads_unless {α : Type} {c : Prop} [Decidable c] {p : Parse α} {Good : α → Prop}
    {pieces : α → List Piece} (h : Reads p ts fun a w _ => Good a ∧ Spells (pieces a) w) :
    Reads (if c then pure none else some <$> p) ts fun o w _ =>
      (∀ a ∈ o, Good a) ∧ Spells (o.elim [] pieces) w := by
  split
  · exact Reads.pure ⟨by simp, .nil⟩
  · exact Reads.map (h.mono fun a w _ ha => ⟨by simpa using ha.1, ha.2⟩)

theorem reads_forStatement (hinner : ReadsStatement inner) (ownScope : Bool)
    (ht : t.kind = .keyword .for) :
    Reads (forStatement inner t) ts fun s w rest => s.Covers ownScope (t :: w) rest := by
  have hexpr : ∀ ts, Reads expressionRule.next ts fun e w _ =>
      e.FitsLevel .expression ∧ Spells e.pieces w :=
    fun ts => reads_expressionRule.mono fun _ _ _ he => ⟨⟨he.1, he.2.1⟩, he.2.2⟩
  refine Reads.requireOperator_bind fun opening rest hopening => ?_
  refine (reads_forInit hinner).bind fun init u rest _ hinit => Reads.peekKind_bind ?_
  refine Reads.ite_bind ((reads_unless reads_condition).bind fun c v rest _ hc => ?_)
  refine Reads.requireOperator_bind fun semicolon rest hsemicolon => Reads.peekKind_bind ?_
  refine Reads.ite_bind ((reads_unless (hexpr rest)).bind fun e w rest _ he => ?_)
  refine Reads.requireOperator_bind fun closing rest hclosing => ?_
  refine (reads_loopBody hinner).bind fun s w' _ _ hs => Reads.pure ?_
  rw [List.append_nil]
  refine ⟨⟨ht, hopening, hinit.1, hinit.2.2, hc.1, hsemicolon, he.1, hclosing, hs.1⟩, ?_, hs.2.2⟩
  exact .kept (.kept (hinit.2.1.append (hc.2.append (.kept (he.2.append (.kept hs.2.1))))))

theorem reads_returnStatement (ownScope : Bool) (ht : t.kind = .keyword .return) :
    Reads (returnStatement t) ts fun s w rest => s.Covers ownScope (t :: w) rest := by
  refine Reads.accept_bind ?_ fun _ => ?_
  · intro semicolon rest _ hsemicolon
    exact Reads.pure ⟨⟨ht, by simp, hsemicolon⟩, .kept (.kept .nil), False.elim⟩
  · refine reads_expressionRule.bind fun e w rest' _ he => ?_
    refine Reads.requireOperator_bind fun semicolon rest hsemicolon => Reads.pure ?_
    refine ⟨⟨ht, ?_, hsemicolon⟩, .kept (he.2.2.append (.kept .nil)), False.elim⟩
    intro e' he'
    cases he'
    exact ⟨he.1, he.2.1⟩

theorem reads_statement (hinner : ReadsStatement inner) :
    Rejects (statement inner t) t ts ∨
      Reads (statement inner t) ts fun s w rest => s.Covers true (t :: w) rest := by
  have hjump : ∀ h : t.kind = .keyword .continue ∨ t.kind = .keyword .break ∨
      t.kind = .keyword .discard,
      Reads (do
        let semicolon ← Parse.requireOperator .semicolon
        pure (Statement.jump t semicolon)) ts fun s w rest => s.Covers true (t :: w) rest :=
    fun h => Reads.requireOperator_bind fun semicolon _ hsemicolon => Reads.pure
      ⟨⟨h, hsemicolon⟩, .kept (.kept .nil), False.elim⟩
  rw [statement]
  split
  · rename_i ht
    refine .inr ((reads_block hinner true ht).bind fun b w _ _ hb => Reads.pure ?_)
    rw [List.append_nil]
    exact ⟨hb.1, hb.2, False.elim⟩
  · exact .inr (Reads.pure (Statement.covers_empty true (by assumption)))
  · exact .inr (reads_ifStatement hinner true (by assumption))
  · exact .inr (reads_whileStatement hinner true (by assumption))
  · exact .inr (reads_doStatement hinner true (by assumption))
  · exact .inr (reads_forStatement hinner true (by assumption))
  · exact .inr (hjump (.inl (by assumption)))
  · exact .inr (hjump (.inr (.inl (by assumption))))
  · exact .inr (hjump (.inr (.inr (by assumption))))
  · exact .inr (reads_returnStatement true (by assumption))
  · split
    · exact (reads_simpleStatement hinner true).imp_right fun h => h.mono fun _ _ _ hs => hs.1
    · exact .inl (rejects_fail _ t ts)

theorem readsStatement_statementWithin (depth : Nat) : ReadsStatement (statementWithin depth) := by
  induction depth with
  | zero => exact fun t ts => .inl (rejects_fail statementStart t ts)
  | succ depth ih => exact fun t ts => reads_statement ih

theorem reads_declarationRule (ht : t.kind ∈ declarationStart) :
    Reads (declarationRule.body t) ts fun d w _ => d.Covers (t :: w) := by
  have hread : Reads (declaration (statementWithin ts.length) t) ts _ :=
    reads_declaration (readsStatement_statementWithin ts.length) ht
  have hbody : declarationRule.body t ts = declaration (statementWithin ts.length) t ts := rfl
  exact Reads.congr hbody (hread.mono fun _ _ _ hd => hd.1)

end

/-! ## Shaders -/

/-- The shader is all of the tokens, or the tokens before a syntax error are the start of some
shader. -/
def Grammar.ParsedShader.Explains (parsed : ParsedShader) (tokens : List Token) : Prop :=
  match parsed.failure with
  | none => parsed.shader.WellFormed ∧ Spells parsed.shader.pieces tokens
  | some f =>
    ∃ accepted, tokens = accepted ++ (f.found.toList ++ f.rest) ∧
      (f.found = none → f.rest = []) ∧
      ∃ shader : Shader, ∃ more : List TokenKind, shader.WellFormed ∧
        Spells shader.pieces (accepted ++ more.map Token.plain)

theorem Declaration.Covers.shader_cons {d : Declaration} {shader : Shader} {v w : List Token}
    (hd : d.Covers v) (hw : shader.WellFormed ∧ Spells shader.pieces w) :
    Shader.WellFormed ⟨d :: shader.declarations⟩ ∧
      Spells (Shader.pieces ⟨d :: shader.declarations⟩) (v ++ w) := by
  refine ⟨?_, hd.2.append hw.2⟩
  intro d' hd'
  rcases List.mem_cons.1 hd' with rfl | hd'
  · exact hd.1
  · exact hw.1 d' hd'

theorem Grammar.ParsedShader.Explains.cons {d : Declaration} {parsed : ParsedShader}
    {v w : List Token} (hd : d.Covers v) (h : parsed.Explains w) :
    ParsedShader.Explains ⟨d :: parsed.declarations, parsed.failure⟩ (v ++ w) := by
  obtain ⟨ds, failure⟩ := parsed
  cases failure with
  | none => exact hd.shader_cons h
  | some f =>
      obtain ⟨accepted, rfl, hend, shader, more, hshader⟩ := h
      refine ⟨v ++ accepted, (List.append_assoc ..).symm, hend, ⟨d :: shader.declarations⟩, more, ?_⟩
      rw [List.append_assoc]
      exact hd.shader_cons hshader

theorem shaderWithin_explains (turns : Nat) (tokens : List Token)
    (hturns : tokens.length ≤ turns) : (shaderWithin turns tokens).Explains tokens := by
  have hnil : Shader.WellFormed ⟨[]⟩ ∧ Spells (Shader.pieces ⟨[]⟩) [] :=
    ⟨by simp [Shader.WellFormed], .nil⟩
  induction turns generalizing tokens with
  | zero =>
      rw [List.length_eq_zero_iff.1 (Nat.le_zero.1 hturns)]
      exact hnil
  | succ turns ih =>
      cases tokens with
      | nil => exact hnil
      | cons t rest =>
          rw [shaderWithin]
          by_cases ht : t.kind ∈ declarationStart
          · have hread : Reads (declarationRule.body t) rest _ := reads_declarationRule ht
            rw [show declarationRule.parse t = declarationRule.body t from Rule.parse_of_mem ht]
            cases hb : declarationRule.body t rest with
            | ok x =>
                obtain ⟨w, hw, hd⟩ := hread.ok hb
                have hlater := ih x.2 (by simp [hw] at hturns; omega)
                have h := ParsedShader.Explains.cons hd hlater
                rwa [List.cons_append, ← hw] at h
            | error f =>
                obtain ⟨w, hw, hend, d, more, hd⟩ := hread.error hb
                refine ⟨t :: w, by rw [hw]; rfl, hend, ⟨[d]⟩, more, ?_⟩
                simpa using hd.shader_cons hnil
          · obtain ⟨expected, lookedAhead, hb⟩ : Rejects (declarationRule.parse t) t rest :=
              Rule.rejects_parse rest ht
            rw [hb]
            exact ⟨[], rfl, by simp, ⟨[]⟩, [], hnil⟩

end Essl
