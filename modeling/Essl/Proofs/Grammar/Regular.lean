import Essl.Proofs.Grammar.ShaderParsing
import Essl.Proofs.Token.Preprocessed
import Essl.Proofs.Tree.Nodes
import Essl.Proofs.Type.Text

/-!
# What typing can rely on

The nodes of a shader that is read from tokens of a text have names and operators that are spelled
as such, lists that are not empty and fields without initial values.
-/

namespace Essl

open Grammar

/-- The node is one that can be written. -/
def Node.Regular : Node → Prop
  | .expr (.binary _ _ op _) | .expr (.unary _ op _) | .expr (.step _ _ op) =>
    '(' ∉ op.text.toList
  | .expr (.call _ callee _ _ _ _) => '(' ∉ callee.text.toList
  | .expr (.field _ _ _ selector) => selector.text.toList ≠ []
  | .expr (.list _ exprs) => exprs ≠ []
  | .typeSpec (.struct _ _ name _ _ _ _ _) => ∀ t ∈ name, IsName t.text
  | .field d => d.initializer = none
  | .header h => '(' ∉ h.name.text.toList
  | _ => True

/-! ## Words -/

theorem Operator.paren_not_mem_text {op : Operator} (h : op ≠ .openParen) :
    '(' ∉ op.text.toList := by
  cases op <;> first | exact absurd rfl h | decide

theorem Keyword.paren_not_mem_text (k : Keyword) : '(' ∉ k.text.toList := by
  have hall : ∀ k ∈ Keyword.all, '(' ∉ k.text.toList := by decide
  exact hall k k.mem_all

namespace Token.Lexical

variable {t : Token}

theorem name (h : t.Lexical) (ht : t.kind = .identifier) : '(' ∉ t.text.toList :=
  (h.identifier ht).not_mem (by decide)

theorem sign (h : t.Lexical) {op : Operator} (ht : t.kind = .operator op) (hop : op ≠ .openParen) :
    '(' ∉ t.text.toList := by
  rw [h.operator ht]
  exact Operator.paren_not_mem_text hop

theorem callee (h : t.Lexical) (ht : t.kind ∈ nameStart) : '(' ∉ t.text.toList := by
  rcases List.mem_cons.1 ht with ht | ht
  · exact h.name ht
  · obtain ⟨p, -, hp⟩ := List.mem_map.1 ht
    rw [h.keyword hp.symm]
    exact Keyword.paren_not_mem_text _

theorem ladder (h : t.Lexical) {row : Nat} (ht : t.ladderRow? = some row) :
    '(' ∉ t.text.toList := by
  obtain ⟨op, hop, hrow⟩ := Option.bind_eq_some_iff.1 ht
  have hkind : t.kind = .operator op := by
    unfold TokenKind.operator? at hop
    split at hop
    · rename_i hkind
      rw [hkind, Option.some.inj hop]
    · cases hop
  refine h.sign hkind ?_
  rintro rfl
  cases hrow

end Token.Lexical

/-! ## Pieces -/

/-- All tokens that are kept are spelled as their kinds. -/
def Lexed (pieces : List Piece) : Prop := ∀ t, Piece.kept t ∈ pieces → t.Lexical

section

variable {ps qs : List Piece} {pss : List (List Piece)} {t : Token} {ts : List Token}

@[simp] theorem lexed_nil : Lexed [] := by
  simp [Lexed]

@[simp] theorem lexed_kept : Lexed (.kept t :: ps) ↔ t.Lexical ∧ Lexed ps := by
  simp [Lexed]

@[simp] theorem lexed_separator {s : Separator} : Lexed (.separator s :: ps) ↔ Lexed ps := by
  simp [Lexed]

@[simp] theorem lexed_append : Lexed (ps ++ qs) ↔ Lexed ps ∧ Lexed qs := by
  simp only [Lexed, List.mem_append, or_imp, forall_and]

@[simp] theorem lexed_map_kept : Lexed (ts.map .kept) ↔ ∀ t ∈ ts, t.Lexical := by
  simp [Lexed]

theorem lexed_commaBefore : Lexed (commaBefore pss) ↔ ∀ ps ∈ pss, Lexed ps := by
  induction pss with
  | nil => simp [commaBefore]
  | cons ps pss ih => simp [commaBefore, ih]

@[simp] theorem lexed_commaBetween : Lexed (commaBetween pss) ↔ ∀ ps ∈ pss, Lexed ps := by
  cases pss with
  | nil => simp [commaBetween]
  | cons ps pss => simp [commaBetween, lexed_commaBefore]

end

/-! ## Expressions -/

namespace Expr

mutual

theorem WellLevelled.regular : ∀ {e : Expr}, e.WellLevelled → Lexed e.pieces →
    AllNodes Node.Regular e.nodes
  | .assignment _ left op right, h, hw => by
      simp only [pieces, lexed_append, lexed_kept] at hw
      simp only [nodes, allNodes_cons, allNodes_append]
      exact ⟨trivial, h.2.1.regular hw.1, h.2.2.2.2.regular hw.2.2⟩
  | .ternary _ condition question whenTrue colon whenFalse, h, hw => by
      obtain ⟨-, hcondition, -, htrue, -, -, hfalse⟩ := h
      simp only [pieces, lexed_append, lexed_kept] at hw
      obtain ⟨hwcondition, -, hwtrue, -, hwfalse⟩ := hw
      simp only [nodes, allNodes_cons, allNodes_append]
      exact ⟨trivial, ⟨hcondition.regular hwcondition, htrue.regular hwtrue⟩,
        hfalse.regular hwfalse⟩
  | .binary _ left op right, ⟨row, hrow, _, hleft, _, hright⟩, hw => by
      simp only [pieces, lexed_append, lexed_kept] at hw
      simp only [nodes, allNodes_cons, allNodes_append]
      exact ⟨hw.2.1.ladder hrow, hleft.regular hw.1, hright.regular hw.2.2⟩
  | .unary _ op operand, ⟨⟨o, ho, hop⟩, _, hoperand⟩, hw => by
      simp only [pieces, lexed_kept] at hw
      simp only [nodes, allNodes_cons]
      refine ⟨hw.1.sign hop ?_, hoperand.regular hw.2⟩
      rintro rfl
      exact absurd ho (by decide)
  | .step _ operand op, ⟨_, hoperand, hop⟩, hw => by
      simp only [pieces, lexed_append, lexed_kept] at hw
      simp only [nodes, allNodes_cons]
      refine ⟨?_, hoperand.regular hw.1⟩
      rcases hop with hop | hop
      · exact hw.2.1.sign hop (by decide)
      · exact hw.2.1.sign hop (by decide)
  | .literal _ token, _, _ => by simp [nodes, Node.Regular]
  | .group _ opening inner closing, h, hw => by
      simp only [pieces, lexed_append, lexed_kept] at hw
      simp only [nodes, allNodes_cons]
      exact ⟨trivial, h.2.1.regular hw.2.1⟩
  | .variable _ name, _, _ => by simp [nodes, Node.Regular]
  | .call _ callee opening void arguments closing, ⟨hcallee, _, _, harguments, _⟩, hw => by
      simp only [pieces, lexed_append, lexed_kept, lexed_commaBetween] at hw
      simp only [nodes, allNodes_cons]
      exact ⟨hw.1.callee hcallee, harguments.regular hw.2.2.2.1⟩
  | .arrayCall _ callee bracket size bracketEnd opening void arguments closing,
      ⟨_, _, _, hsize, _, _, _, harguments, _⟩, hw => by
      simp only [pieces, lexed_append, lexed_kept, lexed_commaBetween] at hw
      obtain ⟨-, -, hwsize, -, -, -, hwarguments, -⟩ := hw
      simp only [nodes, allNodes_cons, allNodes_append]
      exact ⟨trivial, hsize.regular hwsize, harguments.regular hwarguments⟩
  | .field _ operand dot selector, ⟨_, hoperand, _, hselector⟩, hw => by
      simp only [pieces, lexed_append, lexed_kept] at hw
      simp only [nodes, allNodes_cons]
      exact ⟨(hw.2.2.1.identifier hselector).ne_nil, hoperand.regular hw.1⟩
  | .index _ operand opening position closing, ⟨_, hoperand, _, hposition, _⟩, hw => by
      simp only [pieces, lexed_append, lexed_kept] at hw
      simp only [nodes, allNodes_cons, allNodes_append]
      exact ⟨trivial, hoperand.regular hw.1, hposition.regular hw.2.2.1⟩
  | .list _ exprs, ⟨hlength, hexprs⟩, hw => by
      simp only [pieces, lexed_commaBetween] at hw
      simp only [nodes, allNodes_cons]
      refine ⟨?_, hexprs.regular hw⟩
      rintro rfl
      simp at hlength

theorem ArgumentsLevelled.regular : ∀ {es : List Expr}, ArgumentsLevelled es →
    (∀ ps ∈ piecesOfEach es, Lexed ps) → AllNodes Node.Regular (nodesOfEach es)
  | [], _, _ => by simp [nodesOfEach]
  | e :: es, h, hw => by
      simp only [piecesOfEach, List.forall_mem_cons] at hw
      simp only [nodesOfEach, allNodes_append]
      exact ⟨h.2.1.regular hw.1, h.2.2.regular hw.2⟩

end

end Expr

/-! ## Types and declarators -/

theorem regular_of_size {size : Option ArraySize} (h : ∀ s ∈ size, s.WellFormed)
    (hw : Lexed (sizePieces size)) : AllNodes Node.Regular (sizeNodes size) := by
  cases size with
  | none => simp [sizeNodes]
  | some size =>
      simp only [sizePieces, lexed_append, lexed_kept] at hw
      exact (h size rfl).2.1.2.regular hw.2.1

theorem regular_of_optional {level : Level} {e : Option Expr} (h : ∀ x ∈ e, x.FitsLevel level)
    (hw : ∀ x ∈ e, Lexed x.pieces) : AllNodes Node.Regular (optionalNodes e) := by
  cases e with
  | none => simp [optionalNodes]
  | some e => exact (h e rfl).2.regular (hw e rfl)

theorem lexed_initializerPieces {e : Option Expr} :
    Lexed (initializerPieces e) ↔ ∀ x ∈ e, Lexed x.pieces := by
  cases e <;> simp [initializerPieces]

namespace Declarator

variable {d : Declarator}

theorem WellFormed.regular_inside (h : d.WellFormed) (hw : Lexed d.pieces) :
    AllNodes Node.Regular d.inside := by
  simp only [pieces, lexed_kept, lexed_append, lexed_initializerPieces] at hw
  simp only [inside, allNodes_append]
  exact ⟨regular_of_size h.2.1 hw.2.1, regular_of_optional h.2.2 hw.2.2⟩

theorem WellFormed.regular (h : d.WellFormed) (hw : Lexed d.pieces) :
    AllNodes Node.Regular d.nodes := by
  simp only [nodes, allNodes_cons]
  exact ⟨trivial, h.regular_inside hw⟩

theorem WellFormedField.regular (h : d.WellFormedField) (hw : Lexed d.pieces) :
    AllNodes Node.Regular d.fieldNodes := by
  simp only [fieldNodes, allNodes_cons]
  exact ⟨h.2, h.1.regular_inside hw⟩

end Declarator

mutual

theorem TypeSpec.CoreFormed.regular : ∀ {s : TypeSpec}, s.CoreFormed → Lexed s.core →
    AllNodes Node.Regular s.nodes
  | .named .., _, _ => by simp [TypeSpec.nodes, Node.Regular]
  | .struct _ keyword name opening fields closing _ _, ⟨_, hname, _, _, hfields, _⟩, hw => by
      simp only [TypeSpec.core, lexed_kept, lexed_append, lexed_map_kept, Option.mem_toList] at hw
      obtain ⟨-, hwname, -, hwfields, -⟩ := hw
      simp only [TypeSpec.nodes, allNodes_cons]
      refine ⟨?_, FieldSpec.AllFormed.regular hfields hwfields⟩
      intro t ht
      exact (hwname t ht).identifier (hname t ht)

theorem FieldSpec.AllFormed.regular : ∀ {fields : List FieldSpec}, FieldSpec.AllFormed fields →
    Lexed (FieldSpec.piecesOfAll fields) → AllNodes Node.Regular (FieldSpec.nodesOfAll fields)
  | [], _, _ => by simp [FieldSpec.nodesOfAll]
  | ⟨type, names, semicolon⟩ :: rest, ⟨_, htype, _, hnames, _, hrest⟩, hw => by
      simp only [FieldSpec.piecesOfAll, lexed_append, lexed_kept, lexed_commaBetween,
        List.forall_mem_map] at hw
      obtain ⟨-, hwtype, hwnames, -, hwrest⟩ := hw
      simp only [FieldSpec.nodesOfAll, allNodes_append, allNodes_flatMap]
      exact ⟨⟨htype.regular hwtype, fun d hd => (hnames d hd).regular (hwnames d hd)⟩,
        hrest.regular hwrest⟩

end

theorem TypeSpec.CoreFormed.regular_pieces {s : TypeSpec} (h : s.CoreFormed)
    (hw : Lexed s.pieces) : AllNodes Node.Regular s.nodes :=
  h.regular (lexed_append.1 hw).2

theorem ParameterSpec.WellFormed.regular {p : ParameterSpec} (h : p.WellFormed)
    (hw : Lexed p.pieces) : AllNodes Node.Regular p.nodes := by
  simp only [pieces, lexed_append] at hw
  simp only [nodes, allNodes_cons, allNodes_append]
  exact ⟨trivial, h.2.1.2.regular_pieces hw.2.1, regular_of_size h.2.2.2 hw.2.2.2⟩

theorem FunctionHeader.WellFormed.regular {h : FunctionHeader} (hh : h.WellFormed)
    (hw : Lexed h.pieces) : AllNodes Node.Regular h.nodes := by
  obtain ⟨htype, hname, -, hparameters, -⟩ := hh
  simp only [pieces, lexed_append, lexed_kept, lexed_commaBetween, List.forall_mem_map] at hw
  obtain ⟨hwtype, hwname, -, hwparameters, -⟩ := hw
  simp only [nodes, allNodes_cons, allNodes_append, allNodes_flatMap]
  exact ⟨hwname.name hname, htype.2.regular_pieces hwtype,
    fun p hp => (hparameters p hp).regular (hwparameters p hp)⟩

theorem Condition.WellFormed.regular {c : Condition} (h : c.WellFormed) (hw : Lexed c.pieces) :
    AllNodes Node.Regular c.nodes := by
  cases c with
  | expression e =>
      simp only [nodes, allNodes_cons]
      exact ⟨trivial, h.2.regular hw⟩
  | declaration s d =>
      simp only [pieces, lexed_append] at hw
      simp only [nodes, allNodes_cons, allNodes_append]
      exact ⟨trivial, h.1.2.regular_pieces hw.1, h.2.1.regular hw.2⟩

/-! ## Declarations and statements -/

theorem Expr.FitsLevel.regular_condition {e : Expr} (h : e.FitsLevel .expression)
    (hw : Lexed e.pieces) : AllNodes Node.Regular (Condition.expression e).nodes :=
  Condition.WellFormed.regular (c := .expression e) h hw

theorem lexed_elim {α : Type} {f : α → List Piece} {a : Option α} :
    Lexed (a.elim [] f) ↔ ∀ x ∈ a, Lexed (f x) := by
  cases a <;> simp

mutual

theorem Declaration.WellFormed.regular : ∀ {d : Declaration}, d.WellFormed → Lexed d.pieces →
    AllNodes Node.Regular d.nodes
  | .declarators s ds semicolon, ⟨hs, _, hds, _⟩, hw => by
      simp only [Declaration.pieces, lexed_append, lexed_commaBetween, List.forall_mem_map] at hw
      simp only [Declaration.nodes, allNodes_append, allNodes_flatMap]
      exact ⟨hs.2.regular_pieces hw.1, fun d hd => (hds d hd).regular (hw.2.1 d hd)⟩
  | .type s semicolon, h, hw => h.1.2.regular_pieces (lexed_append.1 hw).1
  | .precision keyword precision s semicolon, h, hw => by
      simp only [Declaration.pieces, lexed_kept, lexed_append] at hw
      exact h.2.2.1.2.regular_pieces hw.2.2.1
  | .invariants .., _, _ => by simp [Declaration.nodes]
  | .prototype header semicolon, h, hw => h.1.regular (lexed_append.1 hw).1
  | .function header body, h, hw => by
      simp only [Declaration.pieces, lexed_append] at hw
      simp only [Declaration.nodes, allNodes_append]
      exact ⟨h.1.regular hw.1, Block.WellFormed.regular h.2 hw.2 _⟩

theorem Block.WellFormed.regular : ∀ {b : Block} {ownScope : Bool}, b.WellFormed ownScope →
    Lexed b.pieces → ∀ returnType, AllNodes Node.Regular (b.nodes returnType)
  | ⟨_, _, _, _⟩, _, h, hw, returnType => by
      simp only [Block.pieces, lexed_kept, lexed_append] at hw
      exact Statement.AllFormed.regular h.2.1 hw.2.1 returnType

theorem Statement.WellFormed.regular : ∀ {s : Statement} {ownScope : Bool},
    s.WellFormed ownScope → Lexed s.pieces →
      ∀ returnType, AllNodes Node.Regular (s.nodes returnType)
  | .declaration _, _, h, hw, _ => Declaration.WellFormed.regular h.1 hw
  | .block _, _, h, hw, returnType => Block.WellFormed.regular h hw returnType
  | .expression .., _, h, hw, _ => h.1.2.regular (lexed_append.1 hw).1
  | .empty _, _, _, _, _ => by simp [Statement.nodes]
  | .ifThen .., _, ⟨_, _, hcondition, _, htrue⟩, hw, returnType => by
      simp only [Statement.pieces, lexed_kept, lexed_append] at hw
      obtain ⟨-, -, hwcondition, -, hwtrue⟩ := hw
      simp only [Statement.nodes, allNodes_append]
      exact ⟨hcondition.regular_condition hwcondition, htrue.regular hwtrue returnType⟩
  | .ifElse .., _, ⟨_, _, hcondition, _, htrue, _, _, hfalse⟩, hw, returnType => by
      simp only [Statement.pieces, lexed_kept, lexed_append] at hw
      obtain ⟨-, -, hwcondition, -, hwtrue, -, hwfalse⟩ := hw
      simp only [Statement.nodes, allNodes_append]
      exact ⟨⟨hcondition.regular_condition hwcondition, htrue.regular hwtrue returnType⟩,
        hfalse.regular hwfalse returnType⟩
  | .whileLoop .., _, ⟨_, _, hcondition, _, hbody⟩, hw, returnType => by
      simp only [Statement.pieces, lexed_kept, lexed_append] at hw
      obtain ⟨-, -, hwcondition, -, hwbody⟩ := hw
      simp only [Statement.nodes, allNodes_append]
      exact ⟨hcondition.regular hwcondition, hbody.regular hwbody returnType⟩
  | .doLoop .., _, ⟨_, hbody, _, _, hcondition, _, _⟩, hw, returnType => by
      simp only [Statement.pieces, lexed_kept, lexed_append] at hw
      obtain ⟨-, hwbody, -, -, hwcondition, -⟩ := hw
      simp only [Statement.nodes, allNodes_append]
      exact ⟨hbody.regular hwbody returnType, hcondition.regular_condition hwcondition⟩
  | .forLoop _ _ init condition _ increment _ body, _,
      ⟨_, _, hinit, _, hcondition, _, hincrement, _, hbody⟩, hw, returnType => by
      simp only [Statement.pieces, lexed_kept, lexed_append, lexed_elim] at hw
      obtain ⟨-, -, hwinit, hwcondition, -, hwincrement, -, hwbody⟩ := hw
      simp only [Statement.nodes, allNodes_append]
      refine ⟨⟨⟨hinit.regular hwinit returnType, ?_⟩, regular_of_optional hincrement hwincrement⟩,
        hbody.regular hwbody returnType⟩
      cases condition with
      | none => simp [optionalConditionNodes]
      | some condition => exact (hcondition condition rfl).regular (hwcondition condition rfl)
  | .jump .., _, _, _, _ => by simp [Statement.nodes]
  | .return .., _, ⟨_, hvalue, _⟩, hw, _ => by
      simp only [Statement.pieces, lexed_kept, lexed_append, lexed_elim] at hw
      simp only [Statement.nodes, allNodes_cons]
      exact ⟨trivial, regular_of_optional hvalue hw.2.1⟩

theorem Statement.AllFormed.regular : ∀ {ss : List Statement}, Statement.AllFormed ss →
    Lexed (Statement.piecesOfAll ss) →
      ∀ returnType, AllNodes Node.Regular (Statement.nodesOfAll ss returnType)
  | [], _, _, _ => by simp [Statement.nodesOfAll]
  | s :: ss, h, hw, returnType => by
      simp only [Statement.piecesOfAll, lexed_append] at hw
      simp only [Statement.nodesOfAll, allNodes_append]
      exact ⟨h.1.regular hw.1 returnType, h.2.regular hw.2 returnType⟩

end

/-! ## Shaders -/

theorem Shader.WellFormed.regular {shader : Shader} (h : shader.WellFormed)
    (hw : Lexed shader.pieces) : AllNodes Node.Regular shader.nodes := by
  simp only [nodes, allNodes_flatMap]
  intro d hd
  refine (h d hd).regular ?_
  intro t ht
  exact hw t (List.mem_flatMap.2 ⟨d, hd, ht⟩)

theorem Spells.lexed {pieces : List Piece} {tokens : List Token} (h : Spells pieces tokens)
    (ht : ∀ t ∈ tokens, t.Lexical) : Lexed pieces := by
  unfold Spells at h
  induction h with
  | nil => simp
  | @cons piece t pieces tokens hpiece _ ih =>
      have hrest := ih fun u hu => ht u (List.mem_cons_of_mem t hu)
      cases piece with
      | kept u =>
          obtain rfl : t = u := hpiece
          exact lexed_kept.2 ⟨ht t List.mem_cons_self, hrest⟩
      | separator s => exact lexed_separator.2 hrest

namespace Grammar

/-- Also in front of a syntax error. -/
theorem shaderWithin_lexed (turns : Nat) (tokens : List Token) (ht : ∀ t ∈ tokens, t.Lexical) :
    Lexed (shaderWithin turns tokens).shader.pieces := by
  induction turns generalizing tokens with
  | zero => simp [shaderWithin, ParsedShader.shader, Shader.pieces]
  | succ turns ih =>
      cases tokens with
      | nil => simp [shaderWithin, ParsedShader.shader, Shader.pieces]
      | cons t rest =>
          rw [shaderWithin]
          split
          · rename_i d later hparse
            obtain ⟨w, rfl, -, hspells⟩ := declaration_covers hparse
            simp only [← List.cons_append, List.forall_mem_append] at ht
            simp only [ParsedShader.shader, Shader.pieces, List.flatMap_cons, lexed_append]
            exact ⟨hspells.lexed ht.1, ih later ht.2⟩
          · simp [ParsedShader.shader, Shader.pieces]

theorem parseShader_regular_of_lexical {tokens : List Token} (ht : ∀ t ∈ tokens, t.Lexical) :
    AllNodes Node.Regular (parseShader tokens).shader.nodes :=
  (parseShader_wellFormed tokens).regular (shaderWithin_lexed tokens.length tokens ht)

theorem parseShader_regular {tokens : List Token} (ht : ∀ t ∈ tokens, t.Written) :
    AllNodes Node.Regular (parseShader tokens).shader.nodes :=
  parseShader_regular_of_lexical fun t h => (ht t h).lexical

end Grammar

end Essl
