import Essl.Proofs.Tree.Erasure
import Essl.Proofs.Tree.Layout
import Essl.Proofs.Tree.Origin

/-!
# The words of a tree

The words of an expression are among those of the tree that it is in, and they stay the same when
annotations are erased.
-/

namespace Essl

/-! ## Words of smaller parts -/

/-- If the node is an expression, it has a property. -/
def Node.IfExpr (Q : Expr → Prop) : Node → Prop
  | expr e => Q e
  | _ => True

instance (Q : Expr → Prop) [DecidablePred Q] : DecidablePred (Node.IfExpr Q)
  | .expr e => inferInstanceAs (Decidable (Q e))
  | .typeSpec _ | .field _ | .declarator _ | .parameter _ | .header _ | .condition _
  | .return _ _ => .isTrue trivial

namespace Part

variable {Q : Expr → Prop} {p c : Part} {ts : List Token}

/-- Every expression in the part has a property. -/
def AllExprs (Q : Expr → Prop) : Part → Prop
  | expr e => AllNodes (Node.IfExpr Q) e.nodes
  | arraySize size => AllNodes (Node.IfExpr Q) size.size.nodes
  | declarator d => AllNodes (Node.IfExpr Q) d.inside
  | typeSpec s => AllNodes (Node.IfExpr Q) s.nodes
  | header h => AllNodes (Node.IfExpr Q) h.nodes
  | block b => ∀ returnType, AllNodes (Node.IfExpr Q) (b.nodes returnType)
  | condition c => AllNodes (Node.IfExpr Q) c.nodes
  | statement s => ∀ returnType, AllNodes (Node.IfExpr Q) (s.nodes returnType)
  | declaration d => AllNodes (Node.IfExpr Q) d.nodes

theorem AllExprs.of_children (hown : ∀ e, p = expr e → Q e)
    (h : ∀ c ∈ p.children, c.AllExprs Q) : p.AllExprs Q := by
  cases p with
  | expr e =>
      have he := hown e rfl
      cases e <;> simp [children, row, Expr.row, AllExprs, or_imp, forall_and] at h <;>
        simp [AllExprs, Expr.nodes, Expr.allNodes_nodesOfEach] <;> grind [Node.IfExpr]
  | arraySize size => exact h (.expr size.size) (by simp [children, row])
  | declarator d =>
      cases hi : d.initializer <;>
        simp [children, row, Declarator.row, hi, or_imp, forall_and, AllExprs] at h <;>
        simpa [AllExprs, Declarator.allNodes_inside, hi] using h
  | typeSpec s =>
      cases s with
      | named => simp [AllExprs, TypeSpec.nodes, Node.IfExpr]
      | struct q keyword name opening fields closing defined type =>
          simp [children, row, TypeSpec.row, FieldSpec.row] at h
          have hfields : ∀ f ∈ fields, (typeSpec f.type).AllExprs Q ∧
              ∀ d ∈ f.names, (declarator d).AllExprs Q :=
            fun f hf => ⟨h _ f hf (.inl rfl), fun d hd => h _ f hf (.inr ⟨d, hd, rfl⟩)⟩
          simp [AllExprs, TypeSpec.nodes, FieldSpec.allNodes_nodesOfAll, Declarator.fieldNodes,
            Node.IfExpr]
          exact hfields
  | header f =>
      simp [children, row, FunctionHeader.row, ParameterSpec.row, List.flatMap_map] at h
      have hparameters : ∀ q ∈ f.parameters, (typeSpec q.typeSpec).AllExprs Q ∧
          ∀ size ∈ q.size, (arraySize size).AllExprs Q :=
        fun q hq => ⟨h.2 _ q hq (.inl rfl), fun size hs => h.2 _ q hq (.inr ⟨size, hs, rfl⟩)⟩
      simp [AllExprs, FunctionHeader.nodes, ParameterSpec.allNodes_nodes, Node.IfExpr]
      exact ⟨h.1, hparameters⟩
  | block b =>
      obtain ⟨opening, statements, closing, newScope⟩ := b
      simp [children, row, Block.row] at h
      simp [AllExprs, Block.nodes, Statement.allNodes_nodesOfAll]
      exact fun returnType s hs => h s hs returnType
  | condition c =>
      cases c <;> simp [children, row, Condition.row, AllExprs] at h <;>
        simp [AllExprs, Condition.nodes, Declarator.nodes] <;> grind [Node.IfExpr]
  | statement s =>
      cases s <;> simp [children, row, Statement.row, or_imp, forall_and, AllExprs] at h <;>
        simp [AllExprs, Statement.nodes, allNodes_optionalNodes,
          allNodes_optionalConditionNodes] <;>
        grind [Node.IfExpr, Condition.nodes, allNodes_cons]
  | declaration d =>
      cases d <;> simp [children, row, Declaration.row, or_imp, forall_and, AllExprs] at h <;>
        simp [AllExprs, Declaration.nodes, Declarator.nodes] <;> grind [Node.IfExpr]

theorem pieces_subset_of_mem_children (h : c ∈ p.children) : c.pieces ⊆ p.pieces := by
  rw [← p.pieces_eq_row]
  exact fun piece hpiece => List.mem_flatMap.2 ⟨.part c, mem_children.1 h, hpiece⟩

/-- Every expression in the part has its words among those of the part. -/
theorem allExprs_pieces {all : List Piece} (p : Part) (h : p.pieces ⊆ all) :
    p.AllExprs (·.pieces ⊆ all) := by
  induction p using Part.induction with
  | step p ih =>
      refine .of_children ?_ fun c hc => ih c hc ?_
      · rintro e rfl
        exact h
      · exact List.Subset.trans (pieces_subset_of_mem_children hc) h

end Part

theorem Shader.pieces_subset {shader : Shader} {e : Expr} (h : .expr e ∈ shader.nodes) :
    e.pieces ⊆ shader.pieces := by
  obtain ⟨d, hd, he⟩ := List.mem_flatMap.1 h
  have hpieces : d.pieces ⊆ shader.pieces :=
    fun piece hpiece => List.mem_flatMap.2 ⟨d, hd, hpiece⟩
  exact (Part.declaration d).allExprs_pieces hpieces (.expr e) he

/-! ## Words of erased trees -/

mutual

@[simp] theorem Expr.pieces_erase : ∀ e : Expr, e.erase.pieces = e.pieces
  | .assignment _ left _ right | .binary _ left _ right => by
      simp [erase, pieces, left.pieces_erase, right.pieces_erase]
  | .ternary _ condition _ whenTrue _ whenFalse => by
      simp [erase, pieces, condition.pieces_erase, whenTrue.pieces_erase, whenFalse.pieces_erase]
  | .unary _ _ operand | .step _ operand _ | .group _ _ operand _ | .field _ operand _ _ => by
      simp [erase, pieces, operand.pieces_erase]
  | .literal .. | .variable .. => rfl
  | .call _ _ _ _ arguments _ => by
      simp [erase, pieces, Expr.piecesOfEach_eraseAll arguments]
  | .arrayCall _ _ _ size _ _ _ arguments _ => by
      simp [erase, pieces, size.pieces_erase, Expr.piecesOfEach_eraseAll arguments]
  | .index _ operand _ position _ => by
      simp [erase, pieces, operand.pieces_erase, position.pieces_erase]
  | .list _ exprs => by
      simp [erase, pieces, Expr.piecesOfEach_eraseAll exprs]

theorem Expr.piecesOfEach_eraseAll : ∀ es : List Expr,
    piecesOfEach (eraseAll es) = piecesOfEach es
  | [] => rfl
  | e :: es => by
      simp [eraseAll, piecesOfEach, e.pieces_erase, Expr.piecesOfEach_eraseAll es]

end

@[simp] theorem sizePieces_erase (size : Option ArraySize) :
    sizePieces (size.map ArraySize.erase) = sizePieces size := by
  cases size <;> simp [sizePieces, ArraySize.erase]

@[simp] theorem Declarator.pieces_erase (d : Declarator) : d.erase.pieces = d.pieces := by
  cases h : d.initializer <;> simp [erase, pieces, h, initializerPieces]

mutual

theorem TypeSpec.core_erase : ∀ s : TypeSpec, s.erase.core = s.core
  | .named .. => rfl
  | .struct _ _ _ _ fields _ _ _ => by
      simp [TypeSpec.erase, TypeSpec.core, FieldSpec.piecesOfAll_eraseAll fields]

theorem FieldSpec.piecesOfAll_eraseAll : ∀ fields : List FieldSpec,
    FieldSpec.piecesOfAll (FieldSpec.eraseAll fields) = FieldSpec.piecesOfAll fields
  | [] => rfl
  | ⟨type, names, _⟩ :: rest => by
      simp [FieldSpec.eraseAll, FieldSpec.piecesOfAll, type.core_erase,
        FieldSpec.piecesOfAll_eraseAll rest, Function.comp_def]

end

@[simp] theorem TypeSpec.pieces_erase (s : TypeSpec) : s.erase.pieces = s.pieces := by
  simp [pieces, s.core_erase]

@[simp] theorem ParameterSpec.pieces_erase (p : ParameterSpec) : p.erase.pieces = p.pieces := by
  simp [erase, pieces]

@[simp] theorem FunctionHeader.pieces_erase (h : FunctionHeader) : h.erase.pieces = h.pieces := by
  simp [erase, pieces, Function.comp_def]

@[simp] theorem Condition.pieces_erase (c : Condition) : c.erase.pieces = c.pieces := by
  cases c <;> simp [erase, pieces]

mutual

theorem Declaration.pieces_erase : ∀ d : Declaration, d.erase.pieces = d.pieces
  | .declarators .. | .type .. | .precision .. | .invariants .. | .prototype .. => by
      simp [Declaration.erase, Declaration.pieces, Function.comp_def, InvariantName.erase]
  | .function header body => by
      simp [Declaration.erase, Declaration.pieces, body.pieces_erase]

theorem Block.pieces_erase : ∀ b : Block, b.erase.pieces = b.pieces
  | ⟨_, statements, _, _⟩ => by
      simp [Block.erase, Block.pieces, Statement.piecesOfAll_eraseAll statements]

theorem Statement.pieces_erase : ∀ s : Statement, s.erase.pieces = s.pieces
  | .declaration d => d.pieces_erase
  | .block b => b.pieces_erase
  | .expression .. | .empty _ | .jump .. => by simp [Statement.erase, Statement.pieces]
  | .ifThen _ _ _ _ body | .whileLoop _ _ _ _ body | .doLoop _ body _ _ _ _ _ => by
      simp [Statement.erase, Statement.pieces, body.pieces_erase]
  | .ifElse _ _ _ _ whenTrue _ whenFalse => by
      simp [Statement.erase, Statement.pieces, whenTrue.pieces_erase, whenFalse.pieces_erase]
  | .forLoop _ _ init condition _ increment _ body => by
      cases condition <;> cases increment <;>
        simp [Statement.erase, Statement.pieces, init.pieces_erase, body.pieces_erase]
  | .return _ value _ => by cases value <;> simp [Statement.erase, Statement.pieces]

theorem Statement.piecesOfAll_eraseAll : ∀ ss : List Statement,
    Statement.piecesOfAll (Statement.eraseAll ss) = Statement.piecesOfAll ss
  | [] => rfl
  | s :: ss => by
      simp [Statement.eraseAll, Statement.piecesOfAll, s.pieces_erase,
        Statement.piecesOfAll_eraseAll ss]

end

/-- Erasing the annotations of a shader keeps its words. -/
theorem Shader.pieces_erase (shader : Shader) : shader.erase.pieces = shader.pieces := by
  simp [erase, pieces, List.flatMap_map, Declaration.pieces_erase]

end Essl
