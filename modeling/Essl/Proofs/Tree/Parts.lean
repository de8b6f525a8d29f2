import Essl.Proofs.Tree.Origin

/-!
# The parts of a shader

Typing goes through a shader part by part: a type specifier, a declarator, the header of a
function, a condition, an expression, a jump. The tokens of the parts follow one another in the
order of the text.
-/

namespace Essl

open Grammar

mutual

/-- The tokens that are kept of each part of a declaration. -/
def Declaration.parts : Declaration → List (List Token)
  | .declarators typeSpec ds _ => keptTokens typeSpec.pieces :: ds.map (keptTokens ·.pieces)
  | .type typeSpec _ => [keptTokens typeSpec.pieces]
  | .precision _ _ typeSpec _ => [keptTokens typeSpec.pieces]
  | .invariants keyword names _ => [keyword] :: names.map ([·.name])
  | .prototype header _ => [keptTokens header.pieces]
  | .function header body => keptTokens header.pieces :: body.parts

def Block.parts : Block → List (List Token)
  | ⟨_, statements, _, _⟩ => Statement.partsOfAll statements

def Statement.parts : Statement → List (List Token)
  | .declaration d => d.parts
  | .block b => b.parts
  | .expression e _ => [keptTokens e.pieces]
  | .empty _ => []
  | .ifThen _ _ condition _ whenTrue => keptTokens condition.pieces :: whenTrue.parts
  | .ifElse _ _ condition _ whenTrue _ whenFalse =>
    keptTokens condition.pieces :: (whenTrue.parts ++ whenFalse.parts)
  | .whileLoop _ _ condition _ body => keptTokens condition.pieces :: body.parts
  | .doLoop _ body _ _ condition _ _ => body.parts ++ [keptTokens condition.pieces]
  | .forLoop _ _ init condition _ increment _ body =>
    init.parts ++ (keptTokens (condition.elim [] Condition.pieces) ::
      keptTokens (increment.elim [] Expr.pieces) :: body.parts)
  | .jump keyword _ => [[keyword]]
  | .return keyword value _ => [keyword :: keptTokens (value.elim [] Expr.pieces)]

def Statement.partsOfAll : List Statement → List (List Token)
  | [] => []
  | s :: ss => s.parts ++ Statement.partsOfAll ss

end

/-- The tokens that are kept of each part of a shader. -/
def Shader.parts (shader : Shader) : List (List Token) :=
  shader.declarations.flatMap Declaration.parts

/-! ## The order of the parts -/

theorem flatten_map_sublist {α : Type} (pieces : α → List Piece) (as : List α) :
    (as.map fun a => keptTokens (pieces a)).flatten.Sublist
      (keptTokens (commaBetween (as.map pieces))) := by
  rw [keptTokens_commaBetween, List.flatMap_map, List.flatMap_def]

mutual

/-- What is kept of the parts comes in the order of the text. -/
theorem Declaration.flatten_parts : ∀ d : Declaration,
    d.parts.flatten.Sublist (keptTokens d.pieces)
  | .declarators typeSpec ds semicolon => by
      simp only [Declaration.parts, Declaration.pieces, List.flatten_cons, keptTokens_append]
      have hds := flatten_map_sublist Declarator.pieces ds
      exact (hds.trans (List.sublist_append_left _ _)).append_left _
  | .type typeSpec semicolon => by simp [Declaration.parts, Declaration.pieces]
  | .precision keyword precision typeSpec semicolon => by
      simp only [Declaration.parts, Declaration.pieces, List.flatten_singleton, keptTokens_append,
        keptTokens_kept]
      exact ((List.sublist_append_left _ _).cons _).cons _
  | .invariants keyword names semicolon => by
      simp only [Declaration.parts, Declaration.pieces, List.flatten_cons, keptTokens_append,
        keptTokens_kept]
      have hnames := flatten_map_sublist (fun n : InvariantName => [.kept n.name]) names
      exact (hnames.trans (List.sublist_append_left _ _)).cons_cons keyword
  | .prototype header semicolon => by
      simp [Declaration.parts, Declaration.pieces]
  | .function header body => by
      simp only [Declaration.parts, Declaration.pieces, List.flatten_cons, keptTokens_append]
      exact .append_left body.flatten_parts _

theorem Block.flatten_parts : ∀ b : Block, b.parts.flatten.Sublist (keptTokens b.pieces)
  | ⟨opening, statements, closing, _⟩ => by
      simp only [Block.parts, Block.pieces, keptTokens_kept, keptTokens_append]
      exact ((Statement.flatten_partsOfAll statements).trans (List.sublist_append_left _ _)).cons _

theorem Statement.flatten_parts : ∀ s : Statement,
    s.parts.flatten.Sublist (keptTokens s.pieces)
  | .declaration d => d.flatten_parts
  | .block b => b.flatten_parts
  | .expression e semicolon => by simp [Statement.parts, Statement.pieces]
  | .empty _ => List.nil_sublist _
  | .ifThen keyword opening condition closing whenTrue => by
      simp only [Statement.parts, Statement.pieces, List.flatten_cons, keptTokens_append,
        keptTokens_kept]
      exact (((whenTrue.flatten_parts.cons _).append_left _).cons _).cons _
  | .ifElse keyword opening condition closing whenTrue otherwise whenFalse => by
      simp only [Statement.parts, Statement.pieces, List.flatten_cons, List.flatten_append,
        keptTokens_append, keptTokens_kept]
      have hbranches := whenTrue.flatten_parts.append (whenFalse.flatten_parts.cons otherwise)
      exact (((hbranches.cons _).append_left _).cons _).cons _
  | .whileLoop keyword opening condition closing body => by
      simp only [Statement.parts, Statement.pieces, List.flatten_cons, keptTokens_append,
        keptTokens_kept]
      exact (((body.flatten_parts.cons _).append_left _).cons _).cons _
  | .doLoop keyword body whileWord opening condition closing semicolon => by
      simp only [Statement.parts, Statement.pieces, List.flatten_append, List.flatten_singleton,
        keptTokens_append, keptTokens_kept]
      have hcondition := List.sublist_append_left (keptTokens condition.pieces)
        [closing, semicolon]
      exact (body.flatten_parts.append ((hcondition.cons _).cons _)).cons _
  | .forLoop keyword opening init condition semicolon increment closing body => by
      simp only [Statement.parts, Statement.pieces, List.flatten_append, List.flatten_cons,
        keptTokens_append, keptTokens_kept]
      have hincrement := ((body.flatten_parts.cons closing).append_left
        (keptTokens (increment.elim [] Expr.pieces))).cons semicolon
      exact ((init.flatten_parts.append (hincrement.append_left _)).cons _).cons _
  | .jump keyword semicolon => by simp [Statement.parts, Statement.pieces]
  | .return keyword value semicolon => by simp [Statement.parts, Statement.pieces]

theorem Statement.flatten_partsOfAll : ∀ ss : List Statement,
    (Statement.partsOfAll ss).flatten.Sublist (keptTokens (Statement.piecesOfAll ss))
  | [] => .slnil
  | s :: ss => by
      simp only [Statement.partsOfAll, Statement.piecesOfAll, List.flatten_append,
        keptTokens_append]
      exact s.flatten_parts.append (Statement.flatten_partsOfAll ss)

end

theorem Shader.flatten_parts (shader : Shader) :
    shader.parts.flatten.Sublist (keptTokens shader.pieces) := by
  obtain ⟨ds⟩ := shader
  induction ds with
  | nil => exact .slnil
  | cons d ds ih =>
      simp only [Shader.parts, Shader.pieces, List.flatMap_cons, List.flatten_append,
        keptTokens_append]
      exact d.flatten_parts.append ih

/-! ## Parsed shaders -/

namespace Grammar

/-- Also in front of a syntax error. -/
theorem shaderWithin_keptTokens (turns : Nat) (tokens : List Token) :
    (keptTokens (shaderWithin turns tokens).shader.pieces).Sublist tokens := by
  induction turns generalizing tokens with
  | zero => simp [shaderWithin, ParsedShader.shader, Shader.pieces]
  | succ turns ih =>
      cases tokens with
      | nil => simp [shaderWithin, ParsedShader.shader, Shader.pieces]
      | cons t rest =>
          rw [shaderWithin]
          split
          · rename_i d later hparse
            obtain ⟨w, rfl, -, hspells⟩ := declaration_covers hparse
            simp only [ParsedShader.shader, Shader.pieces, List.flatMap_cons, keptTokens_append]
            exact hspells.keptTokens_sublist.append (ih later)
          · simp [ParsedShader.shader, Shader.pieces]

/-- The parts of a parsed shader are read from its tokens in their order. -/
theorem parts_sublist (tokens : List Token) :
    (parseShader tokens).shader.parts.flatten.Sublist tokens :=
  (Shader.flatten_parts _).trans (shaderWithin_keptTokens tokens.length tokens)

end Grammar

end Essl
