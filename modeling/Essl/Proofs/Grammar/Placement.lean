import Essl.Proofs.Grammar.Regular
import Essl.Proofs.Tree.StorageUse

/-!
# Where words can stand

In front of the type of a parameter or of a field the grammar allows few words, so storage
qualifiers stand in the places listed for them only.
-/

namespace Essl

open Grammar

/-- Of the words in front of the parameter only `const` can make it read-only. -/
def ParameterSpec.OnlyConst (p : ParameterSpec) : Prop :=
  ∀ word ∈ p.qualifiers, word.forbidsWriting → word.qualifier? = some .const

/-- What stands at the node can stand there. -/
def Node.Placed : Node → Prop
  | field d => d.initializer = none
  | parameter p => p.OnlyConst
  | header h => '(' ∉ h.name.text.toList
  | _ => True

/-- The type has no storage qualifiers, or stands in one of the places. -/
def TypeSpec.PlacedIn (uses : List StorageUse) (s : TypeSpec) : Prop :=
  s.qualifiers.storage = [] ∨ ∃ use ∈ uses, use.type? = some s

/-- Words stand only where the grammar allows them, with these places for storage qualifiers. -/
def Node.PlacedIn (uses : List StorageUse) : Node → Prop
  | typeSpec s => s.PlacedIn uses
  | parameter p => p.OnlyConst
  | _ => True

theorem TypeQualifiers.Precise.placedIn {uses : List StorageUse} {s : TypeSpec}
    (h : s.qualifiers.Precise) : s.PlacedIn uses :=
  .inl h.1

theorem TypeSpec.placedIn_of_use {uses : List StorageUse} {use : StorageUse} {s : TypeSpec}
    (hmem : use ∈ uses) (htype : use.type? = some s) : s.PlacedIn uses :=
  .inr ⟨use, hmem, htype⟩

theorem Keyword.qualifier?_of_isDirection {k : Keyword} (h : k.isDirection) :
    k.qualifier? = some .input ∨ k.qualifier? = some .output ∨ k.qualifier? = some .inout := by
  cases k with
  | qualifier q => cases q <;> first | exact absurd h (by decide) | decide
  | _ => cases h

theorem ParameterSpec.WellFormed.onlyConst {p : ParameterSpec} (h : p.WellFormed) :
    p.OnlyConst := by
  obtain ⟨⟨const, direction, hwords, hconst, hdirection⟩, -⟩ := h
  intro word hword hforbids
  simp only [hwords, List.mem_append, Option.mem_toList] at hword
  rcases hword with hword | hword
  · simp [Token.qualifier?, hconst word hword, TokenKind.keyword?, Keyword.qualifier?]
  · obtain ⟨k, hk, hk'⟩ := (Option.any_eq_true _ _).1 (hdirection word hword)
    rcases Keyword.qualifier?_of_isDirection hk' with hq | hq | hq <;>
      simp [Token.forbidsWriting, Token.qualifier?, hk, hq] at hforbids

section

variable {uses : List StorageUse}

/-! ## Parts without places -/

mutual

theorem Expr.placedIn : ∀ e : Expr, AllNodes (Node.PlacedIn uses) e.nodes
  | .assignment _ left _ right | .binary _ left _ right => by
      simp only [nodes, allNodes_cons, allNodes_append]
      exact ⟨trivial, left.placedIn, right.placedIn⟩
  | .ternary _ condition _ whenTrue _ whenFalse => by
      simp only [nodes, allNodes_cons, allNodes_append]
      exact ⟨trivial, ⟨condition.placedIn, whenTrue.placedIn⟩, whenFalse.placedIn⟩
  | .unary _ _ operand | .step _ operand _ | .group _ _ operand _ | .field _ operand _ _ =>
      allNodes_cons.2 ⟨trivial, operand.placedIn⟩
  | .literal .. | .variable .. => allNodes_cons.2 ⟨trivial, allNodes_nil⟩
  | .call _ _ _ _ arguments _ | .list _ arguments =>
      allNodes_cons.2 ⟨trivial, Expr.placedIn_each arguments⟩
  | .arrayCall _ _ _ size _ _ _ arguments _ => by
      simp only [nodes, allNodes_cons, allNodes_append]
      exact ⟨trivial, size.placedIn, Expr.placedIn_each arguments⟩
  | .index _ operand _ position _ => by
      simp only [nodes, allNodes_cons, allNodes_append]
      exact ⟨trivial, operand.placedIn, position.placedIn⟩

theorem Expr.placedIn_each : ∀ es : List Expr, AllNodes (Node.PlacedIn uses) (nodesOfEach es)
  | [] => allNodes_nil
  | e :: es => allNodes_append.2 ⟨e.placedIn, Expr.placedIn_each es⟩

end

theorem placedIn_sizeNodes (size : Option ArraySize) :
    AllNodes (Node.PlacedIn uses) (sizeNodes size) := by
  cases size with
  | none => exact allNodes_nil
  | some size => exact size.size.placedIn

theorem placedIn_optionalNodes (e : Option Expr) :
    AllNodes (Node.PlacedIn uses) (optionalNodes e) :=
  allNodes_optionalNodes.2 fun e _ => e.placedIn

theorem Declarator.placedIn_inside (d : Declarator) : AllNodes (Node.PlacedIn uses) d.inside :=
  allNodes_append.2 ⟨placedIn_sizeNodes d.size, placedIn_optionalNodes d.initializer⟩

theorem Declarator.placedIn (d : Declarator) : AllNodes (Node.PlacedIn uses) d.nodes :=
  allNodes_cons.2 ⟨trivial, d.placedIn_inside⟩

/-! ## Types -/

mutual

/-- Only the type itself needs a place: the types of its fields have no storage qualifiers. -/
theorem TypeSpec.CoreFormed.placedIn : ∀ {s : TypeSpec}, s.CoreFormed → s.PlacedIn uses →
    AllNodes (Node.PlacedIn uses) s.nodes
  | .named .., _, hs => allNodes_cons.2 ⟨hs, allNodes_nil⟩
  | .struct .., ⟨_, _, _, _, hfields, _⟩, hs =>
      allNodes_cons.2 ⟨hs, FieldSpec.AllFormed.placedIn hfields⟩

theorem FieldSpec.AllFormed.placedIn : ∀ {fields : List FieldSpec}, FieldSpec.AllFormed fields →
    AllNodes (Node.PlacedIn uses) (FieldSpec.nodesOfAll fields)
  | [], _ => allNodes_nil
  | ⟨type, names, _⟩ :: rest, ⟨hprecise, htype, _, _, _, hrest⟩ => by
      simp only [FieldSpec.nodesOfAll, Declarator.fieldNodes, allNodes_append, allNodes_flatMap,
        allNodes_cons]
      exact ⟨⟨htype.placedIn hprecise.placedIn, fun d _ => ⟨trivial, d.placedIn_inside⟩⟩,
        hrest.placedIn⟩

end

theorem ParameterSpec.WellFormed.placedIn {p : ParameterSpec} (h : p.WellFormed) :
    AllNodes (Node.PlacedIn uses) p.nodes := by
  obtain ⟨hprecise, hcore⟩ := h.2.1
  simp only [nodes, allNodes_cons, allNodes_append]
  exact ⟨h.onlyConst, hcore.placedIn hprecise.placedIn, placedIn_sizeNodes p.size⟩

theorem FunctionHeader.WellFormed.placedIn {header : FunctionHeader} (h : header.WellFormed)
    (hmem : .returnType header.returnType ∈ uses) :
    AllNodes (Node.PlacedIn uses) header.nodes := by
  obtain ⟨⟨-, hcore⟩, -, -, hparameters, -⟩ := h
  simp only [nodes, allNodes_cons, allNodes_append, allNodes_flatMap]
  exact ⟨trivial, hcore.placedIn (TypeSpec.placedIn_of_use hmem rfl),
    fun p hp => (hparameters p hp).placedIn⟩

theorem Expr.placedIn_condition (e : Expr) :
    AllNodes (Node.PlacedIn uses) (Condition.expression e).nodes :=
  allNodes_cons.2 ⟨trivial, e.placedIn⟩

theorem Condition.WellFormed.placedIn {c : Condition} (h : c.WellFormed)
    (hmem : c.storageUses ⊆ uses) : AllNodes (Node.PlacedIn uses) c.nodes := by
  cases c with
  | expression e => exact e.placedIn_condition
  | declaration s d =>
      simp only [nodes, allNodes_cons, allNodes_append]
      have hs : s.PlacedIn uses := TypeSpec.placedIn_of_use (hmem List.mem_cons_self) rfl
      exact ⟨trivial, h.1.2.placedIn hs, d.placedIn⟩

/-! ## Declarations and statements -/

mutual

theorem Declaration.WellFormed.placedIn {fileScope : Bool} : ∀ {d : Declaration}, d.WellFormed →
    d.storageUses fileScope ⊆ uses → AllNodes (Node.PlacedIn uses) d.nodes
  | .declarators s ds _, ⟨hs, _, _, _⟩, hmem => by
      simp only [Declaration.nodes, allNodes_append, allNodes_flatMap]
      exact ⟨hs.2.placedIn (TypeSpec.placedIn_of_use (hmem List.mem_cons_self) rfl),
        fun d _ => d.placedIn⟩
  | .type s _, h, hmem =>
      h.1.2.placedIn (TypeSpec.placedIn_of_use (hmem List.mem_cons_self) rfl)
  | .precision _ _ s _, ⟨_, _, hs, _⟩, _ => hs.2.placedIn (.inl hs.1.1)
  | .invariants .., _, _ => allNodes_nil
  | .prototype header _, h, hmem => h.1.placedIn (hmem List.mem_cons_self)
  | .function header body, h, hmem => by
      simp only [Declaration.storageUses, List.cons_subset] at hmem
      simp only [Declaration.nodes, allNodes_append]
      exact ⟨h.1.placedIn hmem.1, Block.WellFormed.placedIn h.2 hmem.2⟩

theorem Block.WellFormed.placedIn : ∀ {b : Block} {ownScope : Bool} {returnType : Option Ty},
    b.WellFormed ownScope → b.storageUses ⊆ uses →
      AllNodes (Node.PlacedIn uses) (b.nodes returnType)
  | ⟨_, _, _, _⟩, _, _, h, hmem => Statement.AllFormed.placedIn h.2.1 hmem

theorem Statement.WellFormed.placedIn : ∀ {s : Statement} {ownScope : Bool}
    {returnType : Option Ty}, s.WellFormed ownScope → s.storageUses ⊆ uses →
      AllNodes (Node.PlacedIn uses) (s.nodes returnType)
  | .declaration _, _, _, h, hmem => Declaration.WellFormed.placedIn h.1 hmem
  | .block _, _, _, h, hmem => Block.WellFormed.placedIn h hmem
  | .expression e _, _, _, _, _ => e.placedIn
  | .empty _, _, _, _, _ | .jump .., _, _, _, _ => allNodes_nil
  | .ifThen _ _ condition .., _, _, ⟨_, _, _, _, htrue⟩, hmem =>
      allNodes_append.2 ⟨condition.placedIn_condition, htrue.placedIn hmem⟩
  | .ifElse _ _ condition .., _, _, ⟨_, _, _, _, htrue, _, _, hfalse⟩, hmem => by
      simp only [Statement.storageUses, List.append_subset] at hmem
      simp only [Statement.nodes, allNodes_append]
      exact ⟨⟨condition.placedIn_condition, htrue.placedIn hmem.1⟩, hfalse.placedIn hmem.2⟩
  | .whileLoop .., _, _, ⟨_, _, hcondition, _, hbody⟩, hmem => by
      simp only [Statement.storageUses, List.append_subset] at hmem
      simp only [Statement.nodes, allNodes_append]
      exact ⟨hcondition.placedIn hmem.1, hbody.placedIn hmem.2⟩
  | .doLoop _ _ _ _ condition _ _, _, _, ⟨_, hbody, _⟩, hmem =>
      allNodes_append.2 ⟨hbody.placedIn hmem, condition.placedIn_condition⟩
  | .forLoop _ _ _ condition _ increment _ _, _, _, ⟨_, _, hinit, _, hcondition, _, _, _, hbody⟩,
      hmem => by
      simp only [Statement.storageUses, List.append_subset] at hmem
      obtain ⟨⟨hmeminit, hmemcondition⟩, hmembody⟩ := hmem
      simp only [Statement.nodes, allNodes_append]
      refine ⟨⟨⟨hinit.placedIn hmeminit, ?_⟩, placedIn_optionalNodes increment⟩,
        hbody.placedIn hmembody⟩
      cases condition with
      | none => exact allNodes_nil
      | some c => exact (hcondition c rfl).placedIn hmemcondition
  | .return _ value _, _, _, _, _ => allNodes_cons.2 ⟨trivial, placedIn_optionalNodes value⟩

theorem Statement.AllFormed.placedIn : ∀ {ss : List Statement} {returnType : Option Ty},
    Statement.AllFormed ss → Statement.storageUsesOfAll ss ⊆ uses →
      AllNodes (Node.PlacedIn uses) (Statement.nodesOfAll ss returnType)
  | [], _, _, _ => allNodes_nil
  | s :: ss, _, h, hmem => by
      simp only [Statement.storageUsesOfAll, List.append_subset] at hmem
      exact allNodes_append.2 ⟨h.1.placedIn hmem.1, h.2.placedIn hmem.2⟩

end

end

/-! ## Shaders -/

theorem Shader.WellFormed.placedIn {shader : Shader} (h : shader.WellFormed) :
    AllNodes (Node.PlacedIn shader.storageUses) shader.nodes :=
  allNodes_flatMap.2 fun d hd =>
    (h d hd).placedIn (fun _ huse => List.mem_flatMap_of_mem hd huse)

namespace Grammar

/-- Wherever storage qualifiers stand in front of a type, it is a declaration, a condition or what
a function returns. -/
theorem parseShader_placedIn (tokens : List Token) :
    AllNodes (Node.PlacedIn (parseShader tokens).shader.storageUses)
      (parseShader tokens).shader.nodes :=
  (parseShader_wellFormed tokens).placedIn

theorem parseShader_placed {tokens : List Token} (ht : ∀ t ∈ tokens, t.Written) :
    AllNodes Node.Placed (parseShader tokens).shader.nodes := by
  intro n hn
  have hregular := parseShader_regular ht n hn
  have hplaced := parseShader_placedIn tokens n hn
  cases n with
  | field d => exact hregular
  | parameter p => exact hplaced
  | header h => exact hregular
  | _ => trivial

end Grammar

end Essl
