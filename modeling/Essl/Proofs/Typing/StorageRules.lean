import Essl.Proofs.Tree.StorageUse
import Essl.Proofs.Typing.Guarantees
import Essl.Proofs.Typing.Reanalysis
import Essl.Proofs.Typing.ShaderTrace

/-!
# Where storage qualifiers are checked

The problems with storage qualifiers are those of the words in declarations, one word after the
other. Nothing is said about the words in conditions or in front of what functions return, the only
other places that there are.
-/

namespace Essl

open Grammar

/-! ## Problems with storage qualifiers -/

/-- The problem is with the place of a storage qualifier. -/
def SemanticCause.isStorage : SemanticCause → Bool
  | notGlobalScope _ | attributeInFragmentShader => true
  | _ => false

/-- The problems with storage qualifiers. -/
def storageProblems (problems : List SemanticError) : List SemanticError :=
  problems.filter (·.cause.isStorage)

/-- The problems that the word calls for in a shader of the stage. -/
def StorageWord.problems (stage : Stage) (word : StorageWord) : List SemanticError :=
  (if (word.qualifier.isGlobalStorage || word.qualifier == .invariant) && !word.fileScope then
    [⟨.notGlobalScope word.qualifier, word.location⟩] else []) ++
  (if word.qualifier == .attrib && stage != .vertex then
    [⟨.attributeInFragmentShader, word.location⟩] else [])

/-- The problem that is remarked upon, if it is one with a storage qualifier. -/
def Remark.storageProblem? (remark : Located Remark) : Option SemanticError :=
  match remark.cause with
  | .notGlobal q => some ⟨.notGlobalScope q, remark.location⟩
  | .attributeInFragment => some ⟨.attributeInFragmentShader, remark.location⟩
  | _ => none

/-- Nothing about storage qualifiers is lost in remarks. -/
theorem storageProblems_eq (problems : List SemanticError) :
    storageProblems problems = (remarksIn problems).filterMap Remark.storageProblem? := by
  rw [storageProblems, remarksIn, List.filterMap_filterMap, ← List.filterMap_eq_filter]
  apply List.filterMap_congr
  rintro ⟨cause, location⟩ -
  cases cause <;> rfl

section

variable {stage : Stage} {env : Env}

theorem StorageWord.storageProblems_remarks (word : StorageWord) :
    (word.remarks stage).filterMap Remark.storageProblem? = word.problems stage := by
  unfold remarks problems
  split <;> split <;> rfl

theorem Env.storageProblems_variableRemarks (name : Token) :
    (env.variableRemarks stage name).filterMap Remark.storageProblem? = [] := by
  unfold variableRemarks
  split
  · rfl
  · rfl
  · split <;> rfl

theorem Env.storageProblems_typeRemarks (name : Token) :
    (env.typeRemarks name).filterMap Remark.storageProblem? = [] := by
  unfold typeRemarks
  split
  · rfl
  · rfl
  · split <;> rfl

theorem Env.storageProblems_redeclaration (name : Token) :
    (env.redeclaration name).filterMap Remark.storageProblem? = [] := by
  unfold redeclaration
  split <;> rfl

theorem Env.storageProblems_functionRedeclaration (name : Token) :
    (env.functionRedeclaration name).filterMap Remark.storageProblem? = [] := by
  unfold functionRedeclaration
  split <;> rfl

theorem Expr.storageProblems_writeRemarks (target : Expr) :
    target.writeRemarks.filterMap Remark.storageProblem? = [] := by
  unfold writeRemarks
  split
  · split
    · split <;> rfl
    · rfl
  · split <;> rfl

/-- Only storage qualifiers call for problems with storage qualifiers. -/
theorem ScopeEvent.storageProblems_remarks (event : ScopeEvent) :
    (event.remarks stage env).filterMap Remark.storageProblem? =
      (storageIn [event]).flatMap (StorageWord.problems stage) := by
  cases event with
  | enter => rfl
  | leave => rfl
  | «variable» words name symbol => exact Env.storageProblems_redeclaration name
  | struct name defined => exact Env.storageProblems_redeclaration name
  | function name => exact Env.storageProblems_functionRedeclaration name
  | reference name symbol => exact Env.storageProblems_variableRemarks name
  | invariant name symbol => exact Env.storageProblems_variableRemarks name
  | typeName name => exact Env.storageProblems_typeRemarks name
  | write target => exact target.storageProblems_writeRemarks
  | storage word =>
      rw [show storageIn [.storage word] = [word] from rfl, List.flatMap_singleton]
      exact word.storageProblems_remarks

/-- The environment does not matter for them. -/
theorem Env.storageProblems_remarks (events : List ScopeEvent) :
    (env.remarks stage events).filterMap Remark.storageProblem? =
      (storageIn events).flatMap (StorageWord.problems stage) := by
  induction events generalizing env with
  | nil => rfl
  | cons event events ih =>
      rw [remarks, List.filterMap_append, event.storageProblems_remarks, ih,
        ← List.flatMap_append, ← storageIn_append]
      rfl

end

/-! ## Shaders -/

namespace Shader

variable {tokens : List Token}

/-- Typing notes the problems with the words in declarations of variables, types and invariants, in
their order, and no other ones. A type with storage qualifiers stands in one of these declarations,
in a condition or in front of a function. -/
theorem analyze_storageProblems (ht : ∀ t ∈ tokens, t.Written) (stage : Stage)
    (order : FunctionOrder) :
    let shader := (parseShader tokens).shader
    storageProblems (shader.analyze stage order).problems =
        (checkedWords shader.storageUses).flatMap (StorageWord.problems stage) ∧
      ∀ s, .typeSpec s ∈ shader.nodes → s.PlacedIn shader.storageUses := by
  intro shader
  refine ⟨?_, fun s hs => parseShader_placedIn tokens (.typeSpec s) hs⟩
  obtain ⟨-, hremarks⟩ := analyze_follows (parseShader_placed ht) stage order
  have hwords : storageIn (shader.analyze stage order).value.trace =
      checkedWords shader.storageUses := by
    rw [storageIn_trace, ← checkedWords_erase, ← shader.checkedWords_erase, erase_analyze]
  rw [storageProblems_eq, hremarks, Env.storageProblems_remarks, hwords]

/-- The attribute `b` is wrong twice: as a local variable and in a fragment shader. -/
theorem analyze_storageProblems_declarations :
    let shader := ofText "attribute vec4 a; void f() { uniform int u; { attribute int b; } }"
    storageProblems (shader.analyze .fragment).problems =
      (checkedWords shader.storageUses).flatMap (StorageWord.problems .fragment) ∧
      (storageProblems (shader.analyze .fragment).problems).length = 4 := by
  intro shader
  refine ⟨?_, by decide +kernel⟩
  exact (analyze_storageProblems (Code.written_scan _) .fragment .newestFirst).1

/-- Typing says nothing about `uniform` in a condition, and nothing about `attribute` in front of a
function. -/
theorem analyze_storage_unchecked :
    let loop := ofText "void f() { while (uniform bool b = true) {} }"
    let prototype := ofText "attribute float f();"
    let words := fun shader : Shader => shader.storageUses.flatMap fun use =>
      use.type?.toList.flatMap fun s => s.qualifiers.storage.map Token.text
    words loop = ["uniform"] ∧ (loop.analyze .vertex).problems = [] ∧
      words prototype = ["attribute"] ∧ (prototype.analyze .fragment).problems = [] := by
  intro loop prototype words
  decide +kernel

end Shader

end Essl
