import Essl.Proofs.Tree.Coverage
import Essl.Proofs.Typing.Guarantees
import Essl.Proofs.Typing.ShaderTrace

/-!
# Names are scoped lexically

Which variable a name stands for can be told from the trace: it is the one that the environment has
at that place, built by the declarations before it in the scopes that are still open.
-/

namespace Essl

open Grammar

/-- Names in a typed shader, and the problems with them, are as the environments of its trace have
it. -/
structure Shader.LexicallyScoped (stage : Stage) (typed : Shader)
    (problems : List SemanticError) : Prop where
  /-- Every variable in an expression is a reference of the trace. -/
  references : referencesIn typed.trace = variablesIn typed.nodes
  /-- Every event is right in the environment that those before it lead to. -/
  right : ∀ before event rest, typed.trace = before ++ event :: rest →
    event.Right stage (Env.empty.run before)
  /-- What is wrong with names is noted once, in the order of the trace, and nothing else is. -/
  remarks : remarksIn problems = Env.empty.remarks stage typed.trace

namespace Shader

variable {tokens : List Token}

/-- Parameters share the scope of the body, and the types in a header stand around it. -/
theorem analyze_lexicallyScoped (ht : ∀ t ∈ tokens, t.Written) (stage : Stage)
    (order : FunctionOrder) :
    let analysis := (parseShader tokens).shader.analyze stage order
    LexicallyScoped stage analysis.value analysis.problems := by
  intro analysis
  obtain ⟨hright, hremarks⟩ := analyze_follows (parseShader_placed ht) stage order
  exact ⟨referencesIn_trace _, fun _ _ _ => hright.at, hremarks⟩

/-- The initial value of the local variable is the one at file scope, and what comes after it is
the local variable. -/
theorem analyze_lexicallyScoped_shadowing :
    let analysis := (ofText "int x; void f() { int x = x; x; }").analyze .vertex
    let declaration := fun (name, symbol) =>
      (Token.text name, (Option.bind symbol Symbol.declaredAt).map (·.start))
    (variablesIn analysis.value.nodes).map declaration = [("x", some 4), ("x", some 22)] ∧
      LexicallyScoped .vertex analysis.value analysis.problems := by
  intro analysis declaration
  exact ⟨by decide +kernel, analyze_lexicallyScoped (Code.written_scan _) .vertex .newestFirst⟩

/-- The size `n` does not stand for the parameter in front of it, and `f` without a type for its
parameter is not declared as a function, so that a variable can have the name. -/
theorem analyze_header_outside_scope :
    let sized := (ofText "void f(int n, float a[n]) {}").analyze .vertex
    let declared := sized.value.nodes.filterMap Node.declared?
    let untyped := (ofText "int f(S s); int f;").analyze .vertex
    ((∃ v ∈ declared, v.name = "n" ∧ v.declaredAt.map (·.start) = some 11) ∧
      (variablesIn sized.value.nodes).map
        (fun r => (r.1.text, r.1.location.start, r.2.isSome)) = [("n", 22, false)] ∧
      sized.problems.map (·.cause) = [.undeclaredIdentifier "n"]) ∧
    untyped.problems.map (·.cause) = [.undeclaredIdentifier "S"] := by
  intro sized declared untyped
  decide +kernel

end Shader

end Essl
