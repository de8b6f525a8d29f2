import Essl.Parser
import Essl.Preprocessor
import Essl.Typing.Shader

/-!
# Compilation

From the text of a shader to its typed tree and all that is wrong with it.
-/

namespace Essl

/-- Anything that can be wrong with a shader. -/
inductive Diagnostic where
  | front (error : FrontError)
  | semantic (error : SemanticError)

namespace Diagnostic

/-- The place that a diagnostic is about. -/
def location : Diagnostic → Location
  | front error => error.location
  | semantic error => error.location

/-- The diagnostic as it is shown. -/
def toMessage : Diagnostic → Message
  | front error => error.cause.toMessage error.location
  | semantic error => error.cause.toMessage error.location

end Diagnostic

/-- A compiled shader. After a syntax error it has the declarations before the error. -/
structure Compilation where
  shader : Shader
  diagnostics : List Diagnostic

/-- Preprocesses, parses and types a shader, with macros that are defined before it starts. -/
def Code.compile (code : Code) (defines : List (String × String)) (stage : Stage)
    (order : FunctionOrder := .newestFirst) : Compilation :=
  let (shader, errors, _) := (Parser.ofFeed (code.preprocess defines)).shader
  let typed := shader.analyze stage order
  ⟨typed.value, errors.map .front ++ typed.problems.map .semantic⟩

end Essl
