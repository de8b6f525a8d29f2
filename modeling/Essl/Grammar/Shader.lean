import Essl.Grammar.Statement

/-!
# Grammar of shaders

Declarations up to the end of the tokens. A syntax error ends the shader; the
declarations before it are kept.
-/

namespace Essl.Grammar

/-- The declarations in front of a syntax error, or all of them. -/
structure ParsedShader where
  declarations : List Declaration
  failure : Option SyntaxFailure

/-- At most so many declarations. -/
def shaderWithin : Nat → List Token → ParsedShader
  | 0, _ | _, [] => ⟨[], none⟩
  | turns + 1, t :: rest =>
    match declarationRule.parse t rest with
    | .ok (d, rest) =>
      let later := shaderWithin turns rest
      ⟨d :: later.declarations, later.failure⟩
    | .error failure => ⟨[], some failure⟩

/-- The shader that the tokens make. -/
def parseShader (tokens : List Token) : ParsedShader := shaderWithin tokens.length tokens

/-- The declarations read before the end or the failure. -/
def ParsedShader.shader (parsed : ParsedShader) : Shader := ⟨parsed.declarations⟩

end Essl.Grammar
