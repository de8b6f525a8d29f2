import Essl.Stage
import Essl.Symbol

/-!
# Built-in variables and constants

The constants are the same in all shaders, the variables differ between stages.
-/

namespace Essl.Builtin

/-- The limits of the implementation. -/
def limits : List (String × Int32) :=
  [("gl_MaxVertexAttribs", 8),
   ("gl_MaxVertexUniformVectors", 128),
   ("gl_MaxVaryingVectors", 8),
   ("gl_MaxVertexTextureImageUnits", 0),
   ("gl_MaxCombinedTextureImageUnits", 8),
   ("gl_MaxTextureImageUnits", 8),
   ("gl_MaxFragmentUniformVectors", 16),
   ("gl_MaxDrawBuffers", 1)]

/-- A constant that the language defines. -/
def constant (name : String) (value : Int32) : Variable where
  name := name
  type := some Ty.int
  qualifiers := .ofList [.const]
  constant := some (.int value)
  readOnly := true
  declaredAt := none

/-- A variable that connects a stage with the rest of the pipeline. -/
def stageVariable (name : String) (type : Ty) (readOnly : Bool) : Variable where
  name := name
  type := some type
  qualifiers := .empty
  constant := none
  readOnly := readOnly
  declaredAt := none

/-- The limits of an implementation as constants. -/
def constants : List Variable := limits.map fun (name, value) => constant name value

/-- The variables of a stage. There is one element of fragment data for each draw buffer. -/
def stageVariables : Stage → List Variable
  | .vertex =>
    [stageVariable "gl_Position" (.primitive (.vector .float .four)) false,
     stageVariable "gl_PointSize" .float false]
  | .fragment =>
    [stageVariable "gl_FragCoord" (.primitive (.vector .float .four)) true,
     stageVariable "gl_FrontFacing" .bool true,
     stageVariable "gl_FragColor" (.primitive (.vector .float .four)) false,
     stageVariable "gl_FragData" (.array (.primitive (.vector .float .four)) 1) false,
     stageVariable "gl_PointCoord" (.primitive (.vector .float .two)) true]

/-- The built-in variable with the name that a shader of the stage sees. -/
def variableNamed? (name : String) (stage : Stage) : Option Variable :=
  (stageVariables stage ++ constants).find? (·.name == name)

end Essl.Builtin
