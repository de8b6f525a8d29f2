/-!
# Stages

The programmable stages of the pipeline, one kind of shader for each.
-/

namespace Essl

/-- The stage that a shader is for. -/
inductive Stage where
  | vertex
  | fragment
  deriving DecidableEq

end Essl
