/-
**Diagnostics.**
-/

namespace TunedKernel

/-- A failure as it is reported: a stable code, a text, and advice where there is some. -/
structure Diagnostic where
  code : String
  message : String
  help : Option String
deriving DecidableEq, Repr

end TunedKernel
