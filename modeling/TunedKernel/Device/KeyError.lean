/-
**Texts that name no key.**
-/

namespace TunedKernel

/-- A text that does not name a key of the kind wanted. -/
structure KeyError where
  /-- The kind of key wanted. -/
  wanted : String
  /-- The text as it was given. -/
  value : String
deriving DecidableEq, Repr

/-- The report of a text that names no key. -/
def KeyError.message (e : KeyError) : String :=
  s!"unknown {e.wanted} `{e.value}`"

end TunedKernel
