/-
**Local memory.**

* `LocalMemory` — an array that the workers of a group share.
* `LocalMemory.declaration`, `LocalMemory.access` — its declaration, and one of its elements.
* `LocalMemory.elements`, `LocalMemory.bytes` — its size, formed in 64 bits.
-/

import TunedKernel.Fault
import TunedKernel.Kernel.Term

namespace TunedKernel

/-- An array that the workers of a group share. -/
structure LocalMemory where
  name : String
  element : String
  dims : List Nat
deriving DecidableEq, Repr

namespace LocalMemory

/-- Dimensions as they stand in a declaration. -/
def dimensions (dims : List Nat) : String :=
  String.join (dims.map fun d => "[" ++ toString d ++ "]")

/-- The declaration of the array. -/
def declaration (m : LocalMemory) : String :=
  "__local " ++ m.element ++ " " ++ m.name ++ dimensions m.dims ++ ";"

/-- An element of the array. -/
def access (m : LocalMemory) (subscripts : List Term) : Term :=
  Term.element (.name m.name) subscripts

/-- The number of elements. -/
def elements {ε : Type} (m : LocalMemory) : Except (Fault ε) Nat := Word.bits64.product m.dims

/-- The size in bytes, for elements of a given size. -/
def bytes {ε : Type} (m : LocalMemory) (elementSize : Nat) : Except (Fault ε) Nat := do
  Word.bits64.mul (← m.elements) elementSize

end LocalMemory

end TunedKernel
