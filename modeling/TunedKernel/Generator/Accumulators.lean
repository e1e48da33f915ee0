/-
**Accumulators of a batch.**

Statements whose value holds a product are folded side by side. Each has a number in its batch, a
variable that accumulates its terms, and a buffer of local memory for the partial values of the
workers.

* `Folded` — a statement with its product and its number.
* `Folded.sum`, `Folded.buffer` — its variable and its buffer.
* `Folded.declareSum`, `Folded.accumulate`, `Folded.publish` — the steps that start the variable,
  take in a further value, and hand the variable to the group.
* `localBytes` — the bytes of local memory that a batch uses.
-/

import TunedKernel.Generator.Requirements
import TunedKernel.Kernel.Tree

namespace TunedKernel

/-- A statement with its product and its number in the batch. -/
structure Folded where
  statement : Statement
  product : Product
  position : Nat
deriving DecidableEq, Repr

namespace Folded

/-- The variable that accumulates the terms. -/
def sumName (f : Folded) : String := "sum" ++ toString f.position

/-- The accumulating variable as a term. -/
def sum (f : Folded) : Term := .name f.sumName

/-- The buffer for the partial values of the workers. -/
def buffer (f : Folded) (type : NumericType) (dims : List Nat) : LocalMemory :=
  ⟨"buf" ++ toString f.position, type.text, dims⟩

/-- Starts the accumulating variable. -/
def declareSum (f : Folded) (type : NumericType) : Step :=
  .declare (.scalar type) f.sumName (f.product.reduce.neutral type)

/-- Takes a further value into a variable. -/
def accumulate (f : Folded) (into value : Term) : Step :=
  .store into .assign (f.product.reduce.combine into value)

/-- Hands the accumulated value to the group. -/
def publish (f : Folded) (buffer : LocalMemory) (slot : List Term) : Step :=
  .store (buffer.access slot) .assign f.sum

/-- The buffers of a batch with the operators that fold them. -/
def trees (type : NumericType) (dims : List Nat) (batch : List Folded) : Tree.Buffers :=
  batch.map fun f => (f.buffer type dims, f.product.reduce)

/-- The bytes of local memory that a batch uses. -/
def localBytes {ε : Type} (type : NumericType) (dims : List Nat) (batch : List Folded) :
    Except (Fault ε) Nat := do
  Word.bits64.sum (← batch.mapM fun f => (f.buffer type dims).bytes type.size)

end Folded

end TunedKernel
