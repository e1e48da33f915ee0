/-
**Element-wise vector statements.**

One kernel walks the elements of the targets and carries out the statements for each. The vectors
are passed in packed elements, so the walk is shorter by the width of the record.

* `VectorStatements.commonSize` — the size that all targets have.
* `VectorStatements.generate` — the program of an operation.
-/

import TunedKernel.Generator.Arguments
import TunedKernel.Generator.Requirements
import TunedKernel.Kernel.Walk
import TunedKernel.Tuning.Records

namespace TunedKernel.VectorStatements

/-- The kind of these kernels. -/
def kind : Operation.Kind := .vectorStatements

/-- How a report tells two sizes apart. -/
def describe (first next : Extent) : String :=
  s!"vector size (`{first.text}` against `{next.text}`)"

/-- Checks a statement, and its size against those before it. -/
def checkStatement (size : Option Extent) (entry : Statement × Nat) : Generated (Option Extent) :=
  match entry.1.target with
  | .vector v => do
    forbidProducts kind entry.2 entry.1
    agree describe size v.size
  | target => wrongTarget kind entry.2 "vector" target

/-- The size that all targets have. -/
def commonSize (op : Operation) : Generated Extent := do
  requireStatements op
  match ← op.statements.zipIdx.foldlM checkStatement none with
  | some size => return size
  | none => refuse .emptyOperation

/-- The program of an operation. -/
def generate (p : VectorTuning) (op : Operation) : Generated Program := do
  let size ← commonSize op
  let width := p.simdWidth.toNat
  requirePacked kind width
  let arguments ← accepted (collectArguments op width)
  let bound ← packedBound kind size width
  let scope := (Scope.bare op.numericType).withIndex (.name "i")
  let stores ← op.statements.mapM (Statement.storeStep scope)
  return {
    kernels := [{
      name := kind.identifier
      arguments := arguments
      geometry := .line p.localSize.toNat (.fixed p.numGroups.toNat)
      localMemBytes := 0
      scratchElements := 0
      body := (Walk.split p.strided "i" 0 bound).around (Code.ofSteps stores) }]
    profile := TunedRecord.tag p }

end TunedKernel.VectorStatements
