/-
**Element-wise matrix statements.**

One kernel walks the rows and columns of the targets, as the operation reads them, and carries out
the statements for each element.

* `MatrixStatements.commonShape` — the rows and columns that all targets have.
* `MatrixStatements.generate` — the program of an operation.
-/

import TunedKernel.Generator.Arguments
import TunedKernel.Generator.Requirements
import TunedKernel.Kernel.Walk
import TunedKernel.Tuning.Records

namespace TunedKernel.MatrixStatements

/-- The kind of these kernels. -/
def kind : Operation.Kind := .matrixStatements

/-- How a report tells two shapes apart. -/
def describe (first next : Extent × Extent) : String :=
  s!"matrix shape ({first.1.text} x {first.2.text} against {next.1.text} x {next.2.text})"

/-- Checks a statement, and its shape against those before it. -/
def checkStatement (shape : Option (Extent × Extent)) (entry : Statement × Nat) :
    Generated (Option (Extent × Extent)) :=
  match entry.1.target with
  | .matrix m => do
    forbidProducts kind entry.2 entry.1
    agree describe shape (m.logicalRows, m.logicalCols)
  | target => wrongTarget kind entry.2 "matrix" target

/-- The rows and columns that all targets have. -/
def commonShape (op : Operation) : Generated (Extent × Extent) := do
  match ← op.statements.zipIdx.foldlM checkStatement none with
  | some shape => return shape
  | none => refuse .emptyOperation

/-- The program of an operation. -/
def generate (p : MatrixTuning) (op : Operation) : Generated Program := do
  requireStatements op
  requireScalarWidth kind p.simdWidth.toNat
  let (rows, cols) ← commonShape op
  let arguments ← accepted (collectArguments op 1)
  let scope := (Scope.bare op.numericType).withElement (.name "row") (.name "col")
  let stores ← op.statements.mapM (Statement.storeStep scope)
  let walks := [Walk.split p.strided "row" 0 rows.term, Walk.split p.strided "col" 1 cols.term]
  return {
    kernels := [{
      name := kind.identifier
      arguments := arguments
      geometry := .plane p.localSize0.toNat p.localSize1.toNat (.fixed p.numGroups0.toNat)
        (.fixed p.numGroups1.toNat)
      localMemBytes := 0
      scratchElements := 0
      body := Walk.nest walks (Code.ofSteps stores) }]
    profile := TunedRecord.tag p }

end TunedKernel.MatrixStatements
