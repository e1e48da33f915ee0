/-
**Reductions of rows, and matrix-vector products.**

One kernel folds the rows of the matrix as the operation reads it. Dimension 0 of a group walks the
rows, all its workers making the same trips; dimension 1 splits a row, and the pieces are folded in
local memory, whose rows are one slot longer than there are workers.

* `RowReduction.batch` — the statements with their products, and the shape they share.
* `RowReduction.code` — the code of the kernel.
* `RowReduction.generate` — the program of an operation whose rows are folded by any operators.
* `MatrixVector.generate` — the program of an operation whose products multiply a matrix and a
  vector.
-/

import TunedKernel.Generator.Accumulators
import TunedKernel.Generator.Arguments
import TunedKernel.Kernel.Walk
import TunedKernel.Tuning.Records

namespace TunedKernel.RowReduction

/-! ### The batch -/

/-- How a report tells two shapes apart. -/
def describe (first next : Extent × Extent) : String :=
  s!"matrix extent ({first.1.text} x {first.2.text} against {next.1.text} x {next.2.text})"

/-- What a kernel asks of a product besides its shape. -/
abbrev Demand := Nat → Product → Generated Unit

/-- The matrix of a product: the first one on the left, read with the transposition of the kernel.
The right operand has none. -/
def productMatrix (kind : Operation.Kind) (transposed : Bool) (position : Nat) (p : Product) :
    Generated MatrixOperand :=
  match p.matrix? with
  | none => refuse (.productShape kind position "the left operand must be matrix-valued")
  | some m =>
    if p.rightMatrix?.isSome then
      refuse (.productShape kind position "the right operand must be a vector expression")
    else if m.transposed = transposed then .ok m
    else
      let direction := if m.transposed then "" else "not "
      refuse (.productShape kind position s!"`{m.name}` is {direction}transposed")

/-- Checks a statement, and its shape against those before it. -/
def checkStatement (kind : Operation.Kind) (transposed : Bool) (demand : Demand)
    (state : List Folded × Option (Extent × Extent)) (entry : Statement × Nat) :
    Generated (List Folded × Option (Extent × Extent)) :=
  match entry.1.target with
  | .vector _ => do
    let product ← theProduct kind entry.2 entry.1
    let m ← productMatrix kind transposed entry.2 product
    demand entry.2 product
    let shape ← agree describe state.2 (m.logicalRows, m.logicalCols)
    return (state.1 ++ [⟨entry.1, product, entry.2⟩], shape)
  | target => wrongTarget kind entry.2 "vector" target

/-- The statements with their products, and the rows and columns that their matrices share. -/
def batch (kind : Operation.Kind) (transposed : Bool) (demand : Demand) (op : Operation) :
    Generated (List Folded × Extent × Extent) := do
  let (folded, shape) ←
    op.statements.zipIdx.foldlM (checkStatement kind transposed demand) ([], none)
  match shape with
  | some (rows, cols) => return (folded, rows, cols)
  | none => refuse .emptyOperation

/-! ### The kernel -/

/-- The variables of the rows and of the columns; they are named for the axes of the matrix as it
is stored. -/
def counters (transposed : Bool) : String × String :=
  if transposed then ("c", "r") else ("r", "c")

/-- The code of the kernel. -/
def code (p : RowTuning) (transposed : Bool) (type : NumericType) (dims : List Nat)
    (folded : List Folded) (rows cols : Extent) : Generated Code := do
  let (outer, inner) := counters transposed
  let lane₀ := Term.name "lid0"
  let lane₁ := Term.name "lid1"
  let inside := Term.binary .less (.name outer) rows.term
  let elements := ((Scope.bare type).withIndex (.name inner)).withElement (.name outer) (.name inner)
  let terms ← folded.mapM fun f => do
    return f.accumulate f.sum (← accepted (f.product.term elements))
  let tree ← Tree.code (Folded.trees type dims folded) [lane₀] lane₁ p.localSize1.toNat
  let stores ← folded.mapM fun f =>
    f.statement.storeStep (((Scope.bare type).withIndex (.name outer)).withProduct
      (Tree.result (f.buffer type dims) [lane₀]))
  return Code.join [
    Code.ofSteps (folded.map fun f => .declareLocal (f.buffer type dims)),
    Code.ofSteps [.declare .index "lid0" (.query .localId 0),
      .declare .index "lid1" (.query .localId 1)],
    (Walk.uniform outer 0 rows.term).around (Code.join [
      Code.ofSteps (folded.map fun f => f.declareSum type),
      Code.ofGuard inside ((Walk.strided inner 1 cols.term).around (Code.ofSteps terms)),
      Code.ofSteps (folded.map fun f => f.publish (f.buffer type dims) [lane₀, lane₁]),
      tree,
      Code.ofGuard (.binary .both (.binary .equal lane₁ (.count 0)) inside) (Code.ofSteps stores),
      Code.ofSteps [.barrier]])]

/-- The program of an operation for kernels of one kind. -/
def generateFor (kind : Operation.Kind) (transposed : Bool) (demand : Demand) (p : RowTuning)
    (op : Operation) : Generated Program := do
  requireStatements op
  requireScalarWidth kind p.simdWidth.toNat
  let (folded, rows, cols) ← batch kind transposed demand op
  let type := op.numericType
  let arguments ← accepted (collectArguments op 1)
  let row ← Word.bits32.add p.localSize1.toNat 1
  let dims := [p.localSize0.toNat, row]
  let bytes ← Folded.localBytes type dims folded
  let body ← code p transposed type dims folded rows cols
  return {
    kernels := [{
      name := kind.identifier
      arguments := arguments
      geometry := .plane p.localSize0.toNat p.localSize1.toNat (.fixed p.numGroups0.toNat)
        (.fixed 1)
      localMemBytes := bytes
      scratchElements := 0
      body := body }]
    profile := TunedRecord.tag p }

/-- The program of an operation that folds rows. -/
def generate (transposed : Bool) (p : RowTuning) (op : Operation) : Generated Program :=
  generateFor (.rowReduction transposed) transposed (fun _ _ => .ok ()) p op

end TunedKernel.RowReduction

namespace TunedKernel.MatrixVector

/-- A matrix-vector kernel evaluates sums of products of two operands. -/
def demand (kind : Operation.Kind) : RowReduction.Demand := fun position p => do
  require p.isPlain (.productShape kind position
    "matrix-vector kernels need `combine = mul` and `reduce = add`")
  require p.rhs.isSome (.productShape kind position "the product has no vector operand")

/-- The program of an operation that multiplies a matrix and a vector. -/
def generate (transposed : Bool) (p : RowTuning) (op : Operation) : Generated Program :=
  let kind := .matrixVector transposed
  RowReduction.generateFor kind transposed (demand kind) p op

end TunedKernel.MatrixVector
