/-
**Operands and their extents.**

* `Extent` — a size: a number, or a symbol whose value is passed at launch.
* `Scalar`, `VectorOperand`, `MatrixOperand` — the leaves of an expression.
* `MatrixOperand.logicalRows`, `logicalCols` — the shape of the matrix as the operation reads it,
  with rows and columns exchanged when it is read transposed.
* `MatrixOperand.rowsAdjacent` — whether consecutive rows, as the operation reads them, stand side
  by side in memory.
-/

namespace TunedKernel

/-- The extent of an operand along one axis. -/
inductive Extent where
  /-- Known when the kernel is generated. -/
  | fixed (n : UInt64)
  /-- Passed to the kernel under this name. -/
  | symbol (name : String)
deriving DecidableEq, Repr

namespace Extent

/-- The name of an extent that is passed at launch. -/
def symbol? : Extent → Option String
  | fixed _ => none
  | symbol name => some name

/-- An extent as it stands in kernel code. -/
def text : Extent → String
  | fixed n => toString n.toNat ++ "u"
  | symbol name => name

end Extent

/-- A scalar operand. -/
inductive Scalar where
  /-- Passed by value. -/
  | host (name : String)
  /-- The only element of a buffer of the device. -/
  | device (name : String)
  /-- A constant, put into the kernel as it stands. -/
  | literal (value : String)
deriving DecidableEq, Repr

namespace Scalar

/-- The name of a scalar that is passed to the kernel. -/
def name? : Scalar → Option String
  | host name => some name
  | device name => some name
  | literal _ => none

end Scalar

/-- A vector operand. -/
structure VectorOperand where
  name : String
  size : Extent
deriving DecidableEq, Repr

/-- The storage order of a matrix. -/
inductive Layout where
  | rowMajor
  | columnMajor
deriving DecidableEq, Repr

namespace Layout

def all : List Layout := [rowMajor, columnMajor]

/-- The name of a storage order. -/
def name : Layout → String
  | rowMajor => "row_major"
  | columnMajor => "column_major"

/-- The storage order of a name. -/
def ofName? (s : String) : Option Layout := all.find? fun l => l.name == s

theorem ofName?_name (l : Layout) : ofName? l.name = some l := by cases l <;> decide

end Layout

/-- A matrix operand. It is stored as `rows` by `cols` elements inside an allocation of
`internalRows` by `internalCols`. -/
structure MatrixOperand where
  name : String
  rows : Extent
  cols : Extent
  internalRows : Extent
  internalCols : Extent
  layout : Layout
  /-- The operation reads the transposed matrix. -/
  transposed : Bool
deriving DecidableEq, Repr

namespace MatrixOperand

/-- A matrix without padding, stored by rows and read as it is. -/
def plain (name : String) (rows cols : Extent) : MatrixOperand :=
  ⟨name, rows, cols, rows, cols, .rowMajor, false⟩

/-- The same matrix inside an allocation of another size. -/
def padded (m : MatrixOperand) (rows cols : Extent) : MatrixOperand :=
  { m with internalRows := rows, internalCols := cols }

/-- The same matrix stored by columns. -/
def columnMajor (m : MatrixOperand) : MatrixOperand := { m with layout := .columnMajor }

/-- The same matrix read with rows and columns exchanged. -/
def transpose (m : MatrixOperand) : MatrixOperand := { m with transposed := !m.transposed }

/-- The rows of the matrix as the operation reads it. -/
def logicalRows (m : MatrixOperand) : Extent := if m.transposed then m.cols else m.rows

/-- The columns of the matrix as the operation reads it. -/
def logicalCols (m : MatrixOperand) : Extent := if m.transposed then m.rows else m.cols

/-- Whether consecutive rows of the matrix, as the operation reads it, are adjacent in memory. -/
def rowsAdjacent (m : MatrixOperand) : Bool :=
  match m.layout, m.transposed with
  | .columnMajor, false | .rowMajor, true => true
  | _, _ => false

end MatrixOperand

end TunedKernel
