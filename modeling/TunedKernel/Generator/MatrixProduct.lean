/-
**Matrix products.**

A group owns a tile of the result and walks the shared dimension by the depth of the tile. Each of
its workers accumulates a block of the tile, whose rows and columns are as far apart as there are
workers along that dimension. An operand that is staged is fetched into local memory tile by tile,
so that neighbouring workers read neighbouring addresses; its rows there are one slot longer than
the tile. The extents have to be multiples of the tile.

* `MatrixProduct.Problem` — the parts of a statement that this kernel evaluates.
* `MatrixProduct.Problem.ofOperation` — the parts of an operation, or why it does not fit.
* `MatrixProduct.Tiling` — the sizes that the code is written for.
* `MatrixProduct.code` — the code of the kernel.
* `MatrixProduct.generate` — the program of an operation.
-/

import TunedKernel.Generator.Arguments
import TunedKernel.Generator.Requirements
import TunedKernel.Kernel.Walk
import TunedKernel.Tuning.Records

namespace TunedKernel.MatrixProduct

/-! ### The problem -/

/-- The parts of a statement that this kernel evaluates. -/
structure Problem where
  statement : Statement
  lhs : MatrixOperand
  rhs : MatrixOperand
  combine : BinaryOp
  reduce : ReduceOp
deriving DecidableEq, Repr

namespace Problem

/-- The two matrices that a product multiplies. -/
def operands (kind : Operation.Kind) (p : Product) : Generated (MatrixOperand × MatrixOperand) :=
  match p.lhs, p.rhs with
  | .matrix lhs, some (.matrix rhs) => .ok (lhs, rhs)
  | _, _ => refuse (.productShape kind 0 "both operands must be matrices")

/-- Refuses operands that are read in another way than the kernel is written for, and extents that
do not meet. -/
def checkShapes (kind : Operation.Kind) (leftTransposed rightTransposed : Bool)
    (target lhs rhs : MatrixOperand) : Generated Unit := do
  require (lhs.transposed == leftTransposed && rhs.transposed == rightTransposed)
    (.productShape kind 0 s!"operand transposition does not match a {kind.text} kernel")
  require (lhs.logicalCols == rhs.logicalRows)
    (.productShape kind 0
      s!"inner extents differ (`{lhs.logicalCols.text}` against `{rhs.logicalRows.text}`)")
  require (target.logicalRows == lhs.logicalRows && target.logicalCols == rhs.logicalCols)
    (.productShape kind 0
      s!"`{target.name}` is not {lhs.logicalRows.text} x {rhs.logicalCols.text}")

/-- The parts of an operation's only statement. -/
def ofOperation (leftTransposed rightTransposed : Bool) (op : Operation) : Generated Problem := do
  let kind := .matrixProduct leftTransposed rightTransposed
  match op.statements with
  | [s] =>
    match s.target with
    | .matrix target =>
      let product ← theProduct kind 0 s
      let (lhs, rhs) ← operands kind product
      checkShapes kind leftTransposed rightTransposed target lhs rhs
      return ⟨s, lhs, rhs, product.combine, product.reduce⟩
    | target => wrongTarget kind 0 "matrix" target
  | statements =>
    refuse (.inconsistentBatch
      s!"a matrix product per program, found {statements.length} statements")

end Problem

/-! ### The sizes -/

/-- The sizes that the code is written for. -/
structure Tiling where
  record : ProductTuning
  /-- The rows of the result tile. -/
  ml : Nat
  /-- The columns of the result tile. -/
  nl : Nat
  left : LocalMemory
  right : LocalMemory
deriving DecidableEq, Repr

namespace Tiling

/-- The tile of a record. -/
def extents (p : ProductTuning) : Generated (Nat × Nat) := do
  return (← p.tileRows, ← p.tileCols)

/-- The sizes for a record with a given tile; the rows of both local tiles are one slot longer. -/
def ofRecord (p : ProductTuning) (type : NumericType) (ml nl : Nat) : Generated Tiling := do
  let left ← Word.bits32.add ml 1
  let right ← Word.bits32.add nl 1
  return {
    record := p
    ml := ml
    nl := nl
    left := ⟨"lA", type.text, [p.kl.toNat, left]⟩
    right := ⟨"lB", type.text, [p.kl.toNat, right]⟩ }

/-- The local tiles that are in use. -/
def memories (t : Tiling) : List LocalMemory :=
  (if t.record.stageLeft then [t.left] else []) ++ (if t.record.stageRight then [t.right] else [])

/-- The bytes of local memory in use. -/
def bytes (t : Tiling) (type : NumericType) : Generated Nat :=
  t.memories.foldlM (fun total m => do Word.bits64.add total (← m.bytes type.size)) 0

end Tiling

/-! ### The code -/

/-- The variables of the code. -/
def v (name : String) : Term := .name name

/-- The row inside the tile that a worker's register row `m` stands for. -/
def blockRow (p : ProductTuning) : Term := v "lid0" + v "m" * .count p.localSize0.toNat

/-- The column inside the tile that a worker's register column `n` stands for. -/
def blockCol (p : ProductTuning) : Term := v "lid1" + v "n" * .count p.localSize1.toNat

/-- The row of the result that a worker's register row `m` stands for. -/
def resultRow (p : ProductTuning) : Term := v "gm" + v "lid0" + v "m" * .count p.localSize0.toNat

/-- The column of the result that a worker's register column `n` stands for. -/
def resultCol (p : ProductTuning) : Term := v "gn" + v "lid1" + v "n" * .count p.localSize1.toNat

/-- An element of a register block. -/
def register (name : String) (row col : Term) : Term := Term.element (v name) [row, col]

/-- Stores into an element. -/
def put (target value : Term) : Code := Code.ofSteps [.store target .assign value]

/-- The variables of a worker. The workers are numbered anew for fetching, by the fetch shape. -/
def prologue (t : Tiling) (type : NumericType) : Code :=
  let p := t.record
  let numbering := if p.staged then
      [.declare .index "flat" (v "lid0" + v "lid1" * .count p.localSize0.toNat),
        .declare .index "fid0" (v "flat" % .count p.localFetch0.toNat),
        .declare .index "fid1" (v "flat" / .count p.localFetch0.toNat)]
    else []
  Code.ofSteps (t.memories.map Step.declareLocal ++
    [.declare .index "lid0" (.query .localId 0), .declare .index "lid1" (.query .localId 1),
      .declare .index "gm" (.query .groupId 0 * .count t.ml),
      .declare .index "gn" (.query .groupId 1 * .count t.nl)] ++
    numbering ++
    [.declareArray (.scalar type) "rC" [p.ms.toNat, p.ns.toNat],
      .declareArray (.scalar type) "rA" [p.ks.toNat, p.ms.toNat],
      .declareArray (.scalar type) "rB" [p.ks.toNat, p.ns.toNat]])

/-- Starts the register block of the result. -/
def clear (p : ProductTuning) (neutral : Term) : Code :=
  Walk.nest [Walk.counted "m" p.ms.toNat, Walk.counted "n" p.ns.toNat]
    (put (register "rC" (v "m") (v "n")) neutral)

/-- The workers of a group fill a tile together: `a` runs over the axis that lies further apart in
memory, `b` over the one that lies side by side. -/
def fetch (p : ProductTuning) (further nearer : Nat) (target source : Term) : Code :=
  Walk.nest [Walk.cooperative "a" (v "fid1") further p.localFetch1.toNat,
      Walk.cooperative "b" (v "fid0") nearer p.localFetch0.toNat]
    (put target source)

/-- Fills the tile of the left operand. -/
def fetchLeft (t : Tiling) (m : MatrixOperand) : Code :=
  let p := t.record
  if m.rowsAdjacent then
    fetch p p.kl.toNat t.ml (t.left.access [v "a", v "b"])
      (m.element (v "gm" + v "b") (v "k0" + v "a"))
  else
    fetch p t.ml p.kl.toNat (t.left.access [v "b", v "a"])
      (m.element (v "gm" + v "a") (v "k0" + v "b"))

/-- Fills the tile of the right operand. -/
def fetchRight (t : Tiling) (m : MatrixOperand) : Code :=
  let p := t.record
  if m.rowsAdjacent then
    fetch p t.nl p.kl.toNat (t.right.access [v "b", v "a"])
      (m.element (v "k0" + v "b") (v "gn" + v "a"))
  else
    fetch p p.kl.toNat t.nl (t.right.access [v "a", v "b"])
      (m.element (v "k0" + v "a") (v "gn" + v "b"))

/-- Code that is there only under a condition known beforehand. -/
def onlyIf (condition : Bool) (code : Code) : Code := if condition then code else .done

/-- One step along the shared dimension: loads the operands' registers and multiplies them. -/
def advance (t : Tiling) (problem : Problem) : Code :=
  let p := t.record
  let left := if p.stageLeft then t.left.access [v "k" + v "kk", blockRow p]
    else problem.lhs.element (resultRow p) (v "k0" + v "k" + v "kk")
  let right := if p.stageRight then t.right.access [v "k" + v "kk", blockCol p]
    else problem.rhs.element (v "k0" + v "k" + v "kk") (resultCol p)
  let depth := Walk.counted "kk" p.ks.toNat
  let rows := Walk.counted "m" p.ms.toNat
  let cols := Walk.counted "n" p.ns.toNat
  let sum := register "rC" (v "m") (v "n")
  let term := problem.combine.apply (register "rA" (v "kk") (v "m"))
    (register "rB" (v "kk") (v "n"))
  Code.join [
    Walk.nest [depth, rows] (put (register "rA" (v "kk") (v "m")) left),
    Walk.nest [depth, cols] (put (register "rB" (v "kk") (v "n")) right),
    Walk.nest [depth, rows, cols] (put sum (problem.reduce.combine sum term))]

/-- Carries out the statement for every element of the register block. -/
def finish (p : ProductTuning) (store : Step) : Code :=
  Walk.nest [Walk.counted "m" p.ms.toNat, Walk.counted "n" p.ns.toNat]
    (Code.ofSteps [.declare .index "row" (resultRow p), .declare .index "col" (resultCol p), store])

/-- The code of the kernel. -/
def code (t : Tiling) (type : NumericType) (problem : Problem) : Generated Code := do
  let p := t.record
  let scope := ((Scope.bare type).withElement (v "row") (v "col")).withProduct
    (register "rC" (v "m") (v "n"))
  let store ← problem.statement.storeStep scope
  let barrier := onlyIf p.staged (Code.ofSteps [.barrier])
  return Code.join [
    prologue t type,
    clear p (problem.reduce.neutral type),
    (Walk.stepped "k0" problem.lhs.logicalCols.term p.kl.toNat).around (Code.join [
      onlyIf p.stageLeft (fetchLeft t problem.lhs),
      onlyIf p.stageRight (fetchRight t problem.rhs),
      barrier,
      (Walk.stepped "k" (.count p.kl.toNat) p.ks.toNat).around (advance t problem),
      barrier]),
    finish p store]

/-! ### The program -/

/-- The program of an operation. -/
def generate (leftTransposed rightTransposed : Bool) (p : ProductTuning) (op : Operation) :
    Generated Program := do
  let kind := .matrixProduct leftTransposed rightTransposed
  requireStatements op
  requireScalarWidth kind p.simdWidth.toNat
  let problem ← Problem.ofOperation leftTransposed rightTransposed op
  let (ml, nl) ← Tiling.extents p
  let arguments ← accepted (collectArguments op 1)
  let t ← Tiling.ofRecord p op.numericType ml nl
  let bytes ← t.bytes op.numericType
  let body ← code t op.numericType problem
  return {
    kernels := [{
      name := kind.identifier
      arguments := arguments
      geometry := .plane p.localSize0.toNat p.localSize1.toNat
        (.cover problem.lhs.logicalRows ml) (.cover problem.rhs.logicalCols nl)
      localMemBytes := bytes
      scratchElements := 0
      body := body }]
    profile := TunedRecord.tag p }

end TunedKernel.MatrixProduct
