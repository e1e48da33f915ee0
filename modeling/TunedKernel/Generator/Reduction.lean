/-
**Reductions to scalars.**

Two kernels: the first leaves one partial value for each statement and group in a scratch buffer,
the second folds them in a single group and carries out the rest of each statement.

* `Reduction.batch` — the statements with their products, and the extent they are folded over.
* `Reduction.partialKernel`, `Reduction.finalKernel` — the code of the two kernels.
* `Reduction.generate` — the program of an operation.
-/

import TunedKernel.Generator.Accumulators
import TunedKernel.Generator.Arguments
import TunedKernel.Kernel.Walk
import TunedKernel.Tuning.Records

namespace TunedKernel.Reduction

/-- The kind of these kernels. -/
def kind : Operation.Kind := .reduction

/-- The name of the scratch buffer. -/
def scratch : String := "temp"

/-! ### The batch -/

/-- How a report tells two extents apart. -/
def describe (first next : Extent) : String :=
  s!"reduction extent (`{first.text}` against `{next.text}`)"

/-- The extent that a product is folded over: the size of its first vector. -/
def productExtent (position : Nat) (p : Product) : Generated Extent :=
  if p.matrix?.isSome || p.rightMatrix?.isSome then
    refuse (.productShape kind position "reductions take vector operands only")
  else
    match p.vector? with
    | some v => .ok v.size
    | none => refuse (.productShape kind position "the product has no vector operand")

/-- Checks a statement, and its extent against those before it. -/
def checkStatement (state : List Folded × Option Extent) (entry : Statement × Nat) :
    Generated (List Folded × Option Extent) :=
  match entry.1.target with
  | .scalar (.device _) => do
    let product ← theProduct kind entry.2 entry.1
    let extent ← agree describe state.2 (← productExtent entry.2 product)
    return (state.1 ++ [⟨entry.1, product, entry.2⟩], extent)
  | target => wrongTarget kind entry.2 "device scalar" target

/-- The statements with their products, and the extent that they are all folded over. -/
def batch (op : Operation) : Generated (List Folded × Extent) := do
  requireStatements op
  let (folded, extent) ← op.statements.zipIdx.foldlM checkStatement ([], none)
  match extent with
  | some extent => return (folded, extent)
  | none => refuse .emptyOperation

/-! ### The first kernel -/

/-- The worker's number in its group. -/
def lane : Term := .name "lid"

/-- The variable that accumulates packed terms; of width one it is the sum itself. -/
def accumulatorName (width : Nat) (f : Folded) : String :=
  if 1 < width then "acc" ++ toString f.position else f.sumName

/-- Starts an accumulating variable, all lanes of it with the same value. -/
def declareAccumulator (type : NumericType) (width : Nat) (f : Folded) : Step :=
  if 1 < width then
    let packed := ValueType.packed type width
    .declare packed (accumulatorName width f)
      (.cast packed.text (f.product.reduce.neutral type))
  else f.declareSum type

/-- Folds the lanes of an accumulating variable into the sum. -/
def foldLanes (type : NumericType) (width : Nat) (f : Folded) : List Step :=
  if 1 < width then
    let packed := Term.name (accumulatorName width f)
    .declare (.scalar type) f.sumName (.lane packed 0) ::
      (List.range' 1 (width - 1)).map fun n => f.accumulate f.sum (.lane packed n)
  else []

/-- The place of a partial value, given the number of its group. -/
def partialPlace (numGroups : Nat) (f : Folded) (group : Term) : Term :=
  .index (.name scratch) (.number f.position * .count numGroups + group)

/-- The local memory and the worker's number. -/
def prologue (type : NumericType) (dims : List Nat) (folded : List Folded) : Code :=
  Code.ofSteps (folded.map (fun f => .declareLocal (f.buffer type dims)) ++
    [.declare .index "lid" (.query .localId 0)])

/-- The code of the first kernel. -/
def partialKernel (p : ReductionTuning) (type : NumericType) (folded : List Folded)
    (extent : Extent) : Generated Code := do
  let width := p.simdWidth.toNat
  let dims := [p.localSize.toNat]
  let bound ← packedBound kind extent width
  let scope := (Scope.bare type).withIndex (.name "i")
  let terms ← folded.mapM fun f => do
    let term ← accepted (f.product.term scope)
    return f.accumulate (.name (accumulatorName width f)) term
  let tree ← Tree.code (Folded.trees type dims folded) [] lane p.localSize.toNat
  return Code.join [
    prologue type dims folded,
    Code.ofSteps (folded.map (declareAccumulator type width)),
    (Walk.split p.strided "i" 0 bound).around (Code.ofSteps terms),
    Code.ofSteps (folded.flatMap (foldLanes type width)),
    Code.ofSteps (folded.map fun f => f.publish (f.buffer type dims) [lane]),
    tree,
    Code.ofGuard (.binary .equal lane (.number 0)) (Code.ofSteps (folded.map fun f =>
      .store (partialPlace p.numGroups.toNat f (.query .groupId 0)) .assign
        (Tree.result (f.buffer type dims) [])))]

/-! ### The second kernel -/

/-- The code of the second kernel. -/
def finalKernel (p : ReductionTuning) (type : NumericType) (folded : List Folded) :
    Generated Code := do
  let dims := [p.localSize.toNat]
  let groups := p.numGroups.toNat
  let tree ← Tree.code (Folded.trees type dims folded) [] lane p.localSize.toNat
  let stores ← folded.mapM fun f =>
    f.statement.storeStep ((Scope.bare type).withProduct (Tree.result (f.buffer type dims) []))
  return Code.join [
    prologue type dims folded,
    Code.ofSteps (folded.map fun f => f.declareSum type),
    (Walk.byGroup "i" lane 0 groups).around (Code.ofSteps (folded.map fun f =>
      f.accumulate f.sum (partialPlace groups f (.name "i")))),
    Code.ofSteps (folded.map fun f => f.publish (f.buffer type dims) [lane]),
    tree,
    Code.ofGuard (.binary .equal lane (.number 0)) (Code.ofSteps stores)]

/-! ### The program -/

/-- The program of an operation. -/
def generate (p : ReductionTuning) (op : Operation) : Generated Program := do
  let (folded, extent) ← batch op
  let type := op.numericType
  let width := p.simdWidth.toNat
  requirePacked kind width
  let operands ← accepted (collectArguments op width)
  let arguments ← accepted (pushBuffer operands scratch type.text)
  let bytes ← Folded.localBytes type [p.localSize.toNat] folded
  let elements ← Word.bits64.mul folded.length p.numGroups.toNat
  let first ← partialKernel p type folded extent
  let second ← finalKernel p type folded
  return {
    kernels := [
      { name := "reduction_partial"
        arguments := arguments
        geometry := .line p.localSize.toNat (.fixed p.numGroups.toNat)
        localMemBytes := bytes
        scratchElements := elements
        body := first },
      { name := "reduction_final"
        arguments := arguments
        geometry := .line p.localSize.toNat (.fixed 1)
        localMemBytes := bytes
        scratchElements := elements
        body := second }]
    profile := TunedRecord.tag p }

end TunedKernel.Reduction
