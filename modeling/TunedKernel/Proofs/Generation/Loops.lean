/-
**Which generated kernels terminate.**

The counters of loops have 32 bits. A loop that strides over a range comes to the end of it only if no
stride goes past all of the numbers between that end and the limit of the counters; otherwise the counter
starts again from the beginning, and the worker never leaves the loop. Generators compare nothing of this.

* `Paced` — the strides of the kernels of one kind reach the ends of their ranges, over the sizes given.
* `generateWith_terminates_iff` — the kernels of an operation terminate exactly then.
* `long_never_ends` — an operation that is accepted, whose kernel has a worker that never halts.
-/

import TunedKernel.Proofs.MatrixProduct.Loops
import TunedKernel.Proofs.MatrixStatements.Loops
import TunedKernel.Proofs.Reduction.Loops
import TunedKernel.Proofs.RowReduction.Loops
import TunedKernel.Proofs.VectorStatements.Loops

namespace TunedKernel

/-- The strides of the kernels of one kind reach the ends of their ranges. -/
def Paced (kind : Operation.Kind) (record : (Table.ofKind kind).Record) (op : Operation)
    (bindings : Bindings) : Prop :=
  match kind, record with
  | .vectorStatements, p => VectorStatements.Paced p op bindings
  | .matrixStatements, p => MatrixStatements.Paced p op bindings
  | .reduction, p => Reduction.Paced p op bindings
  | .rowReduction false, p | .rowReduction true, p | .matrixVector _, p =>
    RowReduction.Paced p op bindings
  | .matrixProduct _ _, p => MatrixProduct.Paced p op bindings

/-- **Generated kernels terminate exactly if they are paced**: every worker of every launch halts, counting
in words, for every operation that is accepted, every record that passes its check and all sizes of 32
bits. The kernels must not capture their arguments. -/
theorem generateWith_terminates_iff {kind : Operation.Kind} {record : (Table.ofKind kind).Record}
    {op : Operation} {program : Program} {bindings : Bindings}
    (checked : TunedRecord.check record = .ok ())
    (generated : generateWith kind record op = .ok program)
    (hygienic : ∀ kernel ∈ program.kernels, kernel.Hygienic)
    (sized : ∀ kernel ∈ program.kernels, kernel.Sized bindings)
    (small : ∀ x n, bindings x = some n → n.toNat < 2 ^ 32) :
    (∀ kernel ∈ program.kernels, kernel.Terminates bindings) ↔ Paced kind record op bindings := by
  have rows {kind : Operation.Kind} {transposed : Bool} {demand : RowReduction.Demand} {p : RowTuning}
      (ok : RowReduction.generateFor kind transposed demand p op = .ok program) (checked : p.check = .ok ()) :
      (∀ kernel ∈ program.kernels, kernel.Terminates bindings) ↔ RowReduction.Paced p op bindings :=
    RowReduction.generateFor_terminates_iff ok (RowTuning.valid checked) hygienic sized small
  match kind, record with
  | .vectorStatements, p =>
    exact VectorStatements.generate_terminates_iff generated (VectorTuning.valid checked) hygienic sized
      small
  | .matrixStatements, p =>
    exact MatrixStatements.generate_terminates_iff generated (MatrixTuning.valid checked) hygienic sized
      small
  | .reduction, p =>
    exact Reduction.generate_terminates_iff generated (ReductionTuning.valid checked) hygienic sized small
  | .rowReduction false, p => exact rows generated checked
  | .rowReduction true, p => exact rows generated checked
  | .matrixVector transposed, p => exact rows generated checked
  | .matrixProduct left right, p =>
    exact MatrixProduct.generate_terminates_iff generated (ProductTuning.valid checked) hygienic sized
      small

/-- A record of reductions for two groups of three workers that stride over pairs of elements. -/
def stridingRecord : ReductionTuning := { Reduction.smallRecord with strided := true }

/-- The strides of the small batch reach the two pairs of elements and the two partial values. -/
theorem generateWith_terminates_smallBatch : ∃ program,
    generateWith .reduction stridingRecord Reduction.smallBatch = .ok program ∧
      ∀ kernel ∈ program.kernels, kernel.Terminates Reduction.smallSizes := by
  have accepted : ((generateWith .reduction stridingRecord Reduction.smallBatch).toOption.any
      fun program => program.kernels.all fun kernel =>
        decide kernel.Hygienic && decide (kernel.Sized Reduction.smallSizes)) = true := by
    decide +kernel
  obtain ⟨program, generated, all⟩ := exists_ok_of_any accepted
  have each : ∀ kernel ∈ program.kernels, kernel.Hygienic ∧ kernel.Sized Reduction.smallSizes := by
    simpa using all
  refine ⟨program, generated, (generateWith_terminates_iff (by rfl) generated
    (fun kernel member => (each kernel member).1) (fun kernel member => (each kernel member).2)
    fun x n bound => ?_).mpr ⟨fun _ => ?_, by decide⟩⟩
  · unfold Reduction.smallSizes at bound
    split at bound
    · cases bound
      decide
    · cases bound
  · have walked : ∀ s ∈ Reduction.smallBatch.statements, ∀ product ∈ s.value.products,
        product.vector? = some (Reduction.smallVector "left") := by decide +kernel
    intro s member product inside v found
    cases (walked s member product inside).symm.trans found
    decide

/-- A copy of a vector that has one element more than the counters count. -/
def long : Operation where
  numericType := .int
  statements := [{
    target := .vector ⟨"y", .fixed 4294967296⟩
    assign := .assign
    value := .vector ⟨"x", .fixed 4294967296⟩ }]

/-- **The copy is accepted, and its only worker never halts.** Every number of 32 bits is below the size. -/
theorem long_never_ends : TunedRecord.check unitVectorRecord = .ok () ∧ ∃ program,
    generateWith .vectorStatements unitVectorRecord long = .ok program ∧ ∃ kernel ∈ program.kernels,
      ∃ shape, kernel.geometry.shape? (fun _ => none) = some shape ∧ ∃ g l,
        ¬ (kernel.start (fun _ => ()) fun _ => none).Halts (shape.worker g l) := by
  have accepted : ((generateWith .vectorStatements unitVectorRecord long).toOption.any
      fun program => program.kernels.all fun kernel =>
        decide kernel.Hygienic && decide (kernel.Sized fun _ => none)) = true := by
    decide +kernel
  obtain ⟨program, generated, all⟩ := exists_ok_of_any accepted
  have each : ∀ kernel ∈ program.kernels, kernel.Hygienic ∧ kernel.Sized fun _ => none := by
    simpa using all
  have unpaced : ¬ VectorStatements.Paced unitVectorRecord long fun _ => none := fun paced =>
    absurd (paced rfl _ List.mem_cons_self _ rfl) (by decide)
  have some_endless : ¬ ∀ kernel ∈ program.kernels, kernel.Terminates fun _ => none := fun terminate =>
    unpaced ((VectorStatements.generate_terminates_iff generated ⟨by decide, by decide⟩
      (fun kernel member => (each kernel member).1) (fun kernel member => (each kernel member).2)
      nofun).mp terminate)
  unfold Kernel.Terminates at some_endless
  push Not at some_endless
  exact ⟨rfl, program, generated, some_endless⟩

end TunedKernel
