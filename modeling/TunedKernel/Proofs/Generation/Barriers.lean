/-
**Whether the workers of generated kernels meet at barriers.**

Barriers stand under no condition, and in loops only through which all workers of a group go together; this is
so for every kernel. But counters have 32 bits, and in kernels with barriers a worker whose counter wraps does
not leave its loop, or fills slots of another worker. Generators compare nothing of this.

* `VectorStatements.generate_free`, `MatrixStatements.generate_free` — kernels of element-wise statements have no
  barriers, and share nothing.
* `Steady` — the counters of the kernels of one kind do not wrap, as far as barriers depend on them.
* `generateWith_synchronizes` — where barriers stand, and that the workers meet at them if the counters are
  steady.
* `wrapping_waits` — a batch that is accepted, one of whose workers waits for another one that never comes.
-/

import TunedKernel.Proofs.Generation.Loops
import TunedKernel.Proofs.MatrixProduct.Barriers
import TunedKernel.Proofs.Reduction.Barriers
import TunedKernel.Proofs.RowReduction.Barriers

namespace TunedKernel

variable {kernel : Kernel} {bindings : Bindings}

/-! ### Element-wise statements -/

/-- Statements go past no barrier. -/
theorem Statement.steps_stores {statements : List Statement} {scope : Scope} {store : Statement → Step}
    (stores : ∀ s ∈ statements, s.storeStep scope = .ok (store s)) :
    .barrier ∉ (Code.ofSteps (statements.map store)).steps := by
  intro member
  rw [Code.steps_ofSteps] at member
  obtain ⟨s, inside, same⟩ := List.mem_map.mp member
  obtain ⟨_, _, -, -, is⟩ := storeStep_eq_ok (stores s inside)
  cases is.symm.trans same

/-- Nor do the declarations of a walk over a range that is split. -/
theorem Walk.steps_around_split {strided : Bool} {counter : String} {dimension : Nat} {bound : Term}
    {body : Code} (free : .barrier ∉ body.steps) :
    .barrier ∉ ((split strided counter dimension bound).around body).steps := by
  intro member
  rw [Code.steps_around] at member
  cases strided with
  | true => exact free member
  | false =>
    rcases List.mem_append.mp member with declared | here
    · simp [split, chunked] at declared
    · exact free here

/-- **The kernel of vector statements has no barriers**, and shares nothing. -/
theorem VectorStatements.generate_free {p : VectorTuning} {op : Operation} {program : Program}
    (ok : generate p op = .ok program) (member : kernel ∈ program.kernels) :
    .barrier ∉ kernel.body.steps ∧ kernel.shared = [] := by
  obtain ⟨k, _, kernel', accepted, -, kernels, -, -, -, code⟩ := generate_eq_ok ok
  obtain rfl := List.mem_singleton.mp (kernels ▸ member)
  refine ⟨code ▸ Walk.steps_around_split (Statement.steps_stores accepted.stores), ?_⟩
  rw [Kernel.shared, code, Code.memories_eq_nil (arrays_body accepted)]
  rfl

/-- **Nor has the kernel of matrix statements.** -/
theorem MatrixStatements.generate_free {p : MatrixTuning} {op : Operation} {program : Program}
    (ok : generate p op = .ok program) (member : kernel ∈ program.kernels) :
    .barrier ∉ kernel.body.steps ∧ kernel.shared = [] := by
  obtain ⟨k, _, kernel', accepted, -, kernels, -, -, -, code⟩ := generate_eq_ok ok
  obtain rfl := List.mem_singleton.mp (kernels ▸ member)
  have rows : .barrier ∉ (k.colWalk.around k.stores).steps :=
    Walk.steps_around_split (Statement.steps_stores accepted.stores)
  refine ⟨code ▸ Walk.steps_around_split rows, ?_⟩
  rw [Kernel.shared, code, Code.memories_eq_nil (arrays_body accepted)]
  rfl

/-! ### Every kind -/

/-- The counters of the kernels of one kind do not wrap, as far as barriers depend on them. -/
def Steady (kind : Operation.Kind) (record : (Table.ofKind kind).Record) (op : Operation)
    (bindings : Bindings) : Prop :=
  match kind, record with
  | .vectorStatements, _ | .matrixStatements, _ => True
  | .reduction, p => Reduction.Paced p op bindings
  | .rowReduction false, p | .rowReduction true, p | .matrixVector _, p =>
    RowReduction.Paced p op bindings
  | .matrixProduct _ _, p =>
    p.staged = true → MatrixProduct.Paced p op bindings ∧ MatrixProduct.Roomy p op

/-- **Where barriers stand, and what they separate.** Each barrier stands under no condition, and in loops only
whose start, bound and step are the same for all workers of a group. Over sizes of 32 bits and steady
counters, the workers of a group go past the same barriers in every launch, and between two of them none
uses a slot of local memory that another one stores into. -/
theorem generateWith_synchronizes {kind : Operation.Kind} {record : (Table.ofKind kind).Record}
    {op : Operation} {program : Program} (checked : TunedRecord.check record = .ok ())
    (generated : generateWith kind record op = .ok program) (member : kernel ∈ program.kernels)
    (proper : kernel.Proper) :
    kernel.body.Convergent kernel.sizes ∧
      ∀ bindings, kernel.Sized bindings → (∀ x n, bindings x = some n → n.toNat < 2 ^ 32) →
        Steady kind record op bindings → kernel.Synchronizes bindings := by
  -- Where barriers stand does not depend on the sizes, so any will do.
  have zeros : kernel.Sized fun _ => some 0 := fun _ _ _ => rfl
  have few (x : String) (n : UInt64) (bound : (fun _ => some 0 : Bindings) x = some n) :
      n.toNat < 2 ^ 32 := by
    cases bound
    decide
  have rows {kind : Operation.Kind} {transposed : Bool} {demand : RowReduction.Demand} {p : RowTuning}
      (ok : RowReduction.generateFor kind transposed demand p op = .ok program) :
      kernel.body.Convergent kernel.sizes ∧
        ∀ bindings, kernel.Sized bindings → (∀ x n, bindings x = some n → n.toNat < 2 ^ 32) →
          RowReduction.Paced p op bindings → kernel.Synchronizes bindings :=
    ⟨(RowReduction.generateFor_synchronizes ok member proper zeros few).1, fun bindings sized small =>
      (RowReduction.generateFor_synchronizes ok member proper sized small).2⟩
  match kind, record with
  | .vectorStatements, p =>
    obtain ⟨free, none⟩ := VectorStatements.generate_free generated member
    exact ⟨.of_free free, fun _ _ _ _ => Kernel.synchronizes_of_free free none⟩
  | .matrixStatements, p =>
    obtain ⟨free, none⟩ := MatrixStatements.generate_free generated member
    exact ⟨.of_free free, fun _ _ _ _ => Kernel.synchronizes_of_free free none⟩
  | .reduction, p =>
    exact ⟨(Reduction.generate_synchronizes generated member proper zeros few).1, fun bindings sized small =>
      (Reduction.generate_synchronizes generated member proper sized small).2⟩
  | .rowReduction false, p => exact rows generated
  | .rowReduction true, p => exact rows generated
  | .matrixVector transposed, p => exact rows generated
  | .matrixProduct left right, p =>
    exact ⟨(MatrixProduct.generate_synchronizes checked generated member proper zeros few).1,
      fun bindings sized small =>
        (MatrixProduct.generate_synchronizes checked generated member proper sized small).2⟩

/-- Of the small batch, counted by workers that stride over pairs of elements, both kernels synchronize. -/
theorem generateWith_synchronizes_smallBatch : ∃ program,
    generateWith .reduction stridingRecord Reduction.smallBatch = .ok program ∧
      ∀ kernel ∈ program.kernels, kernel.body.Convergent kernel.sizes ∧
        kernel.Synchronizes Reduction.smallSizes := by
  have accepted : ((generateWith .reduction stridingRecord Reduction.smallBatch).toOption.any
      fun program => program.kernels.all fun kernel =>
        decide kernel.Proper && decide (kernel.Sized Reduction.smallSizes)) = true := by
    decide +kernel
  obtain ⟨program, generated, all⟩ := exists_ok_of_any accepted
  have each : ∀ kernel ∈ program.kernels, kernel.Proper ∧ kernel.Sized Reduction.smallSizes := by
    simpa using all
  have small (x : String) (n : UInt64) (bound : Reduction.smallSizes x = some n) : n.toNat < 2 ^ 32 := by
    unfold Reduction.smallSizes at bound
    split at bound
    · cases bound
      decide
    · cases bound
  have walked : ∀ s ∈ Reduction.smallBatch.statements, ∀ product ∈ s.value.products,
      product.vector? = some (Reduction.smallVector "left") := by decide +kernel
  have paced : Reduction.Paced stridingRecord Reduction.smallBatch Reduction.smallSizes := by
    refine ⟨fun _ s member product inside v found => ?_, by decide⟩
    cases (walked s member product inside).symm.trans found
    decide
  refine ⟨program, generated, fun kernel member => ?_⟩
  obtain ⟨proper, sized⟩ := each kernel member
  obtain ⟨convergent, synchronizes⟩ := generateWith_synchronizes (by rfl) generated member proper
  exact ⟨convergent, synchronizes _ sized small paced⟩

/-! ### Counters that wrap -/

/-- A record of reductions for two workers that stride over elements. -/
def pairRecord : ReductionTuning where
  simdWidth := 1
  localSize := 2
  numGroups := 1
  strided := true

/-- A vector of all elements that the counters count, and no more. -/
def widest : VectorOperand := ⟨"x", .fixed 4294967295⟩

/-- The sum of its elements. -/
def wrapping : Operation where
  numericType := .int
  statements := [{
    target := .scalar (.device "total")
    assign := .assign
    value := .reduce .add (.vector widest) }]

/-- **The sum is accepted, and one of its two workers waits for the other one**, which never comes: the numbers
that the first worker counts are even, so all of them are below the size, while the second one comes to the
size itself. -/
theorem wrapping_waits : TunedRecord.check pairRecord = .ok () ∧ ∃ program,
    generateWith .reduction pairRecord wrapping = .ok program ∧ ∃ kernel ∈ program.kernels,
      kernel.Proper ∧ kernel.Sized (fun _ => none) ∧ ¬ kernel.Synchronizes fun _ => none := by
  have accepted : ((generateWith .reduction pairRecord wrapping).toOption.any
      fun program => program.kernels.all fun kernel =>
        decide kernel.Proper && decide (kernel.Sized fun _ => none)) = true := by
    decide +kernel
  obtain ⟨program, generated, all⟩ := exists_ok_of_any accepted
  have each : ∀ kernel ∈ program.kernels, kernel.Proper ∧ kernel.Sized fun _ => none := by
    simpa using all
  have never (i : Nat) : (0 + i * 2) % 2 ^ 32 < 4294967295 := by omega
  have comes : 4294967295 ≤ (1 + 2147483647 * 2) % 2 ^ 32 := by decide
  have valid : pairRecord.Valid := ⟨by decide, by decide⟩
  let first : Fin pairRecord.localSize.toNat := ⟨0, by decide⟩
  let second : Fin pairRecord.localSize.toNat := ⟨1, by decide⟩
  obtain ⟨kernel, member, apart⟩ := Reduction.generate_not_synchronizes (v := widest)
    generated valid (fun kernel member => (each kernel member).1) (fun kernel member => (each kernel member).2)
    nofun rfl List.mem_cons_self (List.mem_singleton.mpr rfl) rfl first second never ⟨_, comes⟩
  exact ⟨rfl, program, generated, kernel, member, (each kernel member).1, (each kernel member).2, apart⟩

end TunedKernel
