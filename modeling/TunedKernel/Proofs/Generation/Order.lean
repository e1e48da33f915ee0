/-
**The order of statements does not decide on acceptance.**

* `Operation.Reordered` — the same statements in another order.
* `collectArguments_reordered` — in another order of statements, the arguments are the same.
* `Kernel.Alike`, `Generated.Alike` — kernels that differ in their code and in the order of their arguments
  only; answers that both hold such kernels, or none.
* `generation_reordered` — generators of every kind, and generation for a device, answer alike.
-/

import TunedKernel.Proofs.Generation.Alone
import TunedKernel.Proofs.Generation.Dispatch
import TunedKernel.Proofs.Reduction.Correctness

namespace TunedKernel

/-- The same statements in another order. -/
structure Operation.Reordered (op op' : Operation) : Prop where
  type : op'.numericType = op.numericType
  statements : op.statements.Perm op'.statements

namespace Operation.Reordered

variable {op op' : Operation}

theorem symm (order : op.Reordered op') : op'.Reordered op := ⟨order.type.symm, order.statements.symm⟩

theorem mem_nodes (order : op.Reordered op') {node : Expr} : node ∈ op'.nodes ↔ node ∈ op.nodes := by
  simp only [Operation.nodes, List.mem_append, List.mem_flatMap, order.statements.mem_iff]

theorem ne_nil (order : op.Reordered op') (some : op.statements ≠ []) : op'.statements ≠ [] := by
  rw [← List.length_pos_iff, ← order.statements.length_eq, List.length_pos_iff]
  exact some

end Operation.Reordered

/-! ### Arguments -/

section Arguments

variable {op op' : Operation} {width : Nat} {arguments : List Argument}

/-- In another order of statements, the arguments are the same. -/
theorem collectArguments_reordered (order : op.Reordered op')
    (ok : collectArguments op width = .ok arguments) :
    ∃ arguments', collectArguments op' width = .ok arguments' ∧ arguments.Perm arguments' := by
  have one := (collectArguments_eq_ok_iff.mp ok).1
  obtain ⟨arguments', ok'⟩ : ∃ arguments', collectArguments op' width = .ok arguments' :=
    exists_collectArguments_iff.mpr (one.of_sub order.statements.symm.subset)
  refine ⟨arguments', ok', ?_⟩
  have nodup := List.Nodup.of_map _ (collectArguments_nodup ok)
  have nodup' := List.Nodup.of_map _ (collectArguments_nodup ok')
  rw [List.perm_ext_iff_of_nodup nodup nodup']
  intro a
  rw [mem_collectArguments ok, mem_collectArguments ok', order.type]
  simp only [Operation.Uses, order.mem_nodes]

end Arguments

/-! ### Programs -/

/-- Kernels that are launched alike: their code may differ, and the order of their arguments. -/
structure Kernel.Alike (kernel kernel' : Kernel) : Prop where
  name : kernel.name = kernel'.name
  geometry : kernel.geometry = kernel'.geometry
  localMemBytes : kernel.localMemBytes = kernel'.localMemBytes
  scratchElements : kernel.scratchElements = kernel'.scratchElements
  arguments : kernel.arguments.Perm kernel'.arguments

/-- Answers that are alike: both are programs, whose kernels are alike one by one, or neither is one. -/
def Generated.Alike : Generated Program → Generated Program → Prop
  | .ok program, .ok program' => List.Forall₂ Kernel.Alike program.kernels program'.kernels
  | .error _, .error _ => True
  | _, _ => False

/-- Two answers are alike if each program of the one is answered by one of the other. -/
theorem Generated.alike_of_exists {answer answer' : Generated Program}
    (there : ∀ program, answer = .ok program → ∃ program', answer' = .ok program' ∧
      List.Forall₂ Kernel.Alike program.kernels program'.kernels)
    (back : ∀ program', answer' = .ok program' → ∃ program, answer = .ok program) :
    Generated.Alike answer answer' := by
  cases answer with
  | ok program =>
    obtain ⟨program', rfl, alike⟩ := there program rfl
    exact alike
  | error refusal =>
    cases answer' with
    | ok program' =>
      obtain ⟨program, ok⟩ := back program' rfl
      cases ok
    | error refusal' => trivial

variable {op op' : Operation} {program : Program}

/-! ### Element-wise statements -/

theorem VectorStatements.generate_reordered (order : op.Reordered op') {p : VectorTuning}
    (ok : generate p op = .ok program) : ∃ program', generate p op' = .ok program' ∧
      List.Forall₂ Kernel.Alike program.kernels program'.kernels := by
  have takes := exists_program_iff.mp ⟨program, ok⟩
  obtain ⟨program', ok'⟩ := exists_program_iff.mpr
    (takes.of_sub order.statements.symm.subset (order.ne_nil takes.nonempty))
  refine ⟨program', ok', ?_⟩
  obtain ⟨arguments, body, collected, kernels⟩ := exists_kernels ok
  obtain ⟨arguments', body', collected', kernels'⟩ := exists_kernels ok'
  obtain ⟨_, same, perm⟩ := collectArguments_reordered order collected
  cases same.symm.trans collected'
  rw [kernels, kernels']
  exact .cons ⟨rfl, rfl, rfl, rfl, perm⟩ .nil

theorem MatrixStatements.generate_reordered (order : op.Reordered op') {p : MatrixTuning}
    (ok : generate p op = .ok program) : ∃ program', generate p op' = .ok program' ∧
      List.Forall₂ Kernel.Alike program.kernels program'.kernels := by
  have takes := exists_program_iff.mp ⟨program, ok⟩
  obtain ⟨program', ok'⟩ := exists_program_iff.mpr
    (takes.of_sub order.statements.symm.subset (order.ne_nil takes.nonempty))
  refine ⟨program', ok', ?_⟩
  obtain ⟨arguments, body, collected, kernels⟩ := exists_kernels ok
  obtain ⟨arguments', body', collected', kernels'⟩ := exists_kernels ok'
  obtain ⟨_, same, perm⟩ := collectArguments_reordered order collected
  cases same.symm.trans collected'
  rw [kernels, kernels']
  exact .cons ⟨rfl, rfl, rfl, rfl, perm⟩ .nil

/-! ### Reductions -/

namespace Reduction

theorem generate_reordered (order : op.Reordered op') {p : ReductionTuning}
    (ok : generate p op = .ok program) : ∃ program', generate p op' = .ok program' ∧
      List.Forall₂ Kernel.Alike program.kernels program'.kernels := by
  have takes := takes_of_generate ok
  have fits := (measured_generate p op).of_ok program ok
  rw [order.statements.length_eq, ← order.type] at fits
  obtain ⟨program', ok'⟩ := exists_program_of_takes
    (takes.of_sub order.statements.symm.subset (order.ne_nil takes.nonempty)) fits
  refine ⟨program', ok', ?_⟩
  obtain ⟨operands, first, second, collected, kernels⟩ := exists_kernels ok
  obtain ⟨operands', first', second', collected', kernels'⟩ := exists_kernels ok'
  obtain ⟨_, same, perm⟩ := collectArguments_reordered order collected
  cases same.symm.trans collected'
  rw [kernels, kernels', order.type, order.statements.length_eq]
  have arguments := perm.append_right [⟨scratch, .buffer op.numericType.text⟩]
  exact .cons ⟨rfl, rfl, rfl, rfl, arguments⟩ (.cons ⟨rfl, rfl, rfl, rfl, arguments⟩ .nil)

end Reduction

/-! ### Reductions of rows -/

namespace RowReduction

variable {kind : Operation.Kind} {transposed : Bool} {demand : Demand}

theorem generateFor_reordered
    (demands : ∀ n n' product, demand n product = .ok () → demand n' product = .ok ())
    (order : op.Reordered op') {p : RowTuning} (ok : generateFor kind transposed demand p op = .ok program) :
    ∃ program', generateFor kind transposed demand p op' = .ok program' ∧
      List.Forall₂ Kernel.Alike program.kernels program'.kernels := by
  have asked (n : Nat) (product : Product) : demand n product = .ok () ↔ demand 0 product = .ok () :=
    ⟨demands n 0 product, demands 0 n product⟩
  obtain ⟨fits, takes, meets⟩ := takes_of_generateFor asked ok
  rw [order.statements.length_eq, ← order.type] at fits
  have sub : op'.statements ⊆ op.statements := order.statements.symm.subset
  obtain ⟨program', ok'⟩ := exists_program_of_takes asked fits
    (takes.of_sub sub (order.ne_nil takes.nonempty)) fun s inside => meets s (sub inside)
  refine ⟨program', ok', ?_⟩
  obtain ⟨arguments, body, collected, kernels⟩ := exists_kernels ok
  obtain ⟨arguments', body', collected', kernels'⟩ := exists_kernels ok'
  obtain ⟨_, same, perm⟩ := collectArguments_reordered order collected
  cases same.symm.trans collected'
  rw [kernels, kernels', order.type, order.statements.length_eq]
  exact .cons ⟨rfl, rfl, rfl, rfl, perm⟩ .nil

end RowReduction

/-! ### Matrix products -/

/-- A single statement has one order only. -/
theorem MatrixProduct.generate_reordered (order : op.Reordered op') {left right : Bool} {p : ProductTuning}
    (ok : generate left right p op = .ok program) : ∃ program', generate left right p op' = .ok program' ∧
      List.Forall₂ Kernel.Alike program.kernels program'.kernels := by
  obtain ⟨problem, _, _, _, _, accepted, -⟩ := generate_eq_ok ok
  obtain rfl : op = op' := by
    obtain ⟨type, statements⟩ := op
    obtain ⟨type', statements'⟩ := op'
    obtain ⟨rfl, perm⟩ := order
    obtain rfl : statements = [problem.statement] := accepted.single
    rw [List.singleton_perm.mp perm]
  exact ⟨program, ok, List.forall₂_same.mpr fun kernel _ => ⟨rfl, rfl, rfl, rfl, .refl _⟩⟩

/-! ### Kernels of every kind -/

variable {kind : Operation.Kind} {record : (Table.ofKind kind).Record}

theorem generateWith_reordered (order : op.Reordered op') (ok : generateWith kind record op = .ok program) :
    ∃ program', generateWith kind record op' = .ok program' ∧
      List.Forall₂ Kernel.Alike program.kernels program'.kernels := by
  match kind, record with
  | .vectorStatements, p => exact VectorStatements.generate_reordered order ok
  | .matrixStatements, p => exact MatrixStatements.generate_reordered order ok
  | .reduction, p => exact Reduction.generate_reordered order ok
  | .rowReduction false, p | .rowReduction true, p =>
    exact RowReduction.generateFor_reordered (fun _ _ _ _ => rfl) order ok
  | .matrixVector transposed, p =>
    exact RowReduction.generateFor_reordered MatrixVector.demand_again order ok
  | .matrixProduct left right, p => exact MatrixProduct.generate_reordered order ok

theorem generateWith_alike (order : op.Reordered op') (kind : Operation.Kind)
    (record : (Table.ofKind kind).Record) :
    Generated.Alike (generateWith kind record op) (generateWith kind record op') :=
  Generated.alike_of_exists (fun _ ok => generateWith_reordered order ok) fun _ ok =>
    let ⟨program, again, _⟩ := generateWith_reordered order.symm ok
    ⟨program, again⟩

/-- **The order of statements does not decide on acceptance.** The generators of every kind, under any
record, accept the statements in one order if they do in another one, and the kernels then have the same
names, geometries, local memory and scratch buffers, and the same arguments up to their order. So does
generation for a device where both orders are of one kind. -/
theorem generation_reordered (order : op.Reordered op') :
    (∀ kind record, Generated.Alike (generateWith kind record op) (generateWith kind record op')) ∧
    ∀ (db : Database) (device : Device) kind, op.classify = .ok kind → op'.classify = .ok kind →
      Generated.Alike (db.generate device op) (db.generate device op') := by
  refine ⟨generateWith_alike order, fun db device kind first second => ?_⟩
  by_cases same : op.numericType = device.numericType
  · rw [Database.generate_eq same first, Database.generate_eq (order.type.trans same) second]
    exact generateWith_alike order kind _
  · have refused (op : Operation) (other : op.numericType ≠ device.numericType) :
        ∃ fault, db.generate device op = .error fault := by
      have mismatch : require (op.numericType == device.numericType)
          (Refusal.numericTypeMismatch op.numericType device.numericType) =
          refuse (.numericTypeMismatch op.numericType device.numericType) :=
        if_neg (mt beq_iff_eq.mp other)
      unfold Database.generate
      rw [mismatch]
      exact ⟨_, rfl⟩
    obtain ⟨fault, answer⟩ := refused op same
    obtain ⟨fault', answer'⟩ := refused op' (order.type ▸ same)
    rw [answer, answer']
    trivial

/-- The small batch, its statements the other way round. -/
def Reduction.turnedBatch : Operation := { smallBatch with statements := smallBatch.statements.reverse }

/-- The small batch the other way round has other arguments in front, and the same ones in all. -/
theorem generation_reordered_smallBatch : ∃ db program program',
    Reduction.smallBatch.Reordered Reduction.turnedBatch ∧ Database.load .none = .ok db ∧
    Reduction.smallBatch.classify = .ok .reduction ∧ Reduction.turnedBatch.classify = .ok .reduction ∧
    db.generate (.globalDefault .gpu .int) Reduction.smallBatch = .ok program ∧
    db.generate (.globalDefault .gpu .int) Reduction.turnedBatch = .ok program' ∧
    List.Forall₂ Kernel.Alike program.kernels program'.kernels ∧
    program.kernels.map Kernel.arguments ≠ program'.kernels.map Kernel.arguments := by
  have order : Reduction.smallBatch.Reordered Reduction.turnedBatch := ⟨rfl, (List.reverse_perm _).symm⟩
  have evaluated : ((Database.load .none).toOption.any fun db =>
      (db.generate (.globalDefault .gpu .int) Reduction.smallBatch).toOption.any fun program =>
        (db.generate (.globalDefault .gpu .int) Reduction.turnedBatch).toOption.any fun program' =>
          decide (program.kernels.map Kernel.arguments ≠ program'.kernels.map Kernel.arguments)) = true := by
    decide +kernel
  obtain ⟨db, loaded, evaluated⟩ := exists_ok_of_any evaluated
  obtain ⟨program, first, evaluated⟩ := exists_ok_of_any evaluated
  obtain ⟨program', second, evaluated⟩ := exists_ok_of_any evaluated
  have alike := (generation_reordered order).2 db (.globalDefault .gpu .int) .reduction rfl rfl
  rw [first, second] at alike
  exact ⟨db, program, program', order, loaded, rfl, rfl, first, second, alike, of_decide_eq_true evaluated⟩

end TunedKernel
