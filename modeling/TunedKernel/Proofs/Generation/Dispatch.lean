/-
**The record that a program is made with.**

* `Yields` — a property holds of whatever a computation ends with; `Yields.after` passes it on from
  the second of two steps.
* `Program.Cites`, `generateWith_cites` — a program names, by its tag, the record that its kernels are
  made with.
* `Database.generate_resolved` — the kind of an operation decides on the table, in generation as in
  resolution: both take the record from there, and the program names it.
-/

import TunedKernel.Generator.Basic
import TunedKernel.Proofs.Batch.Acceptance

namespace TunedKernel

/-! ### What a computation ends with -/

/-- A property holds of the value of a computation, if there is one. -/
def Yields {ε α : Type} (holds : α → Prop) (result : Except ε α) : Prop :=
  ∀ a, result = .ok a → holds a

namespace Yields

variable {ε α β : Type} {holds : β → Prop}

theorem ok {b : β} (here : holds b) : Yields (ε := ε) holds (.ok b) := by
  intro b' same
  cases same
  exact here

/-- What the second of two steps ends with, whatever the first one does. -/
theorem after {first : Except ε α} {next : α → Except ε β} (second : ∀ a, Yields holds (next a)) :
    Yields holds (first >>= next) := by
  intro b ended
  obtain ⟨a, -, ended⟩ := bind_eq_ok_iff.mp ended
  exact second a b ended

end Yields

/-! ### The tag of a program -/

/-- A program names a record by its tag. -/
def Program.Cites {P : Type} [TunedRecord P] (record : P) (program : Program) : Prop :=
  program.profile = TunedRecord.tag record

theorem VectorStatements.generate_cites (p : VectorTuning) (op : Operation) :
    Yields (Program.Cites p) (generate p op) :=
  .after fun _ => .after fun _ => .after fun _ => .after fun _ => .after fun _ => .ok rfl

theorem MatrixStatements.generate_cites (p : MatrixTuning) (op : Operation) :
    Yields (Program.Cites p) (generate p op) :=
  .after fun _ => .after fun _ => .after fun (_, _) => .after fun _ => .after fun _ => .ok rfl

theorem Reduction.generate_cites (p : ReductionTuning) (op : Operation) :
    Yields (Program.Cites p) (generate p op) :=
  .after fun (_, _) => .after fun _ => .after fun _ => .after fun _ => .after fun _ =>
    .after fun _ => .after fun _ => .after fun _ => .ok rfl

theorem RowReduction.generateFor_cites (kind : Operation.Kind) (transposed : Bool) (demand : Demand)
    (p : RowTuning) (op : Operation) :
    Yields (Program.Cites p) (generateFor kind transposed demand p op) :=
  .after fun _ => .after fun _ => .after fun (_, _, _) => .after fun _ => .after fun _ =>
    .after fun _ => .after fun _ => .ok rfl

theorem MatrixProduct.generate_cites (left right : Bool) (p : ProductTuning) (op : Operation) :
    Yields (Program.Cites p) (generate left right p op) :=
  .after fun _ => .after fun _ => .after fun _ => .after fun (_, _) => .after fun _ =>
    .after fun _ => .after fun _ => .after fun _ => .ok rfl

/-- The programs of every kind name the record that they are made with. -/
theorem generateWith_cites (kind : Operation.Kind) (record : (Table.ofKind kind).Record)
    (op : Operation) : Yields (Program.Cites record) (generateWith kind record op) :=
  match kind, record with
  | .vectorStatements, p => VectorStatements.generate_cites p op
  | .matrixStatements, p => MatrixStatements.generate_cites p op
  | .reduction, p => Reduction.generate_cites p op
  | .rowReduction false, p => RowReduction.generateFor_cites _ false _ p op
  | .rowReduction true, p => RowReduction.generateFor_cites _ true _ p op
  | .matrixVector transposed, p => RowReduction.generateFor_cites _ transposed _ p op
  | .matrixProduct left right, p => MatrixProduct.generate_cites left right p op

/-! ### The record of an operation -/

namespace Database

/-- Generation for a device of the right element type, by the kind of the operation. -/
theorem generate_eq {db : Database} {device : Device} {op : Operation} {kind : Operation.Kind}
    (same : op.numericType = device.numericType) (classified : op.classify = .ok kind) :
    db.generate device op = generateWith kind (db.recordFor kind device) op := by
  have typed : require (op.numericType == device.numericType)
      (Refusal.numericTypeMismatch op.numericType device.numericType) = .ok () :=
    require_eq_ok_iff.mpr (beq_iff_eq.mpr same)
  unfold generate
  rw [typed, classified]
  exact congrArg (·.generate op) (db.generatorFor_eq device kind)

/-- **Generation uses the record that resolution reports.** Whatever the stores hold, the record for a
kind, and the generator of the kind, are those of the table that the kind has. The program of an
operation of a kind is what the kernels of the kind, with its transpositions, make of the operation
under that record; and the program names the record. -/
theorem generate_resolved (db : Database) (device : Device) :
    (∀ kind,
      let record := (db.resolve (Table.ofKind kind) device).1
      db.recordFor kind device = record ∧
      db.generatorFor device kind =
        ⟨kind, TunedRecord.tag record, generateWith kind record⟩) ∧
    ∀ op kind, op.numericType = device.numericType → op.classify = .ok kind →
      let record := (db.resolve (Table.ofKind kind) device).1
      db.generate device op = generateWith kind record op ∧
      ∀ program, db.generate device op = .ok program →
        program.profile = TunedRecord.tag record := by
  refine ⟨fun kind => ⟨rfl, db.generatorFor_eq device kind⟩, fun op kind same classified => ?_⟩
  have made : db.generate device op = generateWith kind (db.recordFor kind device) op :=
    generate_eq same classified
  refine ⟨made, fun program generated => ?_⟩
  exact generateWith_cites kind _ op program (made.symm.trans generated)

end Database

/-- The product of a matrix and a transposed one. -/
def rowProducts : Operation where
  numericType := .float
  statements := [{
    target := .matrix (.plain "C" (.fixed 64) (.fixed 64))
    assign := .assign
    value := .contract (.matrix (.plain "A" (.fixed 64) (.fixed 64)))
      (.matrix (MatrixOperand.plain "B" (.fixed 64) (.fixed 64)).transpose) }]

/-- A GPU of a family with a record of its own for every product. -/
def fermiModel : Device := { Builtin.fermi with name := "GTX 480" }

/-- On that GPU, the program names the record of the table for a product so transposed; the tables of
the other products have other ones. -/
theorem Database.generate_resolved_rowProducts : ∃ db program, load .none = .ok db ∧
    rowProducts.numericType = fermiModel.numericType ∧
    rowProducts.classify = .ok (.matrixProduct false true) ∧
    db.generate fermiModel rowProducts = .ok program ∧
    program.profile = "V1L16x8KL16M4K1N8ABF32x4" ∧
    ∀ left right, (left, right) ≠ (false, true) →
      program.profile ≠ TunedRecord.tag (db.resolve (.matrixProduct left right) fermiModel).1 := by
  have evaluated : ((load .none).toOption.any fun db =>
      (db.generate fermiModel rowProducts).toOption.any fun _ =>
        decide (TunedRecord.tag (db.resolve (.matrixProduct false true) fermiModel).1 =
            "V1L16x8KL16M4K1N8ABF32x4" ∧
          ∀ left right, (left, right) ≠ (false, true) →
            "V1L16x8KL16M4K1N8ABF32x4" ≠
              TunedRecord.tag (db.resolve (.matrixProduct left right) fermiModel).1)) = true := by
    decide +kernel
  obtain ⟨db, loaded, evaluated⟩ := exists_ok_of_any evaluated
  obtain ⟨program, generated, evaluated⟩ := exists_ok_of_any evaluated
  obtain ⟨tagged, others⟩ := of_decide_eq_true evaluated
  obtain ⟨-, uses⟩ := db.generate_resolved fermiModel
  have named : program.profile = "V1L16x8KL16M4K1N8ABF32x4" :=
    ((uses rowProducts (.matrixProduct false true) rfl rfl).2 program generated).trans tagged
  exact ⟨db, program, loaded, rfl, rfl, generated, named, named ▸ others⟩

end TunedKernel
