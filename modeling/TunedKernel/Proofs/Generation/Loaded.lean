/-
**Generation over loaded records.**

* `Table.Fits` — the numbers that generators form of a record of a table fit their words.
* `measured_generateWith`, `Database.measured_generate` — that is the bound of the program of an
  operation.
* `Builtin.sound` — the builtin records pass their checks and fit.
* `Database.load_measured` — over the records of any document that is accepted, generation overflows
  only where the record in use does not fit, and never where all rows of the document do.
* `Database.load_overflows_rowDocument` — and there are documents that make it overflow.
-/

import TunedKernel.Generator.Basic
import TunedKernel.Proofs.Generation.Overflows
import TunedKernel.Proofs.Tuning.Loading

namespace TunedKernel

/-! ### Any kind of kernels -/

/-- The numbers that generators form of a record of a table fit their words, for so many statements
over elements of so many bytes. -/
def Table.Fits : (t : Table) → t.Record → Nat → Nat → Prop
  | .vectorStatements, _, _, _ => True
  | .matrixStatements, _, _, _ => True
  | .reduction, p, count, size => ReductionTuning.Fits p count size
  | .rowReduction, p, count, size => RowTuning.Fits p count size
  | .transposedRowReduction, p, count, size => RowTuning.Fits p count size
  | .matrixVector, p, count, size => RowTuning.Fits p count size
  | .matrixProduct _ _, p, _, size => ProductTuning.Fits p size

/-- A record that fits so many statements fits fewer of them, over smaller elements. -/
theorem Table.Fits.mono {t : Table} {record : t.Record} {count count' size size' : Nat}
    (fits : t.Fits record count size) (fewer : count' ≤ count) (smaller : size' ≤ size) :
    t.Fits record count' size' := by
  match t with
  | .vectorStatements => trivial
  | .matrixStatements => trivial
  | .reduction => exact ReductionTuning.Fits.mono fits fewer smaller
  | .rowReduction => exact RowTuning.Fits.mono fits fewer smaller
  | .transposedRowReduction => exact RowTuning.Fits.mono fits fewer smaller
  | .matrixVector => exact RowTuning.Fits.mono fits fewer smaller
  | .matrixProduct _ _ =>
    obtain ⟨left, right, bytes⟩ := fits
    refine ⟨left, right, (Nat.add_le_add ?_ ?_).trans_lt bytes⟩
    · split
      · exact Nat.mul_le_mul_left _ smaller
      · exact le_refl 0
    · split
      · exact Nat.mul_le_mul_left _ smaller
      · exact le_refl 0

/-- **The program of an operation overflows only where the numbers of its record do not fit, and is
there only where they do.** -/
theorem measured_generateWith (kind : Operation.Kind) (record : (Table.ofKind kind).Record)
    (op : Operation) : Measured (generateWith kind record op)
      ((Table.ofKind kind).Fits record op.statements.length op.numericType.size) :=
  match kind with
  | .vectorStatements => VectorStatements.measured_generate record op
  | .matrixStatements => MatrixStatements.measured_generate record op
  | .reduction => Reduction.measured_generate record op
  | .rowReduction false =>
    RowReduction.measured_generateFor _ false (fun _ _ => .ok ()) record op
  | .rowReduction true => RowReduction.measured_generateFor _ true (fun _ _ => .ok ()) record op
  | .matrixVector transposed =>
    RowReduction.measured_generateFor _ transposed
      (fun _ _ => (Measured.require _ _).after fun _ _ => .require _ _) record op
  | .matrixProduct left right => MatrixProduct.measured_generate left right record op

/-- The bound of the program for a device is that of the record which the device is answered with. -/
theorem Database.measured_generate (db : Database) (device : Device) (op : Operation) :
    Measured (db.generate device op) (∀ kind, op.classify = .ok kind →
      (Table.ofKind kind).Fits (db.recordFor kind device) op.statements.length
        op.numericType.size) := by
  refine (Measured.require _ _).after fun _ _ => ?_
  cases classified : op.classify with
  | error refusal => exact (Measured.refuse refusal).congr (by simp)
  | ok kind =>
    refine (Measured.accepted (.ok kind)).after fun kind' same => ?_
    cases same
    rw [db.generatorFor_eq]
    refine (measured_generateWith kind (db.recordFor kind device) op).congr ?_
    exact ⟨fun fits _ same => Except.ok.inj same ▸ fits, fun fits => fits kind rfl⟩

/-! ### Loaded records -/

instance (t : Table) (record : t.Record) (count size : Nat) : Decidable (t.Fits record count size) :=
  match t with
  | .vectorStatements => inferInstanceAs (Decidable True)
  | .matrixStatements => inferInstanceAs (Decidable True)
  | .reduction => inferInstanceAs (Decidable (_ ∧ _ ∧ _))
  | .rowReduction => inferInstanceAs (Decidable (_ ∧ _))
  | .transposedRowReduction => inferInstanceAs (Decidable (_ ∧ _))
  | .matrixVector => inferInstanceAs (Decidable (_ ∧ _))
  | .matrixProduct _ _ => inferInstanceAs (Decidable (_ ∧ _ ∧ _))

/-- Every builtin record passes its check, and fits more statements than any document has. -/
theorem Builtin.sound (t : Table) : (draft t).All fun record =>
    decide ((TunedRecord.check record).toOption.isSome ∧ t.Fits record (2 ^ 32) 8) :=
  match t with
  | .vectorStatements => .draftOf (P := VectorTuning) (by decide) (by decide)
  | .matrixStatements => .draftOf (P := MatrixTuning) (by decide) (by decide)
  | .reduction => .draftOf (P := ReductionTuning) (by decide) (by decide)
  | .rowReduction => .draftOf (P := RowTuning) (by decide) (by decide)
  | .transposedRowReduction => .draftOf (P := RowTuning) (by decide) (by decide)
  | .matrixVector => .draftOf (P := RowTuning) (by decide) (by decide)
  | .matrixProduct false false => .draftOf (P := ProductTuning) (by decide) (by decide)
  | .matrixProduct false true => .draftOf (P := ProductTuning) (by decide) (by decide)
  | .matrixProduct true false => .draftOf (P := ProductTuning) (by decide) (by decide)
  | .matrixProduct true true => .draftOf (P := ProductTuning) (by decide) (by decide)

/-- **Generation over loaded records overflows only where the numbers of the record in use do not
fit.** Loading a document that is accepted always succeeds, and every record in use passes its check;
but a record that passes may not fit, and then no operation of its kind has a program. Where all rows
of the document fit a number of statements, every operation of at most so many ends in a program or a
refusal, for every device. -/
theorem Database.load_measured {source : String} {overrides : Overrides}
    (read : Overrides.ofToml source = .ok overrides) :
    ∃ db, load overrides = .ok db ∧
      (∀ kind device, TunedRecord.check (db.recordFor kind device) = .ok ()) ∧
      (∀ device op, Measured (db.generate device op) (∀ kind, op.classify = .ok kind →
        (Table.ofKind kind).Fits (db.recordFor kind device) op.statements.length
          op.numericType.size)) ∧
      ∀ count ≤ 2 ^ 32, (∀ t, ∀ row ∈ overrides.rows t, t.Fits row.record count 8) →
        ∀ device op, op.statements.length ≤ count →
          (∃ program, db.generate device op = .ok program) ∨
            ∃ refusal, db.generate device op = .error (.refused refusal) := by
  obtain ⟨db, loaded, every⟩ := exists_load overrides
  refine ⟨db, loaded, fun kind device => ?_, db.measured_generate, ?_⟩
  · have passes : (TunedRecord.check (db.recordFor kind device)).toOption.isSome :=
      every (fun t record => (TunedRecord.check record).toOption.isSome)
        (fun t key record found => (of_decide_eq_true (Builtin.sound t key record found)).1)
        (fun t row member => by rw [Overrides.checked_of_read read t row member]; rfl) kind device
    cases checked : TunedRecord.check (db.recordFor kind device) with
    | error fault =>
      rw [checked] at passes
      cases passes
    | ok u => rfl
  · intro count few rows device op short
    have fits (kind : Operation.Kind) := every (fun t record => t.Fits record count 8)
      (fun t key record found =>
        (of_decide_eq_true (Builtin.sound t key record found)).2.mono few (le_refl 8)) rows kind device
    cases generated : db.generate device op with
    | ok program => exact .inl ⟨program, rfl⟩
    | error fault =>
      cases fault with
      | refused refusal => exact .inr ⟨refusal, rfl⟩
      | overflow operation =>
        refine absurd (fun kind _ => ?_) ((db.measured_generate device op).of_overflow _ generated)
        exact (fits kind).mono short op.numericType.size_le

/-- A document with one row for reductions of rows, whose groups have so many workers to a row. -/
def rowDocument (workers : String) : String :=
  "[[row_wise_reduction]]\nvendor=\"unknown\"\nclass=\"gpu\"\nnumeric_type=\"int\"\n" ++
    "[row_wise_reduction.params]\nsimd_width=1\nlocal_size_0=1\nnum_groups_0=1\nlocal_size_1=" ++
    workers ++ "\n"

/-- With 64 workers to a row, no operation of up to a thousand statements overflows. -/
theorem Database.load_measured_rowDocument :
    ∃ overrides db, Overrides.ofToml (rowDocument "64") = .ok overrides ∧
      load overrides = .ok db ∧ ∀ device op, op.statements.length ≤ 1000 →
        (∃ program, db.generate device op = .ok program) ∨
          ∃ refusal, db.generate device op = .error (.refused refusal) := by
  have fits : ((Overrides.ofToml (rowDocument "64")).toOption.any fun overrides =>
      decide (∀ t, ∀ row ∈ overrides.rows t, t.Fits row.record 1000 8)) = true := by
    decide +kernel
  obtain ⟨overrides, read, fits⟩ := exists_ok_of_any fits
  obtain ⟨db, loaded, -, -, ends⟩ := load_measured read
  exact ⟨overrides, db, read, loaded, ends 1000 (by decide) (of_decide_eq_true fits)⟩

/-- The overflow that a computation ends in, if it does. -/
def overflow? {ε α : Type} : Except (Fault ε) α → Option Overflow
  | .error (.overflow operation) => some operation
  | _ => none

theorem eq_error_of_overflow? {ε α : Type} {result : Except (Fault ε) α} {operation : Overflow}
    (overflows : overflow? result = some operation) : result = .error (.overflow operation) := by
  unfold overflow? at overflows
  split at overflows
  · cases overflows
    rfl
  · cases overflows

/-- The sums of the rows of a matrix, shifted by a matrix that stands in no product. -/
def shiftedSums : Operation where
  numericType := .int
  statements := [{
    target := .vector ⟨"y", .fixed 2⟩
    assign := .assign
    value := .add (.reduce .add (.matrix (.plain "A" (.fixed 2) (.fixed 2))))
      (.matrix (.plain "M" (.fixed 2) (.fixed 2))) }]

/-- **A document that is accepted makes generation overflow.** With as many workers to a row as 32 bits
count, the rows of the buffers are too long for 32 bits. -/
theorem Database.load_overflows_rowDocument :
    ∃ overrides db, Overrides.ofToml (rowDocument "4294967295") = .ok overrides ∧
      load overrides = .ok db ∧
      db.generate (.globalDefault .gpu .int) shiftedSums = .error (.overflow .add) := by
  have overflows : ((Overrides.ofToml (rowDocument "4294967295")).toOption.any fun overrides =>
      (load overrides).toOption.any fun db => decide (overflow?
        (db.generate (.globalDefault .gpu .int) shiftedSums) = some .add)) = true := by
    decide +kernel
  obtain ⟨overrides, read, overflows⟩ := exists_ok_of_any overflows
  obtain ⟨db, loaded, overflows⟩ := exists_ok_of_any overflows
  exact ⟨overrides, db, read, loaded, eq_error_of_overflow? (of_decide_eq_true overflows)⟩

end TunedKernel
