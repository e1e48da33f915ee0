/-
**Only consistent records are in use.**

* `TunedRecord.Sound`, `Table.Sound` — what a record promises: no number is zero, the width is one of
  kernel code's, and a matrix product walks whole steps and fetches with all its workers.
* `Table.sound` — every record that passes its check promises it.
* `Builtin.checked` — the builtin records pass their checks.
* `Database.load_valid` — over the builtin records and any document that is accepted, every table
  answers every device with a record that passes its check, and generation uses no other.
-/

import TunedKernel.Proofs.Generation.Dispatch
import TunedKernel.Proofs.Generation.Loaded
import TunedKernel.Proofs.MatrixProduct.Emission

namespace TunedKernel

/-! ### What a record promises -/

/-- No number of a record is zero, and its width is one of kernel code's. -/
structure TunedRecord.Sound {P : Type} [TunedRecord P] (p : P) : Prop where
  positive : ∀ name n, (name, .number n) ∈ settings p → 0 < n.toNat
  width : ∃ n, (settings p).lookup "simd_width" = some (.number n) ∧ n.toNat ∈ [1, 2, 4, 8, 16]

theorem checkWidth_eq_ok_iff {width : UInt32} {u : Unit} :
    checkWidth width = .ok u ↔ width.toNat ∈ [1, 2, 4, 8, 16] :=
  require_eq_ok_iff.trans NumericType.isVectorWidth_iff

/-- A record whose numbers are its width and the sizes that its check looks at. -/
theorem TunedRecord.Sound.of_checks {P : Type} [TunedRecord P] {p : P} {width : UInt32}
    {sizes : List (String × UInt32)} {u v : Unit} (packed : checkWidth width = .ok u)
    (positive : checkPositive sizes = .ok v)
    (first : (settings p).lookup "simd_width" = some (.number width))
    (covered : ∀ name n, (name, .number n) ∈ settings p → (name, n) ∈ ("simd_width", width) :: sizes) :
    Sound p where
  positive name n member := by
    rcases List.mem_cons.mp (covered name n member) with same | size
    · cases same
      have among := checkWidth_eq_ok_iff.mp packed
      simp only [List.mem_cons, List.not_mem_nil, or_false] at among
      omega
    · exact checkPositive_eq_ok positive (name, n) size
  width := ⟨width, first, checkWidth_eq_ok_iff.mp packed⟩

/-- What a record of a table promises. A matrix product walks its tiles in whole steps, and where
operands are staged, the fetch shape has as many workers as the group. -/
def Table.Sound : (t : Table) → t.Record → Prop
  | .matrixProduct _ _, (p : ProductTuning) => TunedRecord.Sound p ∧ p.ks.toNat ∣ p.kl.toNat ∧
      (p.staged = true →
        p.localFetch0.toNat * p.localFetch1.toNat = p.localSize0.toNat * p.localSize1.toNat)
  | _, record => TunedRecord.Sound record

/-- A record whose check looks at its width and its sizes and at nothing else. -/
theorem TunedRecord.Sound.of_check {P : Type} [TunedRecord P] {p : P} {width : UInt32}
    {sizes : List (String × UInt32)} {u : Unit}
    (ok : (checkWidth width >>= fun _ => checkPositive sizes) = .ok u)
    (first : (settings p).lookup "simd_width" = some (.number width))
    (covered : ∀ name n, (name, .number n) ∈ settings p → (name, n) ∈ ("simd_width", width) :: sizes) :
    Sound p := by
  obtain ⟨_, packed, positive⟩ := bind_eq_ok_iff.mp ok
  exact of_checks packed positive first covered

theorem VectorTuning.sound {p : VectorTuning} {u : Unit} (ok : p.check = .ok u) :
    TunedRecord.Sound p :=
  .of_check ok rfl fun name n member => by simpa [TunedRecord.settings] using member

theorem MatrixTuning.sound {p : MatrixTuning} {u : Unit} (ok : p.check = .ok u) :
    TunedRecord.Sound p :=
  .of_check ok rfl fun name n member => by simpa [TunedRecord.settings] using member

theorem ReductionTuning.sound {p : ReductionTuning} {u : Unit} (ok : p.check = .ok u) :
    TunedRecord.Sound p :=
  .of_check ok rfl fun name n member => by simpa [TunedRecord.settings] using member

theorem RowTuning.sound {p : RowTuning} {u : Unit} (ok : p.check = .ok u) :
    TunedRecord.Sound p :=
  .of_check ok rfl fun name n member => by simpa [TunedRecord.settings] using member

theorem ProductTuning.sound {p : ProductTuning} {u : Unit} (ok : p.check = .ok u) :
    TunedRecord.Sound p := by
  obtain ⟨_, packed, rest⟩ := bind_eq_ok_iff.mp ok
  obtain ⟨_, positive, -⟩ := bind_eq_ok_iff.mp rest
  refine .of_checks packed positive rfl fun name n member => ?_
  -- The settings are listed in another order than the sizes are checked in.
  simp only [TunedRecord.settings, List.mem_cons, Prod.mk.injEq, Setting.number.injEq, reduceCtorEq,
    and_false, false_or, List.not_mem_nil, or_false] at member
  rcases member with same | same | same | same | same | same | same | same | same <;>
    simp [same]

/-- **A record that passes its check is sound.** -/
theorem Table.sound (t : Table) {record : t.Record} (ok : TunedRecord.check record = .ok ()) :
    t.Sound record :=
  match t with
  | .vectorStatements => VectorTuning.sound ok
  | .matrixStatements => MatrixTuning.sound ok
  | .reduction => ReductionTuning.sound ok
  | .rowReduction | .transposedRowReduction | .matrixVector => RowTuning.sound ok
  | .matrixProduct _ _ =>
    ⟨ProductTuning.sound ok, (ProductTuning.valid ok).step, (ProductTuning.valid ok).fetch⟩

/-! ### Loaded records -/

/-- The builtin records pass their checks. -/
theorem Builtin.checked (t : Table) :
    (draft t).All fun record => TunedRecord.check record = .ok () := by
  intro key record found
  have passes := (of_decide_eq_true (Builtin.sound t key record found)).1
  cases checked : TunedRecord.check record with
  | error fault =>
    rw [checked] at passes
    cases passes
  | ok u => rfl

/-- **Only records that pass their checks are in use.** Loading succeeds without a document and with
any document that is accepted. Whichever table is asked for whichever device, the record of the answer
passes its check and is sound; so is the record for any kind, and generation for an operation of the
kind uses that one. -/
theorem Database.load_valid {overrides : Overrides}
    (origin : overrides = .none ∨ ∃ source, Overrides.ofToml source = .ok overrides) :
    ∃ db, load overrides = .ok db ∧
      (∀ t device, TunedRecord.check (db.resolve t device).1 = .ok () ∧
        t.Sound (db.resolve t device).1) ∧
      (∀ kind device, TunedRecord.check (db.recordFor kind device) = .ok () ∧
        (Table.ofKind kind).Sound (db.recordFor kind device)) ∧
      ∀ device op kind, op.numericType = device.numericType → op.classify = .ok kind →
        db.generate device op = generateWith kind (db.recordFor kind device) op := by
  have rows (t : Table) (row : Row t.Record) (member : row ∈ overrides.rows t) :
      TunedRecord.check row.record = .ok () := by
    rcases origin with rfl | ⟨source, read⟩
    · exact absurd member List.not_mem_nil
    · exact Overrides.checked_of_read read t row member
  obtain ⟨db, loaded, every⟩ := exists_load_resolve overrides
  have checked := every (fun _ record => TunedRecord.check record = .ok ()) Builtin.checked rows
  have valid (t : Table) (device : Device) : TunedRecord.check (db.resolve t device).1 = .ok () ∧
      t.Sound (db.resolve t device).1 := ⟨checked t device, t.sound (checked t device)⟩
  exact ⟨db, loaded, valid, fun kind device => valid (Table.ofKind kind) device,
    fun device op kind => generate_eq⟩

/-- A document with a record for the GPUs of a vendor: for the reductions of the rows of transposed
matrices. -/
def vendorDocument : String :=
  "[[trans_row_wise_reduction]]\nvendor=\"nvidia\"\nclass=\"gpu\"\nnumeric_type=\"float\"\n" ++
    "[trans_row_wise_reduction.params]\nsimd_width=1\nlocal_size_0=4\nlocal_size_1=64\n" ++
    "num_groups_0=128\n"

/-- A GPU of the vendor, of a family that nothing is known of. -/
def vendorModel : Device := { Builtin.fermi with architecture := .unknown, name := "GTX 1080" }

/-- The record of the document. -/
def vendorRows : Table.Record .transposedRowReduction := (⟨1, 4, 64, 128⟩ : RowTuning)

/-- The GPU is answered with the record of the document, and with that of all GPUs for the products with
a transposed right operand; both are sound. -/
theorem Database.load_valid_vendorDocument :
    ∃ overrides db, Overrides.ofToml vendorDocument = .ok overrides ∧ load overrides = .ok db ∧
      (db.resolve .transposedRowReduction vendorModel).1 = vendorRows ∧
      Table.Sound .transposedRowReduction vendorRows ∧
      TunedRecord.tag (db.resolve (.matrixProduct false true) vendorModel).1 =
        "V1L8x8KL8M4K4N4ABF8x8" ∧
      (Table.matrixProduct false true).Sound
        (db.resolve (.matrixProduct false true) vendorModel).1 := by
  have evaluated : ((Overrides.ofToml vendorDocument).toOption.any fun overrides =>
      (load overrides).toOption.any fun db =>
        decide ((db.resolve .transposedRowReduction vendorModel).1 = vendorRows ∧
          TunedRecord.tag (db.resolve (.matrixProduct false true) vendorModel).1 =
            "V1L8x8KL8M4K4N4ABF8x8")) = true := by
    decide +kernel
  obtain ⟨overrides, read, evaluated⟩ := exists_ok_of_any evaluated
  obtain ⟨db, loaded, evaluated⟩ := exists_ok_of_any evaluated
  obtain ⟨rows, products⟩ := of_decide_eq_true evaluated
  obtain ⟨db', loaded', valid, -⟩ := load_valid (.inr ⟨vendorDocument, read⟩)
  cases loaded.symm.trans loaded'
  exact ⟨overrides, db, read, loaded, rows, rows ▸ (valid .transposedRowReduction vendorModel).2,
    products, (valid (.matrixProduct false true) vendorModel).2⟩

end TunedKernel
