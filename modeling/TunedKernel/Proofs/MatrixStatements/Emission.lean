/-
**What the generator of element-wise matrix statements emits.**

* `MatrixTuning.Valid` — what a record that passes its check promises.
* `MatrixStatements.Parts` — what a kernel is put together from, and its code.
* `MatrixStatements.Accepted` — what an accepted operation looks like.
* `MatrixStatements.generate_eq_ok` — the program of an accepted operation.
* `MatrixStatements.launch`, `globalRow`, `globalCol` — the launch of a record, and a worker's numbers
  along the rows and the columns.
-/

import TunedKernel.Generator.MatrixStatements
import TunedKernel.Proofs.Batch.Variables
import TunedKernel.Proofs.Execution.Machine
import TunedKernel.Proofs.Execution.Split

namespace TunedKernel

/-- What a record of matrix statements that passes its check promises. -/
structure MatrixTuning.Valid (p : MatrixTuning) : Prop where
  localSize0 : 0 < p.localSize0.toNat
  localSize1 : 0 < p.localSize1.toNat
  numGroups0 : 0 < p.numGroups0.toNat
  numGroups1 : 0 < p.numGroups1.toNat

theorem MatrixTuning.valid {p : MatrixTuning} {u : Unit} (ok : p.check = .ok u) : p.Valid := by
  obtain ⟨_, -, positive⟩ := bind_eq_ok_iff.mp ok
  have each := checkPositive_eq_ok positive
  exact ⟨each ("local_size_0", _) (by simp), each ("local_size_1", _) (by simp),
    each ("num_groups_0", _) (by simp), each ("num_groups_1", _) (by simp)⟩

namespace MatrixStatements

/-! ### Code -/

/-- What a kernel is put together from. -/
structure Parts where
  record : MatrixTuning
  type : NumericType
  statements : List Statement
  /-- The rows and columns of the targets. -/
  rows : Extent
  cols : Extent
  /-- The step that carries out a statement. -/
  store : Statement → Step

namespace Parts

variable (k : Parts)

/-- The scope of a statement. -/
def scope : Scope := (Scope.bare k.type).withElement (.name "row") (.name "col")

/-- The statements, carried out at one element. -/
def stores : Code := Code.ofSteps (k.statements.map k.store)

/-- The walk over the rows. -/
def rowWalk : Walk := Walk.split k.record.strided "row" 0 k.rows.term

/-- The walk over the columns. -/
def colWalk : Walk := Walk.split k.record.strided "col" 1 k.cols.term

/-- The code of the kernel. -/
def body : Code := k.rowWalk.around (k.colWalk.around k.stores)

end Parts

/-! ### Acceptance -/

/-- What an accepted operation looks like: every statement stores a value without products into a matrix
of the common shape. -/
structure Accepted (op : Operation) (p : MatrixTuning) (k : Parts) : Prop where
  record : k.record = p
  type : k.type = op.numericType
  statements : k.statements = op.statements
  nonempty : k.statements ≠ []
  targets : ∀ s ∈ k.statements, ∃ m, s.target = .matrix m ∧ m.logicalRows = k.rows ∧
    m.logicalCols = k.cols
  products : ∀ s ∈ k.statements, s.value.products = []
  stores : ∀ s ∈ k.statements, s.storeStep k.scope = .ok (k.store s)

theorem checkStatement_eq_ok_iff {shape next : Option (Extent × Extent)} {entry : Statement × Nat} :
    checkStatement shape entry = .ok next ↔ ∃ x, next = some x ∧
      ((∃ m, entry.1.target = .matrix m ∧ (m.logicalRows, m.logicalCols) = x) ∧
        entry.1.value.products = []) ∧ ∀ first, shape = some first → first = x := by
  unfold checkStatement
  split
  · next m isMatrix =>
    simp only [isMatrix, bind_eq_ok_iff, forbidProducts_eq_ok_iff, agree_eq_ok_iff]
    constructor
    · rintro ⟨_, bare, rfl, same⟩
      exact ⟨_, rfl, ⟨⟨m, rfl, rfl⟩, bare⟩, same⟩
    · rintro ⟨_, rfl, ⟨⟨_, ⟨⟩, rfl⟩, bare⟩, same⟩
      exact ⟨(), bare, rfl, same⟩
  · next other =>
    refine iff_of_false nofun ?_
    rintro ⟨_, -, ⟨⟨m, isMatrix, -⟩, -⟩, -⟩
    exact other m isMatrix

/-- **The shape that all targets have** is found exactly if they have it, and store values without
products. -/
theorem commonShape_eq_ok_iff {op : Operation} {shape : Extent × Extent} : commonShape op = .ok shape ↔
    op.statements ≠ [] ∧ ∀ s ∈ op.statements,
      (∃ m, s.target = .matrix m ∧ (m.logicalRows, m.logicalCols) = shape) ∧ s.value.products = [] := by
  have checks : op.statements.zipIdx.foldlM checkStatement none = .ok (some shape) ↔ _ :=
    agrees_iff (fun s x => (∃ m, s.target = .matrix m ∧ (m.logicalRows, m.logicalCols) = x) ∧
      s.value.products = []) fun _ _ _ => checkStatement_eq_ok_iff
  rw [← checks, commonShape, bind_eq_ok_iff]
  constructor
  · rintro ⟨found, checked, ok⟩
    cases found with
    | none => cases ok
    | some found =>
      cases ok
      exact checked
  · exact fun checked => ⟨_, checked, rfl⟩

/-- **The program of an accepted operation**: a single kernel over the sizes of the record. -/
theorem generate_eq_ok {p : MatrixTuning} {op : Operation} {program : Program}
    (ok : generate p op = .ok program) :
    ∃ k arguments kernel, Accepted op p k ∧ collectArguments op 1 = .ok arguments ∧
      program.kernels = [kernel] ∧ kernel.arguments = arguments ∧ kernel.scratchElements = 0 ∧
      kernel.geometry = .plane p.localSize0.toNat p.localSize1.toNat (.fixed p.numGroups0.toNat)
        (.fixed p.numGroups1.toNat) ∧ kernel.body = k.body := by
  obtain ⟨_, -, ok⟩ := bind_eq_ok_iff.mp ok
  obtain ⟨_, -, ok⟩ := bind_eq_ok_iff.mp ok
  obtain ⟨⟨rows, cols⟩, compared, ok⟩ := bind_eq_ok_iff.mp ok
  obtain ⟨arguments, collected, ok⟩ := bind_eq_ok_iff.mp ok
  obtain ⟨stores, stored, ok⟩ := bind_eq_ok_iff.mp ok
  cases ok
  obtain ⟨nonempty, all⟩ := commonShape_eq_ok_iff.mp compared
  have : Nonempty Step := ⟨.barrier⟩
  obtain ⟨store, rfl, stores⟩ := exists_map (g := fun _ s => s) (fun s y found => ⟨y, found, rfl⟩)
    stored
  refine ⟨⟨p, op.numericType, op.statements, rows, cols, store⟩, arguments, _,
    ⟨rfl, rfl, rfl, nonempty, fun s member => ?_, fun s member => (all s member).2, stores⟩,
    accepted_eq_ok_iff.mp collected, rfl, rfl, rfl, rfl, rfl⟩
  obtain ⟨⟨m, isMatrix, shape⟩, -⟩ := all s member
  cases shape
  exact ⟨m, isMatrix, rfl, rfl⟩

/-- The rows and columns are those of a matrix of the operation. -/
theorem Accepted.exists_matrix {op : Operation} {p : MatrixTuning} {k : Parts}
    (accepted : Accepted op p k) :
    ∃ m, .matrix m ∈ op.statements.map Statement.target ∧ m.logicalRows = k.rows ∧
      m.logicalCols = k.cols := by
  obtain ⟨s, member⟩ := List.exists_mem_of_ne_nil _ accepted.nonempty
  obtain ⟨m, isMatrix, rows, cols⟩ := accepted.targets s member
  exact ⟨m, List.mem_map.mpr ⟨s, accepted.statements ▸ member, isMatrix⟩, rows, cols⟩

/-! ### Launch -/

/-- The launch of a record. -/
def launch (p : MatrixTuning) : Shape where
  localSizes := ⟨p.localSize0.toNat, p.localSize1.toNat, 1⟩
  groups := ⟨p.numGroups0.toNat, p.numGroups1.toNat, 1⟩

variable {k : Parts}

/-- The workers along the rows. -/
def Parts.rowWorkers (k : Parts) : Nat := k.record.numGroups0.toNat * k.record.localSize0.toNat

/-- The workers along the columns. -/
def Parts.colWorkers (k : Parts) : Nat := k.record.numGroups1.toNat * k.record.localSize1.toNat

/-- A worker's number along the rows. -/
def globalRow (g : (launch k.record).Group) (l : (launch k.record).Lane) : Nat :=
  g.1 * k.record.localSize0.toNat + l.1

/-- A worker's number along the columns. -/
def globalCol (g : (launch k.record).Group) (l : (launch k.record).Lane) : Nat :=
  g.2.1 * k.record.localSize1.toNat + l.2.1

theorem globalRow_lt (g : (launch k.record).Group) (l : (launch k.record).Lane) :
    globalRow g l < k.rowWorkers := by
  refine Nat.lt_of_lt_of_le (Nat.add_lt_add_left l.1.isLt _) ?_
  exact (Nat.succ_mul _ _).ge.trans (Nat.mul_le_mul_right _ g.1.isLt)

theorem globalCol_lt (g : (launch k.record).Group) (l : (launch k.record).Lane) :
    globalCol g l < k.colWorkers := by
  refine Nat.lt_of_lt_of_le (Nat.add_lt_add_left l.2.1.isLt _) ?_
  exact (Nat.succ_mul _ _).ge.trans (Nat.mul_le_mul_right _ g.2.1.isLt)

/-! ### Names -/

/-- The walk over the columns leaves the counter of the rows alone. -/
theorem rows_fresh (plain : k.stores.binders = []) :
    ∀ x ∈ k.rowWalk.declared ++ ["row"], x ∉ (k.colWalk.around k.stores).binders := by
  intro x row col
  have other : initial x = some 'r' := by
    rcases List.mem_append.mp row with declared | counter
    · obtain ⟨word, -, rfl⟩ := Walk.mem_declared_split declared
      exact initial_append (by decide) _
    · rw [List.mem_singleton.mp counter]
      decide
  rcases Walk.mem_binders_split.mp col with declared | rfl | none
  · obtain ⟨word, -, rfl⟩ := Walk.mem_declared_split declared
    rw [initial_append (c := 'c') (by decide)] at other
    exact absurd other (by decide)
  · exact absurd other (by decide)
  · rw [plain] at none
    cases none

end MatrixStatements

end TunedKernel
