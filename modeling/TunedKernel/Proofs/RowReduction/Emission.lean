/-
**What the generator of row reductions emits.**

* `RowTuning.Valid` — what a record that passes its check promises.
* `RowReduction.Parts` — what a kernel is put together from; `Parts.trip`, `Parts.body` — its code for
  one row of each worker, and the whole code.
* `RowReduction.Accepted` — what an accepted batch looks like.
* `RowReduction.generateFor_eq_ok` — the program of an accepted batch.
-/

import TunedKernel.Generator.RowReduction
import TunedKernel.Proofs.Batch.Acceptance

namespace TunedKernel

/-- What a record of row reductions that passes its check promises. -/
structure RowTuning.Valid (p : RowTuning) : Prop where
  localSize0 : 0 < p.localSize0.toNat
  localSize1 : 0 < p.localSize1.toNat
  numGroups0 : 0 < p.numGroups0.toNat

theorem RowTuning.valid {p : RowTuning} {u : Unit} (ok : p.check = .ok u) : p.Valid := by
  obtain ⟨_, -, positive⟩ := bind_eq_ok_iff.mp ok
  have each := checkPositive_eq_ok positive
  exact ⟨each ("local_size_0", _) (by simp), each ("local_size_1", _) (by simp),
    each ("num_groups_0", _) (by simp)⟩

namespace RowReduction

/-! ### Code -/

/-- What a kernel is put together from. -/
structure Parts where
  record : RowTuning
  transposed : Bool
  type : NumericType
  folded : List Folded
  /-- The rows and columns that the matrices share. -/
  rows : Extent
  cols : Extent
  /-- The term that is folded into the variable of a statement. -/
  term : Folded → Term
  tree : Code
  /-- The step that carries out a statement. -/
  store : Folded → Step

namespace Parts

variable (k : Parts)

/-- The variable of the rows. -/
def outer : String := (counters k.transposed).1

/-- The variable of the columns. -/
def inner : String := (counters k.transposed).2

/-- The dimensions of the buffers. -/
def dims : List Nat := [k.record.localSize0.toNat, k.record.localSize1.toNat + 1]

/-- Whether the row of a worker is one of the matrices'. -/
def inside : Term := .binary .less (.name k.outer) k.rows.term

/-- The scope of a term of a product. -/
def elementScope : Scope :=
  ((Scope.bare k.type).withIndex (.name k.inner)).withElement (.name k.outer) (.name k.inner)

/-- The scope of a statement, whose product stands in the first slot of a row. -/
def storeScope (f : Folded) : Scope :=
  ((Scope.bare k.type).withIndex (.name k.outer)).withProduct
    (Tree.result (f.buffer k.type k.dims) [.name "lid0"])

/-- The worker's part of a row, folded into the variables. -/
def gather : Code := Code.ofGuard k.inside ((Walk.strided k.inner 1 k.cols.term).around
  (Code.ofSteps (k.folded.map fun f => f.accumulate f.sum (k.term f))))

/-- The statements, carried out by the first worker of a row. -/
def finish : Code := Code.ofGuard
  (.binary .both (.binary .equal (.name "lid1") (.count 0)) k.inside)
  (Code.ofSteps (k.folded.map k.store))

/-- The code for one row of each worker. -/
def trip : Code := Code.join [
  Code.ofSteps (k.folded.map fun f => f.declareSum k.type),
  k.gather,
  Code.ofSteps (k.folded.map fun f =>
    f.publish (f.buffer k.type k.dims) [.name "lid0", .name "lid1"]),
  k.tree,
  k.finish,
  Code.ofSteps [.barrier]]

/-- The arrays of the group, and the worker's place in it. -/
def prologue : Code := Code.join [
  Code.ofSteps (k.folded.map fun f => .declareLocal (f.buffer k.type k.dims)),
  Code.ofSteps [.declare .index "lid0" (.query .localId 0),
    .declare .index "lid1" (.query .localId 1)]]

/-- The code of the kernel. -/
def body : Code := k.prologue ++ (Walk.uniform k.outer 0 k.rows.term).around k.trip

end Parts

/-! ### Acceptance -/

/-- What an accepted batch looks like: every statement stores into a vector a value with one product,
whose first matrix has the rows and columns of the batch. -/
structure Accepted (op : Operation) (p : RowTuning) (k : Parts) : Prop where
  record : k.record = p
  type : k.type = op.numericType
  numbered : Numbered op.statements k.folded
  nonempty : k.folded ≠ []
  targets : ∀ f ∈ k.folded, ∃ v, f.statement.target = .vector v
  shapes : ∀ f ∈ k.folded, ∃ m, f.product.matrix? = some m ∧ m.logicalRows = k.rows ∧
    m.logicalCols = k.cols
  terms : ∀ f ∈ k.folded, f.product.term k.elementScope = .ok (k.term f)
  tree : Tree.code (ε := Refusal) (Folded.trees k.type k.dims k.folded) [.name "lid0"]
    (.name "lid1") k.record.localSize1.toNat = .ok k.tree
  stores : ∀ f ∈ k.folded, f.statement.storeStep (k.storeScope f) = .ok (k.store f)

theorem productMatrix_eq_ok_iff {kind : Operation.Kind} {transposed : Bool} {position : Nat} {p : Product}
    {m : MatrixOperand} : productMatrix kind transposed position p = .ok m ↔
      p.matrix? = some m ∧ p.rightMatrix? = none ∧ m.transposed = transposed := by
  unfold productMatrix
  cases left : p.matrix? with
  | none => exact iff_of_false nofun nofun
  | some m' =>
    cases right : p.rightMatrix? with
    | some other => exact iff_of_false nofun nofun
    | none =>
      simp only [Option.isSome_none, Bool.false_eq_true, if_false, true_and]
      split
      · next same =>
        constructor
        · rintro ⟨⟩
          exact ⟨rfl, same⟩
        · rintro ⟨⟨⟩, -⟩
          rfl
      · next other =>
        refine iff_of_false nofun ?_
        rintro ⟨⟨⟩, same⟩
        exact other same

/-- **When a statement passes**: it stores into a vector, and has a product as demanded, with a matrix on the
left that is read as the kernel is written for and has the shape that was found before, if there was one. -/
theorem checkStatement_eq_ok_iff {kind : Operation.Kind} {transposed : Bool} {demand : Demand}
    {state next : List Folded × Option (Extent × Extent)} {entry : Statement × Nat} :
    checkStatement kind transposed demand state entry = .ok next ↔
      ∃ product shape, entry.1.value.products = [product] ∧
        ((∃ v, entry.1.target = .vector v) ∧ ∃ m, product.matrix? = some m ∧
          product.rightMatrix? = none ∧ m.transposed = transposed ∧
          (m.logicalRows, m.logicalCols) = shape) ∧
        demand entry.2 product = .ok () ∧ next = (state.1 ++ [⟨entry.1, product, entry.2⟩], some shape) ∧
        ∀ first, state.2 = some first → first = shape := by
  unfold checkStatement
  split
  · next v isVector =>
    simp only [isVector, bind_eq_ok_iff, theProduct_eq_ok_iff, productMatrix_eq_ok_iff, agree_eq_ok_iff]
    constructor
    · rintro ⟨product, single, m, ⟨first, bare, same⟩, ⟨⟩, asked, shape, ⟨rfl, agrees⟩, ok⟩
      cases ok
      exact ⟨product, _, single, ⟨⟨v, rfl⟩, m, first, bare, same, rfl⟩, asked, rfl, agrees⟩
    · rintro ⟨product, shape, single, ⟨-, m, first, bare, same, rfl⟩, asked, rfl, agrees⟩
      exact ⟨product, single, m, ⟨first, bare, same⟩, (), asked, _, ⟨rfl, agrees⟩, rfl⟩
  · next other =>
    refine iff_of_false nofun ?_
    rintro ⟨_, _, -, ⟨⟨v, isVector⟩, -⟩, -⟩
    exact other v isVector

theorem batch_eq_ok {kind : Operation.Kind} {transposed : Bool} {demand : Demand} {op : Operation}
    {folded : List Folded} {rows cols : Extent}
    (ok : batch kind transposed demand op = .ok (folded, rows, cols)) :
    Numbered op.statements folded ∧ ∀ f ∈ folded, (∃ v, f.statement.target = .vector v) ∧
      ∃ m, f.product.matrix? = some m ∧ m.logicalRows = rows ∧ m.logicalCols = cols := by
  obtain ⟨⟨found, shape⟩, collected, ok⟩ := bind_eq_ok_iff.mp ok
  obtain ⟨numbered, all⟩ := collects (fun s product shape =>
    (∃ v, s.target = .vector v) ∧ ∃ m, product.matrix? = some m ∧
      product.rightMatrix? = none ∧ m.transposed = transposed ∧ (m.logicalRows, m.logicalCols) = shape)
    (fun _ _ _ ok => by
      obtain ⟨product, shape, single, accepted, -, left⟩ := checkStatement_eq_ok_iff.mp ok
      exact ⟨product, shape, single, accepted, left⟩) collected
  cases shape with
  | none => cases ok
  | some shape =>
    cases ok
    refine ⟨numbered, fun f member => ?_⟩
    obtain ⟨_, same, target, m, matrix, -, -, shape⟩ := all f member
    cases same
    exact ⟨target, m, matrix, congrArg Prod.fst shape, congrArg Prod.snd shape⟩

/-- **The program of an accepted batch**: a single kernel over the sizes of the record. -/
theorem generateFor_eq_ok {kind : Operation.Kind} {transposed : Bool} {demand : Demand}
    {p : RowTuning} {op : Operation} {program : Program}
    (ok : generateFor kind transposed demand p op = .ok program) :
    ∃ k arguments kernel, k.transposed = transposed ∧ Accepted op p k ∧
      collectArguments op 1 = .ok arguments ∧ program.kernels = [kernel] ∧
      kernel.arguments = arguments ∧ kernel.scratchElements = 0 ∧
      kernel.geometry = .plane p.localSize0.toNat p.localSize1.toNat (.fixed p.numGroups0.toNat)
        (.fixed 1) ∧ kernel.body = k.body := by
  obtain ⟨_, nonempty, ok⟩ := bind_eq_ok_iff.mp ok
  obtain ⟨_, -, ok⟩ := bind_eq_ok_iff.mp ok
  obtain ⟨⟨folded, rows, cols⟩, batched, ok⟩ := bind_eq_ok_iff.mp ok
  obtain ⟨arguments, collected, ok⟩ := bind_eq_ok_iff.mp ok
  obtain ⟨row, fits, ok⟩ := bind_eq_ok_iff.mp ok
  obtain ⟨bytes, -, ok⟩ := bind_eq_ok_iff.mp ok
  obtain ⟨body, emitted, ok⟩ := bind_eq_ok_iff.mp ok
  cases ok
  obtain rfl := (Word.add_eq_ok_iff.mp fits).2
  obtain ⟨numbered, each⟩ := batch_eq_ok batched
  obtain ⟨terms, gathered, emitted⟩ := bind_eq_ok_iff.mp emitted
  obtain ⟨tree, staged, emitted⟩ := bind_eq_ok_iff.mp emitted
  obtain ⟨stores, stored, emitted⟩ := bind_eq_ok_iff.mp emitted
  cases emitted
  have : Nonempty Term := ⟨.number 0⟩
  have : Nonempty Step := ⟨.barrier⟩
  obtain ⟨term, rfl, terms⟩ := exists_map (g := fun f t => Folded.accumulate f f.sum t)
    (P := fun f t => f.product.term (((Scope.bare op.numericType).withIndex
      (.name (counters transposed).2)).withElement (.name (counters transposed).1)
        (.name (counters transposed).2)) = .ok t) (fun f y found => by
      obtain ⟨t, first, found⟩ := bind_eq_ok_iff.mp found
      cases found
      exact ⟨t, accepted_eq_ok_iff.mp first, rfl⟩) gathered
  obtain ⟨store, rfl, stores⟩ := exists_map (g := fun _ s => s) (fun f y found => ⟨y, found, rfl⟩)
    stored
  refine ⟨⟨p, transposed, op.numericType, folded, rows, cols, term, tree, store⟩, arguments, _, rfl,
    ⟨rfl, rfl, numbered, ?_, fun f member => (each f member).1, fun f member => (each f member).2,
      terms, staged, stores⟩, accepted_eq_ok_iff.mp collected, rfl, rfl, rfl, rfl, ?_⟩
  · rintro rfl
    have none : op.statements = [] := numbered.statements_eq.symm
    have some := require_eq_ok_iff.mp nonempty
    rw [none] at some
    cases some
  · show _ ++ (_ ++ (_ ++ Code.done)) = (_ ++ (_ ++ Code.done)) ++ _
    rw [Code.append_done, Code.append_done, Code.append_assoc]
    rfl

end RowReduction

end TunedKernel
