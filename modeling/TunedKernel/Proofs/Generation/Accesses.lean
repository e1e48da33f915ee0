/-
**What generated kernels access.**

A kernel introduces arrays of its own: local buffers and tiles, registers, and the scratch buffer of a
reduction. Its other accesses are to the operands.

* `Kernel.Makes` — in every launch the workers go on to their end, and make accesses of one sort only.
* `OperandsFit`, `generateWith_orderly` — the kernels of every kind are orderly, and where the operands fit,
  every leaf has the elements that are read.
* `generateWith_inside` — whatever is generated stays inside the arrays that it introduces.
* `generateWith_within` — where the operands fit, it stays inside the operands as well. The generators do
  not compare all of them: `mismatched_accepted` is an operation that is accepted and reads beyond one.
-/

import TunedKernel.Generator.Basic
import TunedKernel.Proofs.MatrixProduct.Accesses
import TunedKernel.Proofs.MatrixStatements.Accesses
import TunedKernel.Proofs.Reduction.Accesses
import TunedKernel.Proofs.Reduction.Correctness
import TunedKernel.Proofs.RowReduction.Accesses
import TunedKernel.Proofs.VectorStatements.Accesses

namespace TunedKernel

variable {bindings : Bindings}

/-! ### Accesses of a launch -/

/-- In every launch the workers go on to their end, and make accesses of the sort given only: with the
values left out, and over every memory and in every order of moves. -/
structure Kernel.Makes (kernel : Kernel) (bindings : Bindings)
    (sort : Worker → Names Unit → Access → Prop) : Prop where
  outlines : ∀ shape, kernel.geometry.shape? bindings = some shape →
    ∀ (g : shape.Group) (l : shape.Lane), (kernel.start (fun _ => ()) bindings).Keeps
      (shape.worker g l) (sort (shape.worker g l))
  launches : ∀ shape, kernel.geometry.shape? bindings = some shape → ∀ {α : Type} (e : Elements α)
    (host : String → α) (m : Memory α) state, Relation.ReflTransGen
      (fun before after => LaunchMove shape e before.1 before.2 after.1 after.2)
      (fun _ _ => kernel.start host bindings, m) state →
    ∀ (g : shape.Group) (l : shape.Lane), ∀ a ∈ (state.1 g l).accesses,
      sort (shape.worker g l) (state.1 g l).names.outline a

/-- It is enough that the threads keep to such accesses when the values are left out. -/
theorem Kernel.Makes.of_outlines {kernel : Kernel} {sort : Worker → Names Unit → Access → Prop}
    (outlines : ∀ shape, kernel.geometry.shape? bindings = some shape →
      ∀ (g : shape.Group) (l : shape.Lane), (kernel.start (fun _ => ()) bindings).Keeps
        (shape.worker g l) (sort (shape.worker g l))) : kernel.Makes bindings sort where
  outlines := outlines
  launches shape shaped _ _ _ _ _ run g l := Kernel.allowed_of_run (outlines shape shaped g l) run

/-- The subscripts of an access lie inside the dimensions of an array of the kernel, if it is to one. -/
def Access.InsideOf (kernel : Kernel) (w : Worker) (names : Names Unit) (a : Access) : Prop :=
  ∀ dims, (a.array, dims) ∈ kernel.arrays →
    ∃ ns, a.subscripts.mapM (fun s => s.number? w names) = some ns ∧ Term.inside ns dims = true

/-- An access is to an element that a leaf of the operation has, if it is not to an array of the kernel. -/
def Access.WithinOf (kernel : Kernel) (op : Operation) (width : Nat) (bindings : Bindings) (w : Worker)
    (names : Names Unit) (a : Access) : Prop :=
  (∀ dims, (a.array, dims) ∉ kernel.arrays) → ∃ leaf ∈ op.nodes, ∃ point,
    leaf.Has width bindings point ∧ a.Meets bindings w names leaf point

namespace Kernel.Orderly

variable {kernel : Kernel} {op : Operation} {reads : Expr → Point → Prop}

theorem makes_inside (orderly : kernel.Orderly op bindings reads) :
    kernel.Makes bindings (Access.InsideOf kernel) :=
  .of_outlines fun shape shaped g l t comes => ⟨(orderly.accesses shape shaped g l t comes).1,
    fun _ member _ declared => orderly.inside shaped comes member declared⟩

theorem makes_within (orderly : kernel.Orderly op bindings reads) {width : Nat}
    (has : ∀ leaf point, reads leaf point → leaf.Has width bindings point) :
    kernel.Makes bindings (Access.WithinOf kernel op width bindings) := by
  refine .of_outlines fun shape shaped g l t comes =>
    ⟨(orderly.accesses shape shaped g l t comes).1, fun a member other => ?_⟩
  obtain ⟨leaf, node, point, read, meets⟩ := orderly.meets shaped comes member other
  exact ⟨leaf, node, point, has leaf point read, meets⟩

end Kernel.Orderly

/-! ### Kernels of every kind -/

/-- The number of elements that a kernel reads at a time from a vector. -/
def packing (kind : Operation.Kind) (record : (Table.ofKind kind).Record) : Nat :=
  match kind, record with
  | .vectorStatements, p => (VectorTuning.simdWidth p).toNat
  | .reduction, p => (ReductionTuning.simdWidth p).toNat
  | .matrixStatements, _ | .rowReduction _, _ | .matrixVector _, _ | .matrixProduct _ _, _ => 1

/-- The operands of an operation fit the ranges over which a kernel of one kind reads them. -/
def OperandsFit (kind : Operation.Kind) (record : (Table.ofKind kind).Record) (op : Operation)
    (bindings : Bindings) : Prop :=
  match kind, record with
  | .vectorStatements, _ => VectorStatements.Fits op bindings
  | .matrixStatements, _ => MatrixStatements.Fits op bindings
  | .reduction, _ => Reduction.Fits op bindings
  | .rowReduction _, _ | .matrixVector _, _ => RowReduction.Fits op bindings
  | .matrixProduct _ _, p => MatrixProduct.Covers p op bindings

variable {kind : Operation.Kind} {record : (Table.ofKind kind).Record} {op : Operation}
  {program : Program} {kernel : Kernel}

/-- **The kernels of every kind are orderly**, and where the operands fit, every leaf has the elements that
are read. -/
theorem generateWith_orderly (checked : TunedRecord.check record = .ok ())
    (generated : generateWith kind record op = .ok program) (member : kernel ∈ program.kernels)
    (proper : kernel.Proper) (sized : kernel.Sized bindings) :
    ∃ reads, kernel.Orderly op bindings reads ∧ (OperandsFit kind record op bindings → ∀ leaf point,
      reads leaf point → leaf.Has (packing kind record) bindings point) := by
  match kind, record with
  | .vectorStatements, p =>
    exact VectorStatements.generate_orderly generated member proper sized
  | .matrixStatements, p =>
    exact MatrixStatements.generate_orderly generated member proper sized
  | .reduction, p =>
    exact Reduction.generate_orderly (ReductionTuning.valid checked) generated member proper sized
  | .rowReduction false, p =>
    exact RowReduction.generateFor_orderly (RowTuning.valid checked) generated member proper sized
  | .rowReduction true, p =>
    exact RowReduction.generateFor_orderly (RowTuning.valid checked) generated member proper sized
  | .matrixVector transposed, p =>
    exact RowReduction.generateFor_orderly (RowTuning.valid checked) generated member proper sized
  | .matrixProduct left right, p =>
    exact MatrixProduct.generate_orderly (ProductTuning.valid checked) generated member proper sized

/-- **Generated kernels stay inside the arrays that they introduce**, on every trip of every loop. -/
theorem generateWith_inside (checked : TunedRecord.check record = .ok ())
    (generated : generateWith kind record op = .ok program) (member : kernel ∈ program.kernels)
    (proper : kernel.Proper) (sized : kernel.Sized bindings) :
    kernel.Makes bindings (Access.InsideOf kernel) := by
  obtain ⟨reads, orderly, -⟩ := generateWith_orderly checked generated member proper sized
  exact orderly.makes_inside

/-- The buffers of a small batch and its scratch buffer, with their dimensions. -/
theorem generateWith_inside_smallBatch : ∃ program,
    generateWith .reduction Reduction.smallRecord Reduction.smallBatch = .ok program ∧
      ∀ kernel ∈ program.kernels, kernel.arrays = [("buf0", [3]), ("buf1", [3]), ("temp", [4])] ∧
        kernel.Makes Reduction.smallSizes (Access.InsideOf kernel) := by
  have accepted : ((generateWith .reduction Reduction.smallRecord
      Reduction.smallBatch).toOption.any fun program => program.kernels.all fun kernel =>
        decide kernel.Proper && decide (kernel.Sized Reduction.smallSizes) &&
          decide (kernel.arrays = [("buf0", [3]), ("buf1", [3]), ("temp", [4])])) = true := by
    decide +kernel
  obtain ⟨program, generated, all⟩ := exists_ok_of_any accepted
  refine ⟨program, generated, fun kernel member => ?_⟩
  have inOrder := List.all_eq_true.mp all kernel member
  simp only [Bool.and_eq_true, decide_eq_true_eq] at inOrder
  exact ⟨inOrder.2, generateWith_inside (by rfl) generated member inOrder.1.1 inOrder.1.2⟩

/-- **Where the operands fit, generated kernels stay inside them** as well. -/
theorem generateWith_within (checked : TunedRecord.check record = .ok ())
    (generated : generateWith kind record op = .ok program) (member : kernel ∈ program.kernels)
    (proper : kernel.Proper) (sized : kernel.Sized bindings)
    (fit : OperandsFit kind record op bindings) :
    kernel.Makes bindings (Access.WithinOf kernel op (packing kind record) bindings) := by
  obtain ⟨reads, orderly, has⟩ := generateWith_orderly checked generated member proper sized
  exact orderly.makes_within (has fit)

/-- All vectors of the small batch are as long as the one that it folds over. -/
theorem generateWith_within_smallBatch : ∃ program,
    generateWith .reduction Reduction.smallRecord Reduction.smallBatch = .ok program ∧
      ∀ kernel ∈ program.kernels, kernel.Makes Reduction.smallSizes
        (Access.WithinOf kernel Reduction.smallBatch 2 Reduction.smallSizes) := by
  obtain ⟨program, generated, inOrder⟩ := Reduction.exists_smallProgram
  replace generated : generateWith .reduction Reduction.smallRecord Reduction.smallBatch =
    .ok program := generated
  have read : ∀ s ∈ Reduction.smallBatch.statements, ∀ product ∈ s.value.products,
      ∀ leaf ∈ product.leaves, leaf = .vector (Reduction.smallVector "left") ∨
        leaf = .vector (Reduction.smallVector "right") := by decide +kernel
  have walked : ∀ s ∈ Reduction.smallBatch.statements, ∀ product ∈ s.value.products,
      product.vector? = some (Reduction.smallVector "left") := by decide +kernel
  refine ⟨program, generated, fun kernel member => generateWith_within (by rfl) generated member
    (inOrder kernel member).1 (inOrder kernel member).2 ?_⟩
  intro s inside product single y found s' inside' product' single' x reads
  cases (walked s inside product single).symm.trans found
  rcases read s' inside' product' single' _ reads with same | same <;> cases same <;> rfl

/-! ### Operands that do not fit -/

/-- What a thread comes to in a number of moves. -/
def Thread.ahead? (w : Worker) : Nat → Thread Unit → Option (Thread Unit)
  | 0, t => some t
  | n + 1, t => (t.next? w).bind (ahead? w n)

theorem Thread.comes_of_ahead? {w : Worker} {n : Nat} {t t' : Thread Unit}
    (moves : t.ahead? w n = some t') : t.Comes w t' := by
  induction n generalizing t with
  | zero =>
    cases moves
    exact .refl
  | succ n ih =>
    obtain ⟨t₁, next, further⟩ := Option.bind_eq_some_iff.mp moves
    exact .head next (ih further)

/-- A record of a single worker. -/
def unitRecord : ReductionTuning where
  simdWidth := 1
  localSize := 1
  numGroups := 1
  strided := true

/-- A sum of products of the elements of two vectors, one of which is shorter. -/
def mismatched : Operation where
  numericType := .int
  statements := [{
    target := .scalar (.device "total")
    assign := .assign
    value := .contract (.vector ⟨"left", .fixed 8⟩) (.vector ⟨"right", .fixed 4⟩) }]

/-- **Operands are not compared within a product**: the sum is accepted, and its kernel reads elements that
the shorter vector does not have. -/
theorem mismatched_accepted : ∃ program,
    generateWith .reduction unitRecord mismatched = .ok program ∧ ∃ kernel ∈ program.kernels,
      kernel.Proper ∧ kernel.Sized (fun _ => none) ∧
        ¬ kernel.Makes (fun _ => none) (Access.WithinOf kernel mismatched 1 fun _ => none) := by
  let w : Worker := ⟨⟨1, 1, 1⟩, ⟨1, 1, 1⟩, ⟨0, 0, 0⟩, ⟨0, 0, 0⟩⟩
  -- The access of the fifth trip.
  let beyond (t : Thread Unit) (a : Access) : Bool :=
    a.array == "right" && a.subscripts.mapM (fun s => s.number? w t.names) == some [4]
  have accepted : ((generateWith .reduction unitRecord mismatched).toOption.any fun program =>
      program.kernels.any fun kernel => decide kernel.Proper &&
        decide (kernel.Sized fun _ => none) &&
        decide (kernel.geometry = .line 1 (.fixed 1)) && (kernel.arrays.all fun x => x.1 != "right") &&
        ((kernel.start (fun _ => ()) fun _ => none).ahead? w 21).any fun t =>
          t.accesses.any (beyond t)) = true := by decide +kernel
  obtain ⟨program, generated, found⟩ := exists_ok_of_any accepted
  obtain ⟨kernel, member, found⟩ := List.any_eq_true.mp found
  simp only [Bool.and_eq_true, decide_eq_true_eq] at found
  obtain ⟨⟨⟨⟨proper, sized⟩, geometry⟩, other⟩, reads⟩ := found
  refine ⟨program, generated, kernel, member, proper, sized, fun makes => ?_⟩
  obtain ⟨t, moves, reads⟩ := (Option.any_eq_true _ _).mp reads
  obtain ⟨a, access, reads⟩ := List.any_eq_true.mp reads
  simp only [beyond, Bool.and_eq_true, beq_iff_eq] at reads
  obtain ⟨array, numbers⟩ := reads
  have shaped : kernel.geometry.shape? (fun _ => none) = some ⟨⟨1, 1, 1⟩, ⟨1, 1, 1⟩⟩ := by
    rw [geometry]
    rfl
  have within := (makes.outlines _ shaped (0, 0, 0) (0, 0, 0) t (Thread.comes_of_ahead? moves)).2 a access
  obtain ⟨leaf, node, point, has, buffer, n, s, stored, rfl, at'⟩ := within fun dims declared => by
    have apart := List.all_eq_true.mp other _ declared
    simp [array] at apart
  obtain rfl : n = 4 := by
    rw [List.mapM_cons, show s.number? w t.names = some n from at'] at numbers
    exact (List.cons.inj (Option.some.inj numbers)).1
  have nodes : mismatched.nodes = [.scalar (.device "total"),
      .contract (.vector ⟨"left", .fixed 8⟩) (.vector ⟨"right", .fixed 4⟩),
      .vector ⟨"left", .fixed 8⟩, .vector ⟨"right", .fixed 4⟩] := rfl
  simp only [nodes, List.mem_cons, List.not_mem_nil, or_false] at node
  obtain rfl : buffer = "right" := array
  rcases node with rfl | rfl | rfl | rfl
  · exact absurd (Place.global.inj (Option.some.inj stored)).1 (by decide)
  · cases stored
  · exact absurd (Place.global.inj (Option.some.inj stored)).1 (by decide)
  · have index : point.index = 4 := (Place.global.inj (Option.some.inj stored)).2
    have fits : (point.index + 1) * 1 ≤ 4 := has
    omega

end TunedKernel
