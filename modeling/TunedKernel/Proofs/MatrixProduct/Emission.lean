/-
**What the generator of matrix products emits.**

* `ProductTuning.Valid` — what a record that passes its check promises.
* `MatrixProduct.Tiling.of`, `MatrixProduct.body` — the sizes and the code for a record.
* `MatrixProduct.Accepted` — what an operation that is accepted looks like; `ofOperation_eq_ok_iff` — that its
  parts are found exactly then, if the operands are read as the kernel is written for.
* `MatrixProduct.generate_eq_ok` — the program of an accepted operation.
-/

import TunedKernel.Generator.MatrixProduct
import TunedKernel.Proofs.Batch.Acceptance
import TunedKernel.Proofs.Batch.Nodes

namespace TunedKernel

/-! ### Records -/

/-- What a record of matrix products that passes its check promises. -/
structure ProductTuning.Valid (p : ProductTuning) : Prop where
  localSize0 : 0 < p.localSize0.toNat
  localSize1 : 0 < p.localSize1.toNat
  kl : 0 < p.kl.toNat
  ms : 0 < p.ms.toNat
  ks : 0 < p.ks.toNat
  ns : 0 < p.ns.toNat
  fetch0 : 0 < p.localFetch0.toNat
  fetch1 : 0 < p.localFetch1.toNat
  step : p.ks.toNat ∣ p.kl.toNat
  fetch : p.staged = true →
    p.localFetch0.toNat * p.localFetch1.toNat = p.localSize0.toNat * p.localSize1.toNat

theorem ProductTuning.valid {p : ProductTuning} {u : Unit} (ok : p.check = .ok u) : p.Valid := by
  obtain ⟨_, -, ok⟩ := bind_eq_ok_iff.mp ok
  obtain ⟨_, positive, ok⟩ := bind_eq_ok_iff.mp ok
  obtain ⟨_, step, ok⟩ := bind_eq_ok_iff.mp ok
  obtain ⟨workers, product, ok⟩ := bind_eq_ok_iff.mp ok
  have each := checkPositive_eq_ok positive
  refine ⟨each ("local_size_0", _) (by simp), each ("local_size_1", _) (by simp),
    each ("kl", _) (by simp), each ("ms", _) (by simp), each ("ks", _) (by simp),
    each ("ns", _) (by simp), each ("local_fetch_0", _) (by simp),
    each ("local_fetch_1", _) (by simp), ?_, fun staged => ?_⟩
  · exact Nat.dvd_of_mod_eq_zero (of_decide_eq_true (require_eq_ok_iff.mp step))
  · rw [if_pos staged] at ok
    obtain ⟨fetched, product', ok⟩ := bind_eq_ok_iff.mp ok
    have same := of_decide_eq_true (require_eq_ok_iff.mp ok)
    rw [(Word.mul_eq_ok_iff.mp product).2, (Word.mul_eq_ok_iff.mp product').2]
    exact same

namespace MatrixProduct

/-! ### Code -/

/-- The sizes for a record. -/
def Tiling.of (p : ProductTuning) (type : NumericType) : Tiling where
  record := p
  ml := p.localSize0.toNat * p.ms.toNat
  nl := p.localSize1.toNat * p.ns.toNat
  left := ⟨"lA", type.text, [p.kl.toNat, p.localSize0.toNat * p.ms.toNat + 1]⟩
  right := ⟨"lB", type.text, [p.kl.toNat, p.localSize1.toNat * p.ns.toNat + 1]⟩

/-- The scope of the statement, which is carried out for every element of the register block. -/
def resultScope (type : NumericType) : Scope :=
  ((Scope.bare type).withElement (v "row") (v "col")).withProduct (register "rC" (v "m") (v "n"))

/-- What a group does for one tile of the shared dimension. -/
def tileCode (t : Tiling) (problem : Problem) : Code :=
  Code.join [
    onlyIf t.record.stageLeft (fetchLeft t problem.lhs),
    onlyIf t.record.stageRight (fetchRight t problem.rhs),
    onlyIf t.record.staged (Code.ofSteps [.barrier]),
    (Walk.stepped "k" (.count t.record.kl.toNat) t.record.ks.toNat).around (advance t problem),
    onlyIf t.record.staged (Code.ofSteps [.barrier])]

/-- The code of the kernel, given the step that carries out the statement. -/
def body (t : Tiling) (type : NumericType) (problem : Problem) (store : Step) : Code :=
  Code.join [
    prologue t type,
    clear t.record (problem.reduce.neutral type),
    (Walk.stepped "k0" problem.lhs.logicalCols.term t.record.kl.toNat).around (tileCode t problem),
    finish t.record store]

/-! ### Acceptance -/

/-- What an operation that is accepted looks like: one statement, which stores into a matrix a value
with one product of two matrices whose shapes meet. -/
structure Accepted (op : Operation) (problem : Problem) (target : MatrixOperand) : Prop where
  single : op.statements = [problem.statement]
  stores : problem.statement.target = .matrix target
  product : problem.statement.value.products =
    [⟨.matrix problem.lhs, some (.matrix problem.rhs), problem.combine, problem.reduce⟩]
  inner : problem.lhs.logicalCols = problem.rhs.logicalRows
  rows : target.logicalRows = problem.lhs.logicalRows
  cols : target.logicalCols = problem.rhs.logicalCols

namespace Accepted

variable {op : Operation} {problem : Problem} {target : MatrixOperand}

theorem mem_statements (accepted : Accepted op problem target) : problem.statement ∈ op.statements :=
  accepted.single ▸ List.mem_cons_self

theorem mem_of_target (accepted : Accepted op problem target) : .matrix target ∈ op.nodes :=
  accepted.stores ▸ Operation.mem_nodes_target accepted.mem_statements

theorem mem_of_value (accepted : Accepted op problem target) {node : Expr}
    (member : node ∈ problem.statement.value.nodes) : node ∈ op.nodes :=
  Operation.mem_nodes_value accepted.mem_statements member

theorem mem_of_left (accepted : Accepted op problem target) : .matrix problem.lhs ∈ op.nodes :=
  accepted.mem_of_value (Expr.product_sub_nodes (accepted.product ▸ List.mem_cons_self)
    (Or.inl rfl) List.mem_cons_self)

theorem mem_of_right (accepted : Accepted op problem target) : .matrix problem.rhs ∈ op.nodes :=
  accepted.mem_of_value (Expr.product_sub_nodes (accepted.product ▸ List.mem_cons_self)
    (Or.inr rfl) List.mem_cons_self)

end Accepted

theorem operands_eq_ok_iff {kind : Operation.Kind} {p : Product} {lhs rhs : MatrixOperand} :
    Problem.operands kind p = .ok (lhs, rhs) ↔ p.lhs = .matrix lhs ∧ p.rhs = some (.matrix rhs) := by
  unfold Problem.operands
  split
  · next left right => simp [left, right]
  · next other => exact iff_of_false nofun fun both => other lhs rhs both.1 both.2

theorem checkShapes_eq_ok_iff {kind : Operation.Kind} {left right : Bool}
    {target lhs rhs : MatrixOperand} {u : Unit} :
    Problem.checkShapes kind left right target lhs rhs = .ok u ↔
      (lhs.transposed = left ∧ rhs.transposed = right) ∧ lhs.logicalCols = rhs.logicalRows ∧
        target.logicalRows = lhs.logicalRows ∧ target.logicalCols = rhs.logicalCols := by
  simp [Problem.checkShapes, bind_eq_ok_iff, require_eq_ok_iff]

/-- **What the parts of the statement ask for**: matrices that are read as the kernel is written for, of
shapes that meet. -/
theorem ofOperation_eq_ok_iff {left right : Bool} {op : Operation} {problem : Problem} :
    Problem.ofOperation left right op = .ok problem ↔
      (∃ target, Accepted op problem target) ∧ problem.lhs.transposed = left ∧
        problem.rhs.transposed = right := by
  constructor
  · intro ok
    unfold Problem.ofOperation at ok
    split at ok
    · next s single =>
      split at ok
      · next target isMatrix =>
        obtain ⟨product, found, ok⟩ := bind_eq_ok_iff.mp ok
        obtain ⟨⟨lhs, rhs⟩, taken, ok⟩ := bind_eq_ok_iff.mp ok
        obtain ⟨_, shapes, ok⟩ := bind_eq_ok_iff.mp ok
        cases ok
        obtain ⟨first, second⟩ := operands_eq_ok_iff.mp taken
        obtain ⟨read, inner, rows, cols⟩ := checkShapes_eq_ok_iff.mp shapes
        refine ⟨⟨target, single, isMatrix, ?_, inner, rows, cols⟩, read⟩
        rw [theProduct_eq_ok_iff.mp found, ← first, ← second]
      · cases ok
    · cases ok
  · rintro ⟨⟨target, accepted⟩, read⟩
    unfold Problem.ofOperation
    rw [accepted.single]
    simp only [accepted.stores, bind_eq_ok_iff, theProduct_eq_ok_iff]
    exact ⟨_, accepted.product, (problem.lhs, problem.rhs), operands_eq_ok_iff.mpr ⟨rfl, rfl⟩, (),
      checkShapes_eq_ok_iff.mpr ⟨read, accepted.inner, accepted.rows, accepted.cols⟩, rfl⟩

/-- **The program of an accepted operation**: a single kernel over the sizes of the record. -/
theorem generate_eq_ok {left right : Bool} {p : ProductTuning} {op : Operation} {program : Program}
    (ok : generate left right p op = .ok program) :
    ∃ problem target arguments store kernel, Accepted op problem target ∧
      collectArguments op 1 = .ok arguments ∧
      problem.statement.storeStep (resultScope op.numericType) = .ok store ∧
      program.kernels = [kernel] ∧ kernel.arguments = arguments ∧ kernel.scratchElements = 0 ∧
      kernel.geometry = .plane p.localSize0.toNat p.localSize1.toNat
        (.cover problem.lhs.logicalRows (p.localSize0.toNat * p.ms.toNat))
        (.cover problem.rhs.logicalCols (p.localSize1.toNat * p.ns.toNat)) ∧
      kernel.body = body (.of p op.numericType) op.numericType problem store := by
  obtain ⟨_, -, ok⟩ := bind_eq_ok_iff.mp ok
  obtain ⟨_, -, ok⟩ := bind_eq_ok_iff.mp ok
  obtain ⟨problem, parts, ok⟩ := bind_eq_ok_iff.mp ok
  obtain ⟨⟨ml, nl⟩, tile, ok⟩ := bind_eq_ok_iff.mp ok
  obtain ⟨arguments, collected, ok⟩ := bind_eq_ok_iff.mp ok
  obtain ⟨t, sizes, ok⟩ := bind_eq_ok_iff.mp ok
  obtain ⟨bytes, -, ok⟩ := bind_eq_ok_iff.mp ok
  obtain ⟨code, emitted, ok⟩ := bind_eq_ok_iff.mp ok
  cases ok
  obtain ⟨⟨target, accepted⟩, -⟩ := ofOperation_eq_ok_iff.mp parts
  obtain ⟨_, rowCount, tile⟩ := bind_eq_ok_iff.mp tile
  obtain ⟨_, colCount, tile⟩ := bind_eq_ok_iff.mp tile
  cases tile
  obtain ⟨_, leftRow, sizes⟩ := bind_eq_ok_iff.mp sizes
  obtain ⟨_, rightRow, sizes⟩ := bind_eq_ok_iff.mp sizes
  cases sizes
  obtain ⟨store, stored, emitted⟩ := bind_eq_ok_iff.mp emitted
  cases emitted
  obtain rfl := (Word.mul_eq_ok_iff.mp rowCount).2
  obtain rfl := (Word.mul_eq_ok_iff.mp colCount).2
  obtain rfl := (Word.add_eq_ok_iff.mp leftRow).2
  obtain rfl := (Word.add_eq_ok_iff.mp rightRow).2
  exact ⟨problem, target, arguments, store, _, accepted, accepted_eq_ok_iff.mp collected, stored,
    rfl, rfl, rfl, rfl, rfl⟩

end MatrixProduct

end TunedKernel
