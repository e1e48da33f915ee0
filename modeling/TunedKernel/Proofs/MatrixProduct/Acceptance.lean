/-
**Which operations are matrix products.**

* `MatrixProduct.Multiplies`, `MatrixProduct.Takes` — the statements and the operations that matrix products
  are generated of.
* `MatrixProduct.exists_code_iff` — what the code of the kernel asks for; `never_refuses` — an operation that
  is taken is not refused for anything else.
* `productGenerator_accepts` — a program is there exactly if its numbers fit and the operation is taken, and
  every other operation is refused.
-/

import TunedKernel.Proofs.Generation.Verdicts
import TunedKernel.Proofs.MatrixProduct.Emission

namespace TunedKernel

namespace MatrixProduct

/-- A statement that stores, into a matrix, the value of an expression around a single product of two
matrices, which are read as they are or transposed and whose shapes meet. No vector is read. -/
structure Multiplies (left right : Bool) (s : Statement) (target lhs rhs : MatrixOperand) : Prop where
  stores : s.target = .matrix target
  single : s.value.nodes.countP Expr.isProduct = 1
  operands : ∀ product ∈ s.value.products, product.lhs = .matrix lhs ∧ product.rhs = some (.matrix rhs)
  left : lhs.transposed = left
  right : rhs.transposed = right
  inner : lhs.logicalCols = rhs.logicalRows
  rows : target.logicalRows = lhs.logicalRows
  cols : target.logicalCols = rhs.logicalCols
  vectors : ∀ node ∈ s.value.nodes, ∀ v, node ≠ .vector v

/-- The operations that matrix products are generated of: a single statement that multiplies matrices. -/
structure Takes (left right : Bool) (p : ProductTuning) (op : Operation) : Prop where
  width : p.simdWidth.toNat = 1
  statement : ∃ s target lhs rhs, op.statements = [s] ∧ Multiplies left right s target lhs rhs
  roles : op.OneRole

/-! ### The kernel -/

variable {left right : Bool} {op : Operation} {problem : Problem}

/-- **What the code asks for**: nothing but matrices and scalars in the target and around the product. -/
theorem exists_code_iff {t : Tiling} {type : NumericType} :
    (∃ body, code t type problem = .ok body) ↔
      ∀ leaf ∈ problem.statement.target.leaves ++ problem.statement.value.leaves,
        ∀ v, leaf ≠ .vector v := by
  unfold code
  simp only [exists_bind_eq_ok_iff, exists_pure_eq_ok, and_true, Statement.exists_storeStep_iff,
    Expr.exists_term_iff, Expr.addressed_iff, List.forall_mem_append]
  simp [Scope.bare, Scope.withElement, Scope.withProduct]

/-- An accepted statement multiplies matrices if these are read as the kernel is written for, and only
matrices and scalars stand around the product. -/
theorem Accepted.multiplies_iff {target : MatrixOperand} (accepted : Accepted op problem target) :
    Multiplies left right problem.statement target problem.lhs problem.rhs ↔
      (problem.lhs.transposed = left ∧ problem.rhs.transposed = right) ∧
        ∀ leaf ∈ problem.statement.target.leaves ++ problem.statement.value.leaves,
          ∀ v, leaf ≠ .vector v := by
  have vectors : (∀ node ∈ problem.statement.value.nodes, ∀ v, node ≠ .vector v) ↔
      ∀ leaf ∈ problem.statement.target.leaves ++ problem.statement.value.leaves,
        ∀ v, leaf ≠ .vector v := by
    rw [Expr.forall_nodes_iff (fun _ _ _ => nofun) (fun _ _ => nofun)
      (fun _ product v same => by subst same; cases product), accepted.product, accepted.stores]
    simp [Product.nodes, Expr.nodes, Expr.leaves]
  rw [← vectors]
  constructor
  · exact fun multiplies => ⟨⟨multiplies.left, multiplies.right⟩, multiplies.vectors⟩
  · rintro ⟨⟨left, right⟩, scalar⟩
    refine ⟨accepted.stores, Expr.countP_isProduct_eq_one_iff.mpr ⟨_, accepted.product, rfl⟩, ?_, left,
      right, accepted.inner, accepted.rows, accepted.cols, scalar⟩
    rw [accepted.product]
    exact List.forall_mem_singleton.mpr ⟨rfl, rfl⟩

/-- A statement that multiplies matrices is accepted. -/
theorem Multiplies.exists_accepted {s : Statement} {target lhs rhs : MatrixOperand}
    (multiplies : Multiplies left right s target lhs rhs) (single : op.statements = [s]) :
    ∃ combine reduce, Accepted op ⟨s, lhs, rhs, combine, reduce⟩ target := by
  obtain ⟨product, alone, -⟩ := Expr.countP_isProduct_eq_one_iff.mp multiplies.single
  obtain ⟨first, second⟩ := multiplies.operands product (alone ▸ List.mem_cons_self)
  obtain ⟨_, _, combine, reduce⟩ := product
  cases first
  cases second
  exact ⟨combine, reduce, single, multiplies.stores, alone, multiplies.inner, multiplies.rows,
    multiplies.cols⟩

/-! ### The program -/

variable {p : ProductTuning}

/-- A program is only made of an operation that is taken. -/
theorem takes_of_generate {program : Program} (ok : generate left right p op = .ok program) :
    Takes left right p op := by
  obtain ⟨_, -, ok⟩ := bind_eq_ok_iff.mp ok
  obtain ⟨_, scalar, ok⟩ := bind_eq_ok_iff.mp ok
  obtain ⟨problem, parts, ok⟩ := bind_eq_ok_iff.mp ok
  obtain ⟨⟨ml, nl⟩, -, ok⟩ := bind_eq_ok_iff.mp ok
  obtain ⟨arguments, collected, ok⟩ := bind_eq_ok_iff.mp ok
  obtain ⟨t, -, ok⟩ := bind_eq_ok_iff.mp ok
  obtain ⟨n, -, ok⟩ := bind_eq_ok_iff.mp ok
  obtain ⟨body, emitted, -⟩ := bind_eq_ok_iff.mp ok
  obtain ⟨⟨target, accepted⟩, read⟩ := ofOperation_eq_ok_iff.mp parts
  constructor
  case width => exact beq_iff_eq.mp (require_eq_ok_iff.mp scalar)
  case statement =>
    exact ⟨_, target, _, _, accepted.single,
      accepted.multiplies_iff.mpr ⟨read, exists_code_iff.mp ⟨body, emitted⟩⟩⟩
  case roles => exact exists_collectArguments_iff.mp ⟨arguments, accepted_eq_ok_iff.mp collected⟩

/-- An operation that is taken is not refused. -/
theorem never_refuses (takes : Takes left right p op) :
    Refuses (fun _ => False) (generate left right p op) := by
  obtain ⟨width, ⟨s, target, lhs, rhs, single, multiplies⟩, roles⟩ := takes
  obtain ⟨combine, reduce, accepted⟩ := multiplies.exists_accepted single
  obtain ⟨read, around⟩ := accepted.multiplies_iff.mp multiplies
  have some : requireStatements op = .ok () := by
    rw [requireStatements, single]
    rfl
  have scalar : requireScalarWidth (.matrixProduct left right) p.simdWidth.toNat = .ok () :=
    require_eq_ok_iff.mpr (beq_iff_eq.mpr width)
  have parts := ofOperation_eq_ok_iff.mpr ⟨⟨target, accepted⟩, read⟩
  obtain ⟨arguments, collected⟩ : ∃ arguments, collectArguments op 1 = .ok arguments :=
    exists_collectArguments_iff.mpr roles
  refine Fails.bind (.of_eq_ok some) fun _ _ => Fails.bind (.of_eq_ok scalar) fun _ _ =>
    Fails.bind (.of_eq_ok parts) fun _ same => ?_
  cases parts.symm.trans same
  refine Fails.bind (Tiling.fails_extents p) fun extents _ => ?_
  obtain ⟨ml, nl⟩ := extents
  refine Fails.bind (.accepted (.of_eq_ok collected)) fun _ _ =>
    Fails.bind (Tiling.fails_ofRecord p _ ml nl) fun t _ => Fails.bind (t.fails_bytes _) fun _ _ => ?_
  obtain ⟨body, emitted⟩ := (@exists_code_iff _ t op.numericType).mpr around
  exact Fails.bind (.of_eq_ok emitted) fun _ _ => .ok _

end MatrixProduct

/-- **Matrix products accept exactly their operations**: where the numbers fit, an operation that is taken
has a program, and every other one is refused. -/
theorem productGenerator_accepts (left right : Bool) (p : ProductTuning) (op : Operation) :
    Decides (MatrixProduct.generate left right p op) (p.Fits op.numericType.size)
      (MatrixProduct.Takes left right p op) :=
  have measured := MatrixProduct.measured_generate left right p op
  measured.decides (fun _ => MatrixProduct.takes_of_generate) fun fits takes =>
    (measured.exists_ok_iff (MatrixProduct.never_refuses takes)).mpr fits

end TunedKernel
