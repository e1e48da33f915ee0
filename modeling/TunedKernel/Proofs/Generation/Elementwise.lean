/-
**Which operations are element-wise statements.**

* `Expr.Plain` — an expression without products and without leaves of a kind; `Expr.plain_iff` — it is enough
  that the expression itself has no product, and no such leaf outside of products.
* `VectorStatements.Takes`, `MatrixStatements.Takes` — the operations that element-wise statements are
  generated of; `Takes.of_sub` — with an operation, some of its statements are taken.
* `VectorStatements.exists_program_iff`, `MatrixStatements.exists_program_iff` — there is a program exactly of
  these; `elementwiseGenerators_accept` — and every other operation is refused.
-/

import TunedKernel.Proofs.Generation.Verdicts
import TunedKernel.Proofs.MatrixStatements.Emission
import TunedKernel.Proofs.VectorStatements.Accesses

namespace TunedKernel

/-- An expression with no product and no foreign leaf at any depth. -/
def Expr.Plain (foreign : Expr → Prop) (x : Expr) : Prop :=
  ∀ node ∈ x.nodes, node.isProduct = false ∧ ¬foreign node

/-- **An expression is plain** if it has no products, and no foreign leaf outside of them. -/
theorem Expr.plain_iff {foreign : Expr → Prop} (binary : ∀ op lhs rhs, ¬foreign (.binary op lhs rhs))
    (unary : ∀ func operand, ¬foreign (.unary func operand)) (product : ∀ x, isProduct x = true → ¬foreign x)
    {x : Expr} : x.Plain foreign ↔ x.products = [] ∧ ∀ leaf ∈ x.leaves, ¬foreign leaf := by
  have products : (∀ node ∈ x.nodes, node.isProduct = false) ↔ x.products = [] := by
    rw [← countP_isProduct_eq_zero_iff, List.countP_eq_zero]
    simp only [Bool.not_eq_true]
  have leaves (none : x.products = []) : (∀ node ∈ x.nodes, ¬foreign node) ↔
      ∀ leaf ∈ x.leaves, ¬foreign leaf := by
    rw [forall_nodes_iff binary unary product, none]
    exact and_iff_left nofun
  unfold Plain
  rw [forall₂_and, products]
  exact and_congr_right leaves

/-! ### Vectors -/

namespace VectorStatements

variable {p : VectorTuning} {op op' : Operation}

/-- The operations that element-wise vector statements are generated of: every statement stores a value of
vectors and scalars into a vector of the size that all targets have, which the packed elements fill. -/
structure Takes (p : VectorTuning) (op : Operation) : Prop where
  nonempty : op.statements ≠ []
  width : p.simdWidth.toNat ∈ [1, 2, 4, 8, 16]
  targets : ∃ size, (∀ s ∈ op.statements, ∃ v, s.target = .vector v ∧ v.size = size) ∧
    ∀ n, size = .fixed n → p.simdWidth.toNat ∣ n.toNat
  values : ∀ s ∈ op.statements, s.value.Plain fun leaf => ∃ m, leaf = .matrix m
  roles : op.OneRole

/-- Some of the statements of an operation that is taken make one that is. -/
theorem Takes.of_sub (takes : Takes p op) (sub : op'.statements ⊆ op.statements)
    (nonempty : op'.statements ≠ []) : Takes p op' where
  nonempty := nonempty
  width := takes.width
  targets := by
    obtain ⟨size, sized, filled⟩ := takes.targets
    exact ⟨size, fun s member => sized s (sub member), filled⟩
  values s member := takes.values s (sub member)
  roles := takes.roles.of_sub sub

theorem plain_iff {x : Expr} : (x.Plain fun leaf => ∃ m, leaf = .matrix m) ↔
    x.products = [] ∧ ∀ leaf ∈ x.leaves, ∀ m, leaf ≠ .matrix m := by
  rw [Expr.plain_iff (fun _ _ _ => nofun) (fun _ _ => nofun)
    fun _ product ⟨m, same⟩ => by subst same; cases product]
  simp only [not_exists, ne_eq]

/-- **What the statements ask for**: a target that is a vector, and a value of vectors and scalars. -/
theorem exists_store_iff {type : NumericType} {s : Statement} (vector : ∃ v, s.target = .vector v) :
    (∃ step, s.storeStep ((Scope.bare type).withIndex (.name "i")) = .ok step) ↔
      s.value.Plain fun leaf => ∃ m, leaf = .matrix m := by
  obtain ⟨v, isVector⟩ := vector
  rw [plain_iff]
  simp only [Statement.exists_storeStep_iff, Expr.exists_term_iff, Expr.addressed_iff, isVector]
  simp [Scope.bare, Scope.withIndex, Expr.products, Expr.leaves]

/-- **There is a program exactly of the operations that are taken.** -/
theorem exists_program_iff : (∃ program, generate p op = .ok program) ↔ Takes p op := by
  have parts : (∃ program, generate p op = .ok program) ↔ ∃ size, commonSize op = .ok size ∧
      p.simdWidth.toNat ∈ [1, 2, 4, 8, 16] ∧ op.OneRole ∧
        (∀ n, size = .fixed n → p.simdWidth.toNat ∣ n.toNat) ∧
          ∀ s ∈ op.statements, ∃ step,
            s.storeStep ((Scope.bare op.numericType).withIndex (.name "i")) = .ok step := by
    unfold generate
    simp only [exists_bind_eq_ok_iff, exists_pure_eq_ok, and_true, exists_and_right, requirePacked,
      require_eq_ok_iff, NumericType.isVectorWidth_iff, accepted_eq_ok_iff, exists_collectArguments_iff,
      exists_packedBound_iff, exists_mapM_iff, exists_const]
  rw [parts]
  constructor
  · rintro ⟨size, common, width, roles, filled, stores⟩
    obtain ⟨nonempty, all⟩ := commonSize_eq_ok_iff.mp common
    refine ⟨nonempty, width, ⟨size, fun s member => (all s member).1, filled⟩, fun s member => ?_, roles⟩
    obtain ⟨⟨v, isVector, -⟩, -⟩ := all s member
    exact (exists_store_iff ⟨v, isVector⟩).mp (stores s member)
  · rintro ⟨nonempty, width, ⟨size, sized, filled⟩, values, roles⟩
    refine ⟨size, commonSize_eq_ok_iff.mpr ⟨nonempty, fun s member => ⟨sized s member, ?_⟩⟩, width, roles,
      filled, fun s member => ?_⟩
    · exact (plain_iff.mp (values s member)).1
    · obtain ⟨v, isVector, -⟩ := sized s member
      exact (exists_store_iff ⟨v, isVector⟩).mpr (values s member)

end VectorStatements

/-! ### Matrices -/

namespace MatrixStatements

variable {p : MatrixTuning} {op op' : Operation}

/-- The operations that element-wise matrix statements are generated of: every statement stores a value of
matrices and scalars into a matrix of the shape that all targets have. -/
structure Takes (p : MatrixTuning) (op : Operation) : Prop where
  nonempty : op.statements ≠ []
  width : p.simdWidth.toNat = 1
  targets : ∃ shape, ∀ s ∈ op.statements, ∃ m, s.target = .matrix m ∧
    (m.logicalRows, m.logicalCols) = shape
  values : ∀ s ∈ op.statements, s.value.Plain fun leaf => ∃ v, leaf = .vector v
  roles : op.OneRole

/-- Some of the statements of an operation that is taken make one that is. -/
theorem Takes.of_sub (takes : Takes p op) (sub : op'.statements ⊆ op.statements)
    (nonempty : op'.statements ≠ []) : Takes p op' where
  nonempty := nonempty
  width := takes.width
  targets := by
    obtain ⟨shape, shaped⟩ := takes.targets
    exact ⟨shape, fun s member => shaped s (sub member)⟩
  values s member := takes.values s (sub member)
  roles := takes.roles.of_sub sub

theorem plain_iff {x : Expr} : (x.Plain fun leaf => ∃ v, leaf = .vector v) ↔
    x.products = [] ∧ ∀ leaf ∈ x.leaves, ∀ v, leaf ≠ .vector v := by
  rw [Expr.plain_iff (fun _ _ _ => nofun) (fun _ _ => nofun)
    fun _ product ⟨v, same⟩ => by subst same; cases product]
  simp only [not_exists, ne_eq]

/-- **What the statements ask for**: a target that is a matrix, and a value of matrices and scalars. -/
theorem exists_store_iff {type : NumericType} {s : Statement} (matrix : ∃ m, s.target = .matrix m) :
    (∃ step, s.storeStep ((Scope.bare type).withElement (.name "row") (.name "col")) = .ok step) ↔
      s.value.Plain fun leaf => ∃ v, leaf = .vector v := by
  obtain ⟨m, isMatrix⟩ := matrix
  rw [plain_iff]
  simp only [Statement.exists_storeStep_iff, Expr.exists_term_iff, Expr.addressed_iff, isMatrix]
  simp [Scope.bare, Scope.withElement, Expr.products, Expr.leaves]

/-- **There is a program exactly of the operations that are taken.** -/
theorem exists_program_iff : (∃ program, generate p op = .ok program) ↔ Takes p op := by
  have parts : (∃ program, generate p op = .ok program) ↔ op.statements ≠ [] ∧ p.simdWidth.toNat = 1 ∧
      ∃ shape, commonShape op = .ok shape ∧ op.OneRole ∧ ∀ s ∈ op.statements, ∃ step,
        s.storeStep ((Scope.bare op.numericType).withElement (.name "row") (.name "col")) = .ok step := by
    unfold generate
    simp only [exists_bind_eq_ok_iff, exists_pure_eq_ok, and_true, exists_and_right,
      requireStatements_eq_ok_iff, requireScalarWidth, require_eq_ok_iff, beq_iff_eq, accepted_eq_ok_iff,
      exists_collectArguments_iff, exists_mapM_iff, exists_const, Prod.exists]
  rw [parts]
  constructor
  · rintro ⟨nonempty, width, shape, common, roles, stores⟩
    obtain ⟨-, all⟩ := commonShape_eq_ok_iff.mp common
    refine ⟨nonempty, width, ⟨shape, fun s member => (all s member).1⟩, fun s member => ?_, roles⟩
    obtain ⟨⟨m, isMatrix, -⟩, -⟩ := all s member
    exact (exists_store_iff ⟨m, isMatrix⟩).mp (stores s member)
  · rintro ⟨nonempty, width, ⟨shape, shaped⟩, values, roles⟩
    refine ⟨nonempty, width, shape, commonShape_eq_ok_iff.mpr
      ⟨nonempty, fun s member => ⟨shaped s member, ?_⟩⟩, roles, fun s member => ?_⟩
    · exact (plain_iff.mp (values s member)).1
    · obtain ⟨m, isMatrix, -⟩ := shaped s member
      exact (exists_store_iff ⟨m, isMatrix⟩).mpr (values s member)

end MatrixStatements

/-- **Element-wise generators accept exactly their operations**: an operation that is taken has a program,
under any record, and every other one is refused. -/
theorem elementwiseGenerators_accept (op : Operation) :
    (∀ p, Decides (VectorStatements.generate p op) True (VectorStatements.Takes p op)) ∧
      ∀ p, Decides (MatrixStatements.generate p op) True (MatrixStatements.Takes p op) := by
  constructor
  · exact fun p => (VectorStatements.measured_generate p op).decides
      (fun program ok => VectorStatements.exists_program_iff.mp ⟨program, ok⟩)
      fun _ takes => VectorStatements.exists_program_iff.mpr takes
  · exact fun p => (MatrixStatements.measured_generate p op).decides
      (fun program ok => MatrixStatements.exists_program_iff.mp ⟨program, ok⟩)
      fun _ takes => MatrixStatements.exists_program_iff.mpr takes

end TunedKernel
