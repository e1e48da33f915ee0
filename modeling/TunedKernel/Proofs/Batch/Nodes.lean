/-
**Where the parts of a statement stand among the nodes of its operation.**

* `Operation.mem_nodes_target`, `mem_nodes_value`, `mem_nodes_product` — targets, the nodes of values
  and the leaves of products are nodes of the operation.
* `Expr.mem_nodes_of_firstMatrix?`, `mem_nodes_of_firstVector?` — the first leaves of their kind.
* `Expr.leaf_cases`, `Expr.addressed_of_term`, `Product.addressed_of_term` — leaves are scalars, or vectors and
  matrices that are addressed where there is a term.
* `Expr.role?_of_place?` — a leaf that is kept in a buffer has the buffer's name; `exists_vector_of_place?`,
  `exists_matrix_of_place?` — in the buffer of a vector or matrix only such are kept.
-/

import TunedKernel.Generator.Arguments
import TunedKernel.Proofs.Batch.Terms
import TunedKernel.Proofs.Execution.Signature

namespace TunedKernel

namespace Operation

variable {op : Operation} {s : Statement}

theorem mem_nodes_target (member : s ∈ op.statements) : s.target ∈ op.nodes :=
  List.mem_append_left _ (List.mem_flatMap.mpr ⟨s, member, s.target.mem_nodes_self⟩)

theorem mem_nodes_value (member : s ∈ op.statements) {node : Expr} (inside : node ∈ s.value.nodes) :
    node ∈ op.nodes :=
  List.mem_append_right _ (List.mem_flatMap.mpr ⟨s, member, inside⟩)

theorem mem_nodes_product (member : s ∈ op.statements) {p : Product} {leaf : Expr}
    (single : p ∈ s.value.products) (inside : leaf ∈ p.leaves) : leaf ∈ op.nodes :=
  mem_nodes_value member (Product.leaves_sub_nodes single inside)

/-- The leaves that stand outside of products are nodes of the operation. -/
theorem mem_nodes_statement (member : s ∈ op.statements) {leaf : Expr}
    (inside : leaf ∈ s.target.leaves ++ s.value.leaves) : leaf ∈ op.nodes := by
  rcases List.mem_append.mp inside with target | value
  · exact List.mem_append_left _
      (List.mem_flatMap.mpr ⟨s, member, Expr.leaves_sub_nodes target⟩)
  · exact mem_nodes_value member (Expr.leaves_sub_nodes value)

end Operation

namespace Expr

theorem mem_nodes_of_firstMatrix? {x : Expr} {m : MatrixOperand} (found : x.firstMatrix? = some m) :
    .matrix m ∈ x.nodes := by
  obtain ⟨node, member, isMatrix⟩ := List.exists_of_findSome?_eq_some found
  cases node with
  | matrix other =>
    cases isMatrix
    exact member
  | _ => cases isMatrix

theorem mem_nodes_of_firstVector? {x : Expr} {v : VectorOperand} (found : x.firstVector? = some v) :
    .vector v ∈ x.nodes := by
  obtain ⟨node, member, isVector⟩ := List.exists_of_findSome?_eq_some found
  cases node with
  | vector other =>
    cases isVector
    exact member
  | _ => cases isVector

/-- The first vector of a product stands in one of its operands. -/
theorem mem_nodes_of_vector? {x : Expr} {p : Product} {v : VectorOperand} (single : p ∈ x.products)
    (found : p.vector? = some v) : .vector v ∈ x.nodes := by
  unfold Product.vector? at found
  cases left : p.lhs.firstVector? with
  | some w =>
    rw [left] at found
    cases found
    exact product_sub_nodes single (Or.inl rfl) (mem_nodes_of_firstVector? left)
  | none =>
    rw [left, Option.none_or] at found
    obtain ⟨rhs, right, first⟩ := Option.bind_eq_some_iff.mp found
    exact product_sub_nodes single (Or.inr right) (mem_nodes_of_firstVector? first)

/-- A leaf that is kept in a buffer has the buffer's name in a role. -/
theorem role?_of_place? {x : Expr} {bindings : Bindings} {point : Point} {buffer : String} {n : Nat}
    (stored : x.place? bindings point = some (.global buffer n)) :
    ∃ role, x.role? = some (role, buffer) := by
  cases x with
  | scalar s =>
    cases s with
    | device name =>
      cases stored
      exact ⟨_, rfl⟩
    | host name => cases stored
    | literal text => cases stored
  | vector v =>
    cases stored
    exact ⟨_, rfl⟩
  | matrix m =>
    cases stored
    exact ⟨_, rfl⟩
  | binary op lhs rhs => cases stored
  | unary func operand => cases stored
  | fold combine reduce lhs => cases stored
  | product combine reduce lhs rhs => cases stored

/-- A leaf is a scalar, a vector or a matrix. -/
theorem leaf_cases {x leaf : Expr} (inside : leaf ∈ x.leaves) :
    (∃ s, leaf = .scalar s) ∨ (∃ v, leaf = .vector v) ∨ ∃ m, leaf = .matrix m := by
  induction x with
  | scalar s => exact Or.inl ⟨s, List.mem_singleton.mp inside⟩
  | vector v => exact Or.inr (Or.inl ⟨v, List.mem_singleton.mp inside⟩)
  | matrix m => exact Or.inr (Or.inr ⟨m, List.mem_singleton.mp inside⟩)
  | binary op lhs rhs left right => exact (List.mem_append.mp inside).elim left right
  | unary func operand ih => exact ih inside
  | fold combine reduce lhs | product combine reduce lhs rhs => cases inside

/-- A leaf that is addressed is a scalar, a vector whose index is in scope, or a matrix whose row is. -/
theorem Addressed.cases {scope : Scope} {x leaf : Expr} (inside : leaf ∈ x.leaves)
    (addressed : leaf.Addressed scope) : (∃ s, leaf = .scalar s) ∨
      (∃ v, leaf = .vector v ∧ scope.index ≠ none) ∨ ∃ m, leaf = .matrix m ∧ scope.row ≠ none := by
  rcases leaf_cases inside with scalar | ⟨v, rfl⟩ | ⟨m, rfl⟩
  · exact Or.inl scalar
  · exact Or.inr (Or.inl ⟨v, rfl, addressed⟩)
  · exact Or.inr (Or.inr ⟨m, rfl, addressed.1⟩)

/-- The leaves of an expression that has a term are addressed. -/
theorem addressed_of_term {scope : Scope} {x : Expr} {t : Term} (ok : x.term scope = .ok t) :
    ∀ leaf ∈ x.leaves, (∃ s, leaf = .scalar s) ∨ (∃ v, leaf = .vector v ∧ scope.index ≠ none) ∨
      ∃ m, leaf = .matrix m ∧ scope.row ≠ none := fun leaf inside =>
  Addressed.cases inside ((exists_term_iff.mp ⟨t, ok⟩).2 leaf inside)

/-- Where no element of a vector or matrix is in scope, the leaves are scalars. -/
theorem exists_scalar_of_term {scope : Scope} (index : scope.index = none) (row : scope.row = none)
    {x : Expr} {t : Term} (ok : x.term scope = .ok t) :
    ∀ leaf ∈ x.leaves, ∃ s, leaf = .scalar s := fun leaf member =>
  (addressed_of_term ok leaf member).elim id fun other => other.elim
    (fun ⟨_, _, addressed⟩ => absurd index addressed) fun ⟨_, _, addressed⟩ => absurd row addressed

end Expr

/-- The same of the leaves of a product. -/
theorem Product.addressed_of_term {scope : Scope} {p : Product} {t : Term}
    (ok : p.term scope = .ok t) : ∀ leaf ∈ p.leaves, (∃ s, leaf = .scalar s) ∨
      (∃ v, leaf = .vector v ∧ scope.index ≠ none) ∨ ∃ m, leaf = .matrix m ∧ scope.row ≠ none := by
  intro leaf inside
  have addressed := (exists_term_iff.mp ⟨t, ok⟩).2 leaf inside
  rcases List.mem_append.mp inside with left | right
  · exact Expr.Addressed.cases left addressed
  · cases rhs : p.rhs with
    | none =>
      rw [rhs] at right
      cases right
    | some x =>
      rw [rhs] at right
      exact Expr.Addressed.cases (x := x) right addressed

/-! ### Buffers of vectors and matrices -/

variable {op : Operation} {width : Nat} {arguments : List Argument} {bindings : Bindings} {point : Point}
  {leaf : Expr} {n : Nat}

/-- In the buffer of a vector only vectors are kept. -/
theorem exists_vector_of_place? (collected : collectArguments op width = .ok arguments)
    {v : VectorOperand} (node : .vector v ∈ op.nodes) (inside : leaf ∈ op.nodes)
    (reads : leaf.place? bindings point = some (.global v.name n)) :
    ∃ w, leaf = .vector w ∧ w.name = v.name ∧ n = point.index := by
  obtain ⟨role, named⟩ := Expr.role?_of_place? reads
  obtain rfl := collectArguments_role collected inside node named rfl
  cases leaf with
  | scalar s => cases s <;> cases named
  | vector w =>
    obtain ⟨same, index⟩ := Place.global.inj (Option.some.inj reads)
    exact ⟨w, rfl, same, index.symm⟩
  | matrix a => cases named
  | binary op lhs rhs => cases named
  | unary func operand => cases named
  | fold combine reduce lhs => cases named
  | product combine reduce lhs rhs => cases named

end TunedKernel
