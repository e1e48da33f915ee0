/-
**Which expressions have terms.**

* `Expr.isProduct`, `Product.nodes` — the products among the nodes, and the nodes of a product's operands.
* `Expr.countP_isProduct_eq_one_iff` — a value has one product node in all exactly if it has one product and
  no product stands in that.
* `Expr.exists_term_iff` — an expression has a term in a scope exactly if its leaves are addressed there, and
  its products stand for something.
* `Product.exists_term_iff`, `Statement.exists_storeStep_iff` — the same of the terms of products and of the
  steps of statements.
-/

import TunedKernel.Proofs.Batch.Statements

namespace TunedKernel

/-! ### Products among the nodes -/

/-- Whether a node is a product. -/
def Expr.isProduct : Expr → Bool
  | fold _ _ _ | product _ _ _ _ => true
  | scalar _ | vector _ | matrix _ | binary _ _ _ | unary _ _ => false

/-- There is no first matrix if no node is one. -/
theorem Expr.firstMatrix?_eq_none_iff {x : Expr} : x.firstMatrix? = none ↔ ∀ m, .matrix m ∉ x.nodes := by
  rw [firstMatrix?, List.findSome?_eq_none_iff]
  refine ⟨fun all m member => ?_, fun free node member => ?_⟩
  · cases all _ member
  · cases node with
    | matrix m => exact absurd member (free m)
    | _ => rfl

namespace Product

/-- All nodes of the operands in pre-order, the left operand before the right one. -/
def nodes (p : Product) : List Expr := p.lhs.nodes ++ p.rhs.elim [] Expr.nodes

/-- The products that stand in the operands. -/
def inner (p : Product) : List Product := p.lhs.products ++ p.rhs.elim [] Expr.products

theorem mem_nodes_of_leaves {p : Product} {leaf : Expr} (inside : leaf ∈ p.leaves) : leaf ∈ p.nodes := by
  rcases List.mem_append.mp inside with left | right
  · exact List.mem_append_left _ (Expr.leaves_sub_nodes left)
  · refine List.mem_append_right _ ?_
    cases rhs : p.rhs with
    | none =>
      rw [rhs] at right
      cases right
    | some x =>
      rw [rhs] at right
      exact Expr.leaves_sub_nodes right

/-- The first vector is the first one among the nodes. -/
theorem vector?_eq (p : Product) : p.vector? = p.nodes.findSome? Expr.vector? := by
  rw [nodes, List.findSome?_append, vector?]
  cases p.rhs <;> rfl

theorem rightMatrix?_eq_none_iff {p : Product} :
    p.rightMatrix? = none ↔ ∀ rhs, p.rhs = some rhs → ∀ m, .matrix m ∉ rhs.nodes := by
  simp only [rightMatrix?, Option.bind_eq_none_iff, Expr.firstMatrix?_eq_none_iff]

/-- No operand has a first matrix if no node is one. -/
theorem matrices_iff {p : Product} :
    p.matrix? = none ∧ p.rightMatrix? = none ↔ ∀ m, .matrix m ∉ p.nodes := by
  rw [rightMatrix?_eq_none_iff, matrix?, Expr.firstMatrix?_eq_none_iff, nodes]
  cases p.rhs <;> simp [forall_and]

end Product

namespace Expr

/-- The products among the nodes are those of the expression, and those that stand in one of these. -/
theorem countP_isProduct (x : Expr) : x.nodes.countP isProduct =
    x.products.length + (x.products.flatMap Product.nodes).countP isProduct := by
  induction x with
  | scalar s | vector v | matrix m => rfl
  | binary op lhs rhs left right =>
    rw [nodes, List.countP_cons_of_neg Bool.false_ne_true, List.countP_append, left, right, products,
      List.length_append, List.flatMap_append, List.countP_append]
    omega
  | unary func operand ih =>
    rw [nodes, List.countP_cons_of_neg Bool.false_ne_true, ih]
    rfl
  | fold combine reduce lhs =>
    rw [nodes, List.countP_cons_of_pos rfl, products, List.flatMap_singleton, Product.nodes,
      Option.elim_none, List.append_nil, List.length_singleton, Nat.add_comm]
  | product combine reduce lhs rhs =>
    rw [nodes, List.countP_cons_of_pos rfl, products, List.flatMap_singleton, List.length_singleton,
      Nat.add_comm]
    rfl

/-- An expression without products has none among its nodes. -/
theorem countP_isProduct_eq_zero_iff {x : Expr} : x.nodes.countP isProduct = 0 ↔ x.products = [] := by
  rw [countP_isProduct, Nat.add_eq_zero_iff, List.length_eq_zero_iff]
  refine and_iff_left_of_imp fun none => ?_
  rw [none]
  rfl

/-- What holds of every operator and every product holds of all nodes if it holds of the leaves, and of the
nodes of the products' operands. -/
theorem forall_nodes_iff {P : Expr → Prop} (binary : ∀ op lhs rhs, P (.binary op lhs rhs))
    (unary : ∀ func operand, P (.unary func operand)) (product : ∀ x : Expr, x.isProduct = true → P x)
    {x : Expr} : (∀ node ∈ x.nodes, P node) ↔
      (∀ leaf ∈ x.leaves, P leaf) ∧ ∀ p ∈ x.products, ∀ node ∈ p.nodes, P node := by
  induction x with
  | scalar s | vector v | matrix m => simp [nodes, leaves, products]
  | binary op lhs rhs left right =>
    rw [nodes, List.forall_mem_cons, and_iff_right (binary op lhs rhs), List.forall_mem_append, left, right,
      leaves, products, List.forall_mem_append, List.forall_mem_append, and_and_and_comm]
  | unary func operand ih =>
    rw [nodes, List.forall_mem_cons, and_iff_right (unary func operand), ih]
    rfl
  | fold combine reduce lhs =>
    rw [nodes, List.forall_mem_cons, and_iff_right (product _ rfl), leaves, products]
    simp [Product.nodes]
  | product combine reduce lhs rhs =>
    rw [nodes, List.forall_mem_cons, and_iff_right (product _ rfl), leaves, products]
    simp [Product.nodes]

end Expr

/-- No product stands in an operand if no node is one. -/
theorem Product.countP_isProduct_eq_zero_iff {p : Product} :
    p.nodes.countP Expr.isProduct = 0 ↔ p.inner = [] := by
  rw [nodes, inner, List.countP_append, Nat.add_eq_zero_iff, List.append_eq_nil_iff,
    Expr.countP_isProduct_eq_zero_iff]
  cases p.rhs with
  | none => exact and_congr_right' (iff_of_true rfl rfl)
  | some rhs => exact and_congr_right' Expr.countP_isProduct_eq_zero_iff

/-- **One product node in all**: there is one product, and no product stands in it. -/
theorem Expr.countP_isProduct_eq_one_iff {x : Expr} :
    x.nodes.countP isProduct = 1 ↔ ∃ p, x.products = [p] ∧ p.inner = [] := by
  rw [countP_isProduct]
  constructor
  · intro single
    cases found : x.products with
    | nil =>
      rw [found] at single
      cases single
    | cons p rest =>
      rw [found, List.length_cons, List.flatMap_cons, List.countP_append] at single
      obtain rfl : rest = [] := List.length_eq_zero_iff.mp (by omega)
      exact ⟨p, rfl, Product.countP_isProduct_eq_zero_iff.mp (by omega)⟩
  · rintro ⟨p, found, bare⟩
    rw [found, List.flatMap_singleton, Product.countP_isProduct_eq_zero_iff.mpr bare]
    rfl

/-! ### Terms -/

/-- A computation in two parts has a value when both of them do. -/
theorem exists_bind_eq_ok_iff {ε α β : Type} {first : Except ε α} {second : α → Except ε β} :
    (∃ b, first >>= second = .ok b) ↔ ∃ a, first = .ok a ∧ ∃ b, second a = .ok b := by
  simp only [bind_eq_ok_iff]
  rw [exists_comm]
  simp only [exists_and_left]

theorem exists_pure_eq_ok {ε α : Type} {a : α} : ∃ b, (pure a : Except ε α) = .ok b := ⟨a, rfl⟩

/-- A leaf that a scope addresses. -/
def Expr.Addressed (scope : Scope) : Expr → Prop
  | .vector _ => scope.index ≠ none
  | .matrix _ => scope.row ≠ none ∧ scope.col ≠ none
  | .scalar _ | .binary _ _ _ | .unary _ _ | .fold _ _ _ | .product _ _ _ _ => True

/-- A scope leaves vectors out without an index, and matrices without a row or a column. -/
theorem Expr.addressed_iff {scope : Scope} {x : Expr} : x.Addressed scope ↔
    (scope.index = none → ∀ v, x ≠ .vector v) ∧
      (scope.row = none ∨ scope.col = none → ∀ m, x ≠ .matrix m) := by
  cases x with
  | vector v => simp [Addressed]
  | matrix m => simp [Addressed, not_or]
  | scalar s | binary op lhs rhs | unary func operand | fold combine reduce lhs
  | product combine reduce lhs rhs => simp [Addressed]

/-- **An expression has a term** exactly if its leaves are addressed, and its products stand for
something. -/
theorem Expr.exists_term_iff {scope : Scope} {x : Expr} : (∃ t, x.term scope = .ok t) ↔
    (x.products = [] ∨ scope.product ≠ none) ∧ ∀ leaf ∈ x.leaves, leaf.Addressed scope := by
  induction x with
  | scalar s => simp [term, products, leaves, Addressed]
  | vector v =>
    rw [term, VectorOperand.term]
    cases index : scope.index <;> simp [products, leaves, Addressed, index]
  | matrix m =>
    rw [term, MatrixOperand.term]
    cases row : scope.row <;> cases col : scope.col <;> simp [products, leaves, Addressed, row, col]
  | binary op lhs rhs left right =>
    have both : (∃ t, (binary op lhs rhs).term scope = .ok t) ↔
        (∃ t, lhs.term scope = .ok t) ∧ ∃ t, rhs.term scope = .ok t := by
      rw [term]
      simp only [exists_bind_eq_ok_iff, exists_pure_eq_ok, and_true, exists_and_right]
    rw [both, left, right, and_and_and_comm, ← and_or_right, products, leaves, List.append_eq_nil_iff,
      List.forall_mem_append]
  | unary func operand ih =>
    rw [term]
    simp only [exists_bind_eq_ok_iff, exists_pure_eq_ok, and_true]
    exact ih
  | fold combine reduce lhs | product combine reduce lhs rhs =>
    rw [term, Scope.productTerm]
    cases scope.product <;> simp [products, leaves]

/-- **A product has a term** exactly if its leaves are addressed, and the products in it stand for
something. -/
theorem Product.exists_term_iff {scope : Scope} {p : Product} : (∃ t, p.term scope = .ok t) ↔
    (p.inner = [] ∨ scope.product ≠ none) ∧ ∀ leaf ∈ p.leaves, leaf.Addressed scope := by
  cases right : p.rhs with
  | none =>
    rw [inner, leaves, right, Option.elim_none, Option.elim_none, List.append_nil, List.append_nil,
      ← Expr.exists_term_iff, term, right]
    simp only [exists_bind_eq_ok_iff, exists_pure_eq_ok, and_true]
  | some rhs =>
    have both : (∃ t, p.term scope = .ok t) ↔
        (∃ t, p.lhs.term scope = .ok t) ∧ ∃ t, rhs.term scope = .ok t := by
      rw [term, right]
      simp only [exists_bind_eq_ok_iff, exists_pure_eq_ok, and_true, exists_and_right]
    rw [both, Expr.exists_term_iff, Expr.exists_term_iff, and_and_and_comm, ← and_or_right, inner, leaves,
      right, Option.elim_some, Option.elim_some, List.append_eq_nil_iff, List.forall_mem_append]

/-- A statement can be carried out exactly if its target and its value have terms. -/
theorem Statement.exists_storeStep_iff {scope : Scope} {s : Statement} :
    (∃ step, s.storeStep scope = .ok step) ↔
      (∃ t, s.target.term scope = .ok t) ∧ ∃ t, s.value.term scope = .ok t := by
  rw [storeStep]
  simp only [exists_bind_eq_ok_iff, exists_pure_eq_ok, and_true, exists_and_right, accepted_eq_ok_iff]

end TunedKernel
