/-
**Operands and statements in scope.**

* `Operation.Spelled` — the names of an operation are identifiers and its literals numerals;
  `Expr.Within` — the same of one node, with its names in scope.
* `Expr.scoped_term`, `Product.scoped_term`, `Statement.scoped_storeStep` — terms of nodes in scope, where
  what the code around them makes addressable is in scope.
* `Tree.scoped_code`, `Folded.scoped_publish` — the buffers of a batch, and what folds them.
-/

import TunedKernel.Generator.Accumulators
import TunedKernel.Proofs.Batch.Nodes
import TunedKernel.Proofs.Generation.LocalNames
import TunedKernel.Proofs.Source.Scoping

namespace TunedKernel

open TunedKernel.Text

/-! ### Spelling -/

/-- The names of operands and sizes are identifiers, and the literals are numerals. -/
structure Operation.Spelled (op : Operation) : Prop where
  names : ∀ x ∈ op.names, isWord x
  literals : ∀ text, .scalar (.literal text) ∈ op.nodes → Text.isNumeral text

variable {scope scope' : List String}

/-- An extent whose symbol is an identifier in scope. -/
def Extent.Within (scope : List String) (x : Extent) : Prop :=
  ∀ name ∈ x.symbol?, isWord name ∧ name ∈ scope

/-- A node whose names are identifiers in scope; a literal is a numeral. -/
structure Expr.Within (scope : List String) (node : Expr) : Prop where
  names : ∀ x ∈ node.names, isWord x ∧ x ∈ scope
  literal : ∀ text, node = .scalar (.literal text) → Text.isNumeral text

theorem Operation.Spelled.within {op : Operation} (spelled : op.Spelled) {node : Expr}
    (member : node ∈ op.nodes) (sub : op.names ⊆ scope) : node.Within scope where
  names x named :=
    have inside : x ∈ op.names := List.mem_flatMap.mpr ⟨node, member, named⟩
    ⟨spelled.names x inside, sub inside⟩
  literal text is := spelled.literals text (is ▸ member)

/-- An extent of a node in scope. -/
theorem Expr.Within.extent {node : Expr} (within : node.Within scope) {x : Extent}
    (member : x ∈ node.extents) : x.Within scope := fun name symbol =>
  within.names name (List.mem_append_right _ (List.mem_filterMap.mpr ⟨x, member, symbol⟩))

theorem Expr.Within.role {node : Expr} (within : node.Within scope) {role : Role} {name : String}
    (is : node.role? = some (role, name)) : (Term.name name).Scoped scope := by
  obtain ⟨word, member⟩ := within.names name (List.mem_append_left _ (by rw [is]; exact .head _))
  exact Term.scoped_name word member

theorem Extent.Within.scoped_term {x : Extent} (within : x.Within scope) : x.term.Scoped scope := by
  cases x with
  | fixed n => trivial
  | symbol name =>
    obtain ⟨word, member⟩ := within name rfl
    exact Term.scoped_name word member

theorem Extent.Within.scoped_packedBound {kind : Operation.Kind} {x : Extent} {width : Nat}
    {bound : Term} (within : x.Within scope) (ok : packedBound kind x width = .ok bound) :
    bound.Scoped scope := by
  unfold packedBound at ok
  split at ok
  · cases ok
    exact within.scoped_term
  · split at ok
    · split at ok
      · cases ok
        trivial
      · cases ok
    · cases ok
      exact ⟨within.scoped_term, trivial⟩

/-! ### Operators -/

theorem BinaryOp.scoped_apply (op : BinaryOp) {lhs rhs : Term} (left : lhs.Scoped scope)
    (right : rhs.Scoped scope) : (op.apply lhs rhs).Scoped scope := by
  cases op with
  | add | sub | mul | div => exact ⟨left, right⟩
  | max | min => exact ⟨by decide, left, right⟩

theorem UnaryFn.scoped_apply (func : UnaryFn) {operand : Term} (type : NumericType)
    (inner : operand.Scoped scope) : (func.apply operand type).Scoped scope := by
  cases func with
  | neg => exact inner
  | abs => exact ⟨by split <;> decide, inner⟩
  | sqrt | exp | log => exact ⟨by decide, inner⟩

theorem ReduceOp.scoped_combine (op : ReduceOp) {accumulated value : Term}
    (left : accumulated.Scoped scope) (right : value.Scoped scope) :
    (op.combine accumulated value).Scoped scope := by
  cases op with
  | add | mul => exact ⟨left, right⟩
  | max | min => exact ⟨by decide, left, right⟩

theorem ReduceOp.scoped_neutral (op : ReduceOp) (type : NumericType) :
    (op.neutral type).Scoped scope := by
  have constant {x : String} (known : x ∈ Term.constants) : (Term.name x).Scoped scope := by
    have word : ∀ x ∈ Term.constants, isWord x := by decide +kernel
    refine ⟨word x known, Or.inr ?_⟩
    simp only [builtins, builtinConstants, List.mem_append]
    exact Or.inr (Or.inr (Or.inl (List.mem_cons_of_mem _ known)))
  cases op with
  | add | mul => trivial
  | max =>
    cases type with
    | uint | ulong => trivial
    | int | long | float | double => exact constant (by decide)
  | min => cases type <;> exact constant (by decide)

/-! ### Expressions -/

/-- What the code around an expression makes addressable is in scope. -/
structure Scope.Within (scope : List String) (around : Scope) : Prop where
  index : ∀ t ∈ around.index, t.Scoped scope
  row : ∀ t ∈ around.row, t.Scoped scope
  col : ∀ t ∈ around.col, t.Scoped scope
  product : ∀ t ∈ around.product, t.Scoped scope

namespace Scope.Within

variable {around : Scope} {type : NumericType} {t row col : Term}

theorem bare : (Scope.bare type).Within scope := ⟨nofun, nofun, nofun, nofun⟩

theorem withIndex (within : around.Within scope) (inScope : t.Scoped scope) :
    (around.withIndex t).Within scope :=
  { within with index := fun _ same => Option.some.inj same ▸ inScope }

theorem withElement (within : around.Within scope) (first : row.Scoped scope)
    (second : col.Scoped scope) : (around.withElement row col).Within scope :=
  { within with
    row := fun _ same => Option.some.inj same ▸ first
    col := fun _ same => Option.some.inj same ▸ second }

theorem withProduct (within : around.Within scope) (inScope : t.Scoped scope) :
    (around.withProduct t).Within scope :=
  { within with product := fun _ same => Option.some.inj same ▸ inScope }

end Scope.Within

variable {around : Scope}

theorem MatrixOperand.scoped_element {m : MatrixOperand} {row col : Term}
    (within : (Expr.matrix m).Within scope) (first : row.Scoped scope) (second : col.Scoped scope) :
    (m.element row col).Scoped scope := by
  have rows := (within.extent (x := m.internalRows) (by simp [Expr.extents])).scoped_term
  have cols := (within.extent (x := m.internalCols) (by simp [Expr.extents])).scoped_term
  refine ⟨within.role rfl, ?_⟩
  unfold offset
  cases m.transposed <;> cases m.layout
  · exact ⟨⟨first, cols⟩, second⟩
  · exact ⟨first, second, rows⟩
  · exact ⟨⟨second, cols⟩, first⟩
  · exact ⟨second, first, rows⟩

/-- **The term of an expression whose nodes are in scope.** -/
theorem Expr.scoped_term (addressed : around.Within scope) {x : Expr} {t : Term}
    (within : ∀ node ∈ x.nodes, node.Within scope) (ok : x.term around = .ok t) : t.Scoped scope := by
  have productTerm {lhs : Expr} {value : Term} (ok : around.productTerm lhs = .ok value) :
      value.Scoped scope := by
    unfold Scope.productTerm at ok
    split at ok
    · next found =>
      cases ok
      exact addressed.product value found
    · cases ok
  induction x generalizing t with
  | scalar s =>
    cases ok
    have self := within _ List.mem_cons_self
    cases s with
    | host name => exact self.role rfl
    | device name => exact ⟨self.role rfl, trivial⟩
    | literal text => exact self.literal text rfl
  | vector v =>
    unfold term VectorOperand.term at ok
    split at ok
    · next index found =>
      cases ok
      exact ⟨(within _ List.mem_cons_self).role rfl, addressed.index index found⟩
    · cases ok
  | matrix m =>
    unfold term MatrixOperand.term at ok
    split at ok
    · next row col first second =>
      cases ok
      exact MatrixOperand.scoped_element (within _ List.mem_cons_self) (addressed.row row first)
        (addressed.col col second)
    · cases ok
  | binary op lhs rhs left right =>
    obtain ⟨s, first, ok⟩ := bind_eq_ok_iff.mp ok
    obtain ⟨u, second, ok⟩ := bind_eq_ok_iff.mp ok
    cases ok
    simp only [nodes, List.forall_mem_cons, List.forall_mem_append] at within
    exact op.scoped_apply (left within.2.1 first) (right within.2.2 second)
  | unary func operand ih =>
    obtain ⟨s, first, ok⟩ := bind_eq_ok_iff.mp ok
    cases ok
    simp only [nodes, List.forall_mem_cons] at within
    exact func.scoped_apply _ (ih within.2 first)
  | fold combine reduce lhs => exact productTerm ok
  | product combine reduce lhs rhs => exact productTerm ok

/-- One term of a product whose nodes are in scope. -/
theorem Product.scoped_term (addressed : around.Within scope) {p : Product} {t : Term}
    (left : ∀ node ∈ p.lhs.nodes, node.Within scope)
    (right : ∀ rhs ∈ p.rhs, ∀ node ∈ rhs.nodes, node.Within scope) (ok : p.term around = .ok t) :
    t.Scoped scope := by
  obtain ⟨s, first, ok⟩ := bind_eq_ok_iff.mp ok
  have lhs := Expr.scoped_term addressed left first
  split at ok
  · next rhs found =>
    obtain ⟨u, second, ok⟩ := bind_eq_ok_iff.mp ok
    cases ok
    exact p.combine.scoped_apply lhs (Expr.scoped_term addressed (right rhs found) second)
  · cases ok
    exact lhs

variable {op : Operation} {s : Statement} {store : Step}

/-- The step that carries out a statement of a spelled operation. -/
theorem Statement.scoped_storeStep (spelled : op.Spelled) (member : s ∈ op.statements)
    (sub : op.names ⊆ scope) (addressed : around.Within scope) (ok : s.storeStep around = .ok store) :
    store.Scoped scope ∧ store.declared? = none := by
  obtain ⟨target, value, first, second, rfl⟩ := storeStep_eq_ok ok
  have targets : ∀ node ∈ s.target.nodes, node.Within scope := fun node inside =>
    spelled.within (List.mem_append_left _ (List.mem_flatMap.mpr ⟨s, member, inside⟩)) sub
  have values : ∀ node ∈ s.value.nodes, node.Within scope := fun node inside =>
    spelled.within (Operation.mem_nodes_value member inside) sub
  exact ⟨⟨Expr.scoped_term addressed targets first, Expr.scoped_term addressed values second⟩, rfl⟩

/-- The term of a product of a spelled operation. -/
theorem Product.scoped_term_of_mem (spelled : op.Spelled) (member : s ∈ op.statements)
    (sub : op.names ⊆ scope) (addressed : around.Within scope) {p : Product}
    (inside : p ∈ s.value.products) {t : Term} (ok : p.term around = .ok t) : t.Scoped scope := by
  have within {operand : Expr} (is : p.lhs = operand ∨ p.rhs = some operand) :
      ∀ node ∈ operand.nodes, node.Within scope := fun node found =>
    spelled.within (Operation.mem_nodes_value member (Expr.product_sub_nodes inside is found)) sub
  exact p.scoped_term addressed (within (Or.inl rfl)) (fun rhs found => within (Or.inr found)) ok

/-! ### Buffers -/

/-- An array whose name is an identifier in scope. -/
theorem LocalMemory.scoped_access {memory : LocalMemory} (word : isWord memory.name)
    (member : memory.name ∈ scope) {subscripts : List Term}
    (each : ∀ t ∈ subscripts, t.Scoped scope) : (memory.access subscripts).Scoped scope := by
  have go (array : Term) (base : array.Scoped scope) : (Term.element array subscripts).Scoped scope := by
    unfold Term.element
    induction subscripts generalizing array with
    | nil => exact base
    | cons t rest ih =>
      rw [List.forall_mem_cons] at each
      exact ih each.2 _ ⟨base, each.1⟩
  exact go _ (Term.scoped_name word member)

/-- The code that folds buffers in scope. -/
theorem Tree.scoped_code {ε : Type} {buffers : Buffers} {before : List Term} {lane : Term}
    {extent : Nat} {code : Code} (ok : Tree.code (ε := ε) buffers before lane extent = .ok code)
    (named : ∀ buffer ∈ buffers, isWord buffer.1.name ∧ buffer.1.name ∈ scope)
    (rows : ∀ t ∈ before, t.Scoped scope) (number : lane.Scoped scope) :
    code.Scoped scope ∧ code.declared = [] := by
  obtain ⟨strides, -, staged⟩ := bind_eq_ok_iff.mp ok
  cases staged
  have stage (stride : Nat) : (stage buffers before lane extent stride).Scoped scope := by
    refine ⟨trivial, .ofGuard ?_ (.ofSteps fun s member => ?_)⟩
    · unfold active
      split
      · exact ⟨number, trivial⟩
      · exact ⟨⟨number, trivial⟩, ⟨number, trivial⟩, trivial⟩
    · obtain ⟨buffer, inside, rfl⟩ := List.mem_map.mp member
      obtain ⟨word, known⟩ := named buffer inside
      have access {t : Term} (last : t.Scoped scope) :
          (buffer.1.access (before ++ [t])).Scoped scope :=
        LocalMemory.scoped_access word known
          (List.forall_mem_append.mpr ⟨rows, List.forall_mem_singleton.mpr last⟩)
      exact ⟨access number, buffer.2.scoped_combine (access number) (access ⟨number, trivial⟩)⟩
  clear ok
  unfold stages
  induction strides with
  | nil => exact ⟨trivial, rfl⟩
  | cons stride rest ih => exact ⟨(stage stride).append ih.1, ih.2⟩

theorem isWord_append_toString {stem : String} (word : isWord stem) (n : Nat) :
    isWord (stem ++ toString n) := by
  have digits : (toString n).toList.all isWordChar := by
    rw [show (toString n).toList = Nat.toDigits 10 n from Nat.toList_repr, List.all_eq_true]
    intro c member
    rw [isWordChar, Nat.isDigit_of_mem_toDigits (by decide) (by decide) member, Bool.or_true]
  unfold isWord at word ⊢
  rw [String.toList_append]
  cases chars : stem.toList with
  | nil => simp [chars] at word
  | cons first rest =>
    rw [chars, Bool.and_eq_true] at word
    rw [List.cons_append, Bool.and_eq_true, List.all_append, word.2, digits]
    exact ⟨word.1, rfl⟩

namespace Folded

variable (f : Folded) (type : NumericType)

theorem isWord_sumName : isWord f.sumName := isWord_append_toString (by decide) _

theorem isWord_buffer (dims : List Nat) : isWord (f.buffer type dims).name :=
  isWord_append_toString (by decide) _

theorem scoped_declareSum : (f.declareSum type).Scoped scope :=
  ⟨rfl, f.isWord_sumName, f.product.reduce.scoped_neutral type⟩

variable {f type}

theorem scoped_sum (member : f.sumName ∈ scope) : f.sum.Scoped scope :=
  Term.scoped_name f.isWord_sumName member

theorem scoped_accumulate {into value : Term} (first : into.Scoped scope)
    (second : value.Scoped scope) : (f.accumulate into value).Scoped scope :=
  ⟨first, f.product.reduce.scoped_combine first second⟩

theorem scoped_publish {dims : List Nat} {slot : List Term}
    (member : (f.buffer type dims).name ∈ scope) (sum : f.sumName ∈ scope)
    (each : ∀ t ∈ slot, t.Scoped scope) : (f.publish (f.buffer type dims) slot).Scoped scope :=
  ⟨LocalMemory.scoped_access (f.isWord_buffer type dims) member each, scoped_sum sum⟩

end Folded

end TunedKernel
