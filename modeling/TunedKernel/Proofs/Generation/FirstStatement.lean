/-
**Classification and generation agree on the first statement.**

The first statement of an operation decides which kernels are generated, and the generators take it
apart once more, by their own checks.

* `Statement.Needs` — what a statement is like that needs kernels of a kind; `Operation.statementKind`
  finds the kind of such a statement only.
* `ShapeReason`, `Misfit` — the words in which the product of the first statement may be refused, and
  those that say the product is one for other kernels.
* `Refusal.Fits` — a refusal that never says of the first statement that it is of another kind.
* `generateWith_fits` — the kernels of a kind refuse operations of the kind with such refusals only.
* `Database.generate_fits` — and so does generation for any device.
-/

import TunedKernel.Proofs.Batch.Acceptance
import TunedKernel.Proofs.Generation.Dispatch
import TunedKernel.Proofs.Generation.Refusals
import TunedKernel.Proofs.MatrixProduct.Emission

namespace TunedKernel

open Refusal (Silent About)

/-! ### The kind of a statement -/

/-- What a statement is like that needs kernels of a kind. Its value may have further products after
the first one. -/
def Statement.Needs (s : Statement) : Operation.Kind → Prop
  | .vectorStatements => (∃ v, s.target = .vector v) ∧ s.value.products = []
  | .matrixStatements => (∃ m, s.target = .matrix m) ∧ s.value.products = []
  | .reduction => (∃ x, s.target = .scalar x) ∧ ∃ p rest, s.value.products = p :: rest
  | .rowReduction transposed => (∃ v, s.target = .vector v) ∧ ∃ p rest m,
      s.value.products = p :: rest ∧ p.matrix? = some m ∧ m.transposed = transposed
  | .matrixVector transposed => (∃ v, s.target = .vector v) ∧ ∃ p rest m,
      s.value.products = p :: rest ∧ p.matrix? = some m ∧ m.transposed = transposed ∧
        p.isPlain = true ∧ p.rhs.isSome = true
  | .matrixProduct left right => (∃ m, s.target = .matrix m) ∧ ∃ p rest lhs rhs,
      s.value.products = p :: rest ∧ p.matrix? = some lhs ∧ p.rightMatrix? = some rhs ∧
        lhs.transposed = left ∧ rhs.transposed = right

/-- A statement of a kind needs kernels of that kind. -/
theorem Operation.statementKind_eq_ok {s : Statement} {kind : Kind}
    (classified : statementKind s = .ok kind) : s.Needs kind := by
  unfold statementKind at classified
  split at classified
  · next x p rest target products =>
    cases classified
    exact ⟨⟨x, target⟩, p, rest, products⟩
  · next v target products =>
    cases classified
    exact ⟨⟨v, target⟩, products⟩
  · next m target products =>
    cases classified
    exact ⟨⟨m, target⟩, products⟩
  · next v p rest target products =>
    unfold rowKind at classified
    split at classified
    · cases classified
    · next m matrix =>
      split at classified
      · next plain =>
        cases classified
        rw [Bool.and_eq_true] at plain
        exact ⟨⟨v, target⟩, p, rest, m, products, matrix, rfl, plain⟩
      · cases classified
        exact ⟨⟨v, target⟩, p, rest, m, products, matrix, rfl⟩
  · next m p rest target products =>
    unfold matrixKind at classified
    split at classified
    · next lhs rhs left right =>
      cases classified
      exact ⟨⟨m, target⟩, p, rest, lhs, rhs, products, left, right, rfl, rfl⟩
    · cases classified
  · cases classified

/-! ### What may be said of the first statement -/

/-- The words in which kernels of a kind may refuse the product of the first statement. -/
def ShapeReason : Operation.Kind → String → Prop
  | .vectorStatements, _ | .matrixStatements, _ => False
  | .reduction, reason => reason = "reductions take vector operands only" ∨
      reason = "the product has no vector operand"
  | .rowReduction _, reason | .matrixVector _, reason =>
      reason = "the right operand must be a vector expression"
  | .matrixProduct _ _, reason => reason = "both operands must be matrices" ∨
      (∃ cols rows : Extent, reason = s!"inner extents differ (`{cols.text}` against `{rows.text}`)") ∨
      ∃ (name : String) (rows cols : Extent), reason = s!"`{name}` is not {rows.text} x {cols.text}"

/-- The words that say a product is one for other kernels: it is read with another transposition, its
left operand has no matrix, or it is no matrix-vector product at all. -/
def Misfit : Operation.Kind → String → Prop
  | .vectorStatements, _ | .matrixStatements, _ | .reduction, _ => False
  | .rowReduction _, reason => reason = "the left operand must be matrix-valued" ∨
      ∃ name : String, reason = s!"`{name}` is transposed" ∨ reason = s!"`{name}` is not transposed"
  | .matrixVector _, reason => reason = "the left operand must be matrix-valued" ∨
      (∃ name : String, reason = s!"`{name}` is transposed" ∨ reason = s!"`{name}` is not transposed") ∨
      reason = "matrix-vector kernels need `combine = mul` and `reduce = add`" ∨
      reason = "the product has no vector operand"
  | .matrixProduct _ _, reason => ∃ kind : Operation.Kind,
      reason = s!"operand transposition does not match a {kind.text} kernel"

/-- None of the former words are among the latter. -/
theorem ShapeReason.not_misfit {kind : Operation.Kind} {reason : String}
    (allowed : ShapeReason kind reason) : ¬Misfit kind reason := by
  -- The texts differ in their first characters, whatever the names in them are.
  have differ {s t : String} (other : s.toList.head? ≠ t.toList.head?) : s ≠ t :=
    fun same => other (congrArg (·.toList.head?) same)
  cases kind with
  | vectorStatements => exact id
  | matrixStatements => exact id
  | reduction => exact id
  | rowReduction transposed =>
    cases allowed
    rintro (same | ⟨name, same | same⟩)
    · exact absurd same (by decide)
    · exact differ (by simp [toString]) same
    · exact differ (by simp [toString]) same
  | matrixVector transposed =>
    cases allowed
    rintro (same | ⟨name, same | same⟩ | same | same)
    · exact absurd same (by decide)
    · exact differ (by simp [toString]) same
    · exact differ (by simp [toString]) same
    · exact absurd same (by decide)
    · exact absurd same (by decide)
  | matrixProduct left right =>
    rintro ⟨kind, rfl⟩
    rcases allowed with same | ⟨cols, rows, same⟩ | ⟨name, rows, cols, same⟩
    · exact differ (by simp [toString]) same
    · exact differ (by simp [toString]) same
    · exact differ (by simp [toString]) same

/-- A refusal of an operation of a kind with this first statement. It may find further products in the
first statement, a scalar that no buffer holds in its target, and operands that the kernels of the
kind cannot take; it never says that the statement is of another kind. -/
def Refusal.Fits (kind : Operation.Kind) (s : Statement) : Refusal → Prop
  | .unexpectedProduct _ 0 => False
  | .productCount kind' 0 found => kind' = kind ∧ 2 ≤ found
  | .targetRole kind' 0 _ _ => kind' = kind ∧ kind = .reduction ∧
      ((∃ name, s.target = .scalar (.host name)) ∨ ∃ value, s.target = .scalar (.literal value))
  | .productShape kind' 0 reason => kind' = kind ∧ ShapeReason kind reason
  | _ => True

/-- A refusal about a later statement fits. -/
theorem Refusal.About.fits {kind : Operation.Kind} {s : Statement} {r : Refusal} {n : Nat}
    (about : r.About n) (later : n ≠ 0) : r.Fits kind s := by
  unfold Fits
  split <;> first | exact absurd (about 0 rfl).symm later | trivial

theorem Refusal.Silent.fits {kind : Operation.Kind} {s : Statement} (r : Refusal)
    (silent : r.Silent) : r.Fits kind s := (silent.about 1).fits Nat.one_ne_zero

/-! ### Checks of one statement -/

section Checks

variable {kind : Operation.Kind} {n : Nat} {s : Statement}

theorem about_theProduct : Refuses (About n) (theProduct kind n s) := by
  unfold theProduct
  split
  · exact .ok _
  · exact .refuse (Refusal.about_of_eq rfl)

/-- The value of a statement with products has a single one, or more than one. -/
theorem fits_theProduct {p : Product} {rest : List Product} (products : s.value.products = p :: rest) :
    Refuses (Refusal.Fits kind s) (theProduct kind 0 s) := by
  unfold theProduct
  rw [products]
  cases rest with
  | nil => exact .ok _
  | cons p' rest => exact .refuse ⟨rfl, by simp⟩

theorem eq_of_theProduct {p p' : Product} {rest : List Product}
    (products : s.value.products = p :: rest) (found : theProduct kind n s = .ok p') : p' = p := by
  have single := theProduct_eq_ok_iff.mp found
  rw [products] at single
  cases single
  rfl

theorem about_agree {α : Type} [DecidableEq α] (describe : α → α → String) (shape : Option α)
    (next : α) : Refuses (About n) (agree describe shape next) :=
  (refuses_agree describe shape next).weaken fun _ silent => silent.about n

theorem fits_agree {α : Type} [DecidableEq α] (describe : α → α → String) (shape : Option α)
    (next : α) : Refuses (Refusal.Fits kind s) (agree describe shape next) :=
  (refuses_agree describe shape next).weaken Silent.fits

/-- The check of a statement whose value has to be without products. -/
theorem about_elementwise {α : Type} [DecidableEq α] (describe : α → α → String) (shape : Option α)
    (next : α) :
    Refuses (About n) (forbidProducts kind n s >>= fun _ => agree describe shape next) :=
  Fails.bind (.require fun _ => Refusal.about_of_eq rfl) fun _ _ => about_agree describe shape next

theorem fits_elementwise {α : Type} [DecidableEq α] (none : s.value.products = [])
    (describe : α → α → String) (shape : Option α) (next : α) :
    Refuses (Refusal.Fits kind s)
      (forbidProducts kind 0 s >>= fun _ => agree describe shape next) := by
  refine Fails.bind (.require fun some => ?_) fun _ _ => fits_agree describe shape next
  rw [none] at some
  cases some

end Checks

theorem VectorStatements.about_checkStatement (size : Option Extent) (s : Statement) (n : Nat) :
    Refuses (About n) (checkStatement size (s, n)) := by
  unfold checkStatement
  split
  · exact about_elementwise _ _ _
  · exact .refuse (Refusal.about_of_eq rfl)

theorem VectorStatements.fits_checkStatement {s : Statement} (needs : s.Needs kind)
    (size : Option Extent) : Refuses (Refusal.Fits kind s) (checkStatement size (s, 0)) := by
  obtain ⟨⟨v, target⟩, none⟩ := needs
  simp only [checkStatement, target]
  exact fits_elementwise none _ _ _

theorem MatrixStatements.about_checkStatement (shape : Option (Extent × Extent)) (s : Statement)
    (n : Nat) : Refuses (About n) (checkStatement shape (s, n)) := by
  unfold checkStatement
  split
  · exact about_elementwise _ _ _
  · exact .refuse (Refusal.about_of_eq rfl)

theorem MatrixStatements.fits_checkStatement {s : Statement} (needs : s.Needs kind)
    (shape : Option (Extent × Extent)) :
    Refuses (Refusal.Fits kind s) (checkStatement shape (s, 0)) := by
  obtain ⟨⟨m, target⟩, none⟩ := needs
  simp only [checkStatement, target]
  exact fits_elementwise none _ _ _

theorem Reduction.about_checkStatement (state : List Folded × Option Extent) (s : Statement)
    (n : Nat) : Refuses (About n) (checkStatement state (s, n)) := by
  have extent (p : Product) : Refuses (About n) (productExtent n p) := by
    unfold productExtent
    split
    · exact .refuse (Refusal.about_of_eq rfl)
    · split
      · exact .ok _
      · exact .refuse (Refusal.about_of_eq rfl)
  unfold checkStatement
  split
  · exact Fails.bind about_theProduct fun p _ => Fails.bind (extent p) fun _ _ =>
      Fails.bind (about_agree _ _ _) fun _ _ => .ok _
  · exact .refuse (Refusal.about_of_eq rfl)

theorem Reduction.fits_checkStatement {s : Statement} (needs : s.Needs kind)
    (state : List Folded × Option Extent) :
    Refuses (Refusal.Fits kind s) (checkStatement state (s, 0)) := by
  obtain ⟨⟨x, target⟩, p, rest, products⟩ := needs
  have extent (p : Product) : Refuses (Refusal.Fits kind s) (productExtent 0 p) := by
    unfold productExtent
    split
    · exact .refuse ⟨rfl, .inl rfl⟩
    · split
      · exact .ok _
      · exact .refuse ⟨rfl, .inr rfl⟩
  cases x with
  | host name =>
    simp only [checkStatement, target]
    exact .refuse ⟨rfl, rfl, .inl ⟨name, target⟩⟩
  | literal value =>
    simp only [checkStatement, target]
    exact .refuse ⟨rfl, rfl, .inr ⟨value, target⟩⟩
  | device name =>
    simp only [checkStatement, target]
    exact Fails.bind (fits_theProduct products) fun p _ => Fails.bind (extent p) fun _ _ =>
      Fails.bind (fits_agree _ _ _) fun _ _ => .ok _

/-- A further demand of row kernels refuses products of the statement that it is asked about. -/
theorem RowReduction.about_checkStatement {kind : Operation.Kind} {transposed : Bool}
    {demand : Demand} (about : ∀ n p, Refuses (About n) (demand n p))
    (state : List Folded × Option (Extent × Extent)) (s : Statement) (n : Nat) :
    Refuses (About n) (checkStatement kind transposed demand state (s, n)) := by
  have matrix (p : Product) : Refuses (About n) (productMatrix kind transposed n p) := by
    unfold productMatrix
    split
    · exact .refuse (Refusal.about_of_eq rfl)
    · split
      · exact .refuse (Refusal.about_of_eq rfl)
      · split
        · exact .ok _
        · exact .refuse (Refusal.about_of_eq rfl)
  unfold checkStatement
  split
  · exact Fails.bind about_theProduct fun p _ => Fails.bind (matrix p) fun _ _ =>
      Fails.bind (about n p) fun _ _ =>
      Fails.bind (about_agree _ _ _) fun _ _ => .ok _
  · exact .refuse (Refusal.about_of_eq rfl)

/-- Row kernels that find the matrix of the first product as they are written for, and whose further
demand it meets. -/
theorem RowReduction.fits_checkStatement {kind : Operation.Kind} {transposed : Bool}
    {demand : Demand} {s : Statement} {p : Product} {rest : List Product} {m : MatrixOperand}
    (target : ∃ v, s.target = .vector v) (products : s.value.products = p :: rest)
    (matrix : p.matrix? = some m) (read : m.transposed = transposed) (met : demand 0 p = .ok ())
    (words : ShapeReason kind "the right operand must be a vector expression")
    (state : List Folded × Option (Extent × Extent)) :
    Refuses (Refusal.Fits kind s) (checkStatement kind transposed demand state (s, 0)) := by
  obtain ⟨v, target⟩ := target
  simp only [checkStatement, target]
  refine Fails.bind (fits_theProduct products) fun p' found => ?_
  cases eq_of_theProduct products found
  refine Fails.bind ?_ fun _ _ => Fails.bind (met ▸ .ok _) fun _ _ =>
    Fails.bind (fits_agree _ _ _) fun _ _ => .ok _
  simp only [productMatrix, matrix, read]
  split
  · exact .refuse ⟨rfl, words⟩
  · exact .ok _

theorem MatrixProduct.fits_ofOperation {left right : Bool} {op : Operation} {s : Statement}
    {rest : List Statement} (statements : op.statements = s :: rest)
    (needs : s.Needs (.matrixProduct left right)) :
    Refuses (Refusal.Fits (.matrixProduct left right) s) (Problem.ofOperation left right op) := by
  obtain ⟨⟨m, target⟩, p, others, lhs, rhs, products, leftMatrix, rightMatrix, rfl, rfl⟩ := needs
  cases rest with
  | cons s' rest =>
    simp only [Problem.ofOperation, statements]
    exact .refuse trivial
  | nil =>
    simp only [Problem.ofOperation, statements, target]
    refine Fails.bind (fits_theProduct products) fun p' found => ?_
    cases eq_of_theProduct products found
    refine Fails.bind ?_ fun (a, b) operands => ?_
    · unfold Problem.operands
      split
      · exact .ok _
      · exact .refuse ⟨rfl, .inl rfl⟩
    · obtain ⟨first, second⟩ := operands_eq_ok_iff.mp operands
      rw [Product.matrix?, first] at leftMatrix
      rw [Product.rightMatrix?, second] at rightMatrix
      cases leftMatrix
      cases rightMatrix
      refine Fails.bind ?_ fun _ _ => .ok _
      refine Fails.bind (.require fun other => ?_) fun _ _ =>
        Fails.bind (.require fun _ => ⟨rfl, .inr (.inl ⟨_, _, rfl⟩)⟩) fun _ _ =>
        .require fun _ => ⟨rfl, .inr (.inr ⟨_, _, _, rfl⟩)⟩
      simp at other

/-! ### Checks of all statements -/

/-- A check of all statements, one after the other, refuses the first one as its own check does, and is
otherwise about later ones. -/
theorem fits_foldlM {β : Type} {kind : Operation.Kind} {f : β → Statement × Nat → Generated β}
    {s : Statement} {rest : List Statement} {start : β}
    (here : Refuses (Refusal.Fits kind s) (f start (s, 0)))
    (later : ∀ state s n, Refuses (About n) (f state (s, n))) :
    Refuses (Refusal.Fits kind s) ((s :: rest).zipIdx.foldlM f start) := by
  rw [List.zipIdx_cons, List.foldlM_cons]
  refine Fails.bind here fun next _ => Fails.foldlM (fun state (s', n) member => ?_) next
  have after : 1 ≤ n := List.le_snd_of_mem_zipIdx member
  exact (later state s' n).weaken fun _ about => about.fits (Nat.pos_iff_ne_zero.mp after)

/-- A check of all statements, and of the shape that they leave. -/
theorem fits_checks {β γ : Type} {kind : Operation.Kind} {f : β → Statement × Nat → Generated β}
    {op : Operation} {s : Statement} {rest : List Statement} {start : β} {finish : β → Generated γ}
    (statements : op.statements = s :: rest)
    (here : Refuses (Refusal.Fits kind s) (f start (s, 0)))
    (later : ∀ state s n, Refuses (About n) (f state (s, n)))
    (ends : ∀ b, Refuses Silent (finish b)) :
    Refuses (Refusal.Fits kind s) (op.statements.zipIdx.foldlM f start >>= finish) := by
  rw [statements]
  exact Fails.bind (fits_foldlM here later) fun b _ => (ends b).weaken Silent.fits

section Batches

variable {op : Operation} {s : Statement} {rest : List Statement}

theorem VectorStatements.fits_commonSize (statements : op.statements = s :: rest)
    (needs : s.Needs kind) : Refuses (Refusal.Fits kind s) (commonSize op) := by
  refine Fails.bind (.require fun _ => trivial) fun _ _ => fits_checks statements
    (fits_checkStatement needs none) about_checkStatement fun size => ?_
  cases size with
  | some size => exact .ok _
  | none => exact .refuse rfl

theorem MatrixStatements.fits_commonShape (statements : op.statements = s :: rest)
    (needs : s.Needs kind) : Refuses (Refusal.Fits kind s) (commonShape op) := by
  refine fits_checks statements (fits_checkStatement needs none) about_checkStatement fun shape => ?_
  cases shape with
  | some shape => exact .ok _
  | none => exact .refuse rfl

theorem Reduction.fits_batch (statements : op.statements = s :: rest) (needs : s.Needs kind) :
    Refuses (Refusal.Fits kind s) (batch op) := by
  refine Fails.bind (.require fun _ => trivial) fun _ _ => fits_checks statements
    (fits_checkStatement needs _) about_checkStatement fun (folded, extent) => ?_
  cases extent with
  | some extent => exact .ok _
  | none => exact .refuse rfl

theorem RowReduction.fits_batch {kind : Operation.Kind} {transposed : Bool} {demand : Demand}
    (statements : op.statements = s :: rest)
    (here : ∀ state, Refuses (Refusal.Fits kind s) (checkStatement kind transposed demand state (s, 0)))
    (about : ∀ n p, Refuses (About n) (demand n p)) :
    Refuses (Refusal.Fits kind s) (batch kind transposed demand op) := by
  refine fits_checks statements (here _) (about_checkStatement about)
    fun (folded, shape) => ?_
  cases shape with
  | some shape => exact .ok _
  | none => exact .refuse rfl

end Batches

/-! ### Kernels of every kind -/

/-- **The kernels of a kind never refuse the first statement of an operation of the kind as one of
another kind.** -/
theorem generateWith_fits {kind : Operation.Kind} {op : Operation} {s : Statement}
    {rest : List Statement} (statements : op.statements = s :: rest) (needs : s.Needs kind)
    (record : (Table.ofKind kind).Record) :
    Refuses (Refusal.Fits kind s) (generateWith kind record op) := by
  have rows {transposed : Bool} {p : RowTuning}
      (needs : s.Needs (.rowReduction transposed)) :
      Refuses (Refusal.Fits (.rowReduction transposed) s) (RowReduction.generate transposed p op) := by
    obtain ⟨target, p, _, m, products, matrix, read⟩ := needs
    refine RowReduction.generateFor_refuses Silent.fits (RowReduction.fits_batch statements
      (RowReduction.fits_checkStatement target products matrix read rfl ?_) fun _ _ => .ok ()) _
    exact rfl
  match kind, record with
  | .vectorStatements, p =>
    exact VectorStatements.generate_refuses Silent.fits
      (VectorStatements.fits_commonSize statements needs) p
  | .matrixStatements, p =>
    exact MatrixStatements.generate_refuses Silent.fits
      (MatrixStatements.fits_commonShape statements needs) p
  | .reduction, p =>
    exact Reduction.generate_refuses Silent.fits (Reduction.fits_batch statements needs) p
  | .rowReduction false, p => exact rows needs
  | .rowReduction true, p => exact rows needs
  | .matrixVector transposed, p =>
    obtain ⟨target, p, _, m, products, matrix, read, plain, right⟩ := needs
    have met : MatrixVector.demand (.matrixVector transposed) 0 p = .ok () := by
      simp only [MatrixVector.demand, plain, right]
      rfl
    refine RowReduction.generateFor_refuses Silent.fits (RowReduction.fits_batch statements
      (RowReduction.fits_checkStatement target products matrix read met ?_) fun n p =>
        Fails.bind (.require fun _ => Refusal.about_of_eq rfl) fun _ _ =>
        .require fun _ => Refusal.about_of_eq rfl) _
    exact rfl
  | .matrixProduct left right, p =>
    exact MatrixProduct.generate_refuses Silent.fits
      (MatrixProduct.fits_ofOperation statements needs) p

/-! ### Generation -/

/-- What has no kind is refused without a statement. -/
theorem Operation.fails_classify (op : Operation) : Fails Silent op.classify := by
  unfold classify
  split
  · exact .error rfl
  · unfold statementKind rowKind matrixKind
    repeat' split
    all_goals first | exact .ok _ | exact .error rfl

/-- Generation for a device refuses silently, or as the kernels of the operation's kind do. -/
theorem Database.generate_refuses (db : Database) (device : Device) (op : Operation) :
    Refuses (fun r => Silent r ∨ ∃ kind s rest, op.classify = .ok kind ∧ op.statements = s :: rest ∧
      r.Fits kind s) (db.generate device op) := by
  refine Fails.bind (.require fun _ => .inl rfl) fun _ _ =>
    Fails.bind (.accepted (op.fails_classify.mono fun _ => .inl)) fun kind classified => ?_
  replace classified := accepted_eq_ok_iff.mp classified
  rw [db.generatorFor_eq]
  cases statements : op.statements with
  | nil =>
    rw [Operation.classify, statements] at classified
    cases classified
  | cons s rest =>
    have needs : s.Needs kind := by
      rw [Operation.classify, statements] at classified
      exact Operation.statementKind_eq_ok classified
    exact (generateWith_fits statements needs (db.recordFor kind device)).weaken fun r fits =>
      .inr ⟨kind, s, rest, classified, rfl, fits⟩

/-- **Classification and generation agree on the first statement.** Whatever the records and the device,
no refusal says of the first statement that it has a product where its kernels take none, or none
where they need one. Its target is refused only where a reduction is to be stored into a scalar that
no buffer holds. Its product is refused only in words that do not say it is one for other kernels. -/
theorem Database.generate_fits {db : Database} {device : Device} {op : Operation} {refusal : Refusal}
    (refused : db.generate device op = .error (.refused refusal)) :
    (∀ kind, refusal ≠ .unexpectedProduct kind 0) ∧
    (∀ kind, refusal ≠ .productCount kind 0 0) ∧
    (∀ kind expected found, refusal = .targetRole kind 0 expected found →
      op.classify = .ok kind ∧ kind = .reduction ∧ ∃ s rest, op.statements = s :: rest ∧
        ((∃ name, s.target = .scalar (.host name)) ∨
          ∃ value, s.target = .scalar (.literal value))) ∧
    ∀ kind reason, refusal = .productShape kind 0 reason →
      op.classify = .ok kind ∧ ShapeReason kind reason ∧ ¬Misfit kind reason := by
  have possible := db.generate_refuses device op _ refused
  refine ⟨?_, ?_, ?_, ?_⟩
  · rintro kind rfl
    rcases possible with silent | ⟨kind', s, rest, classified, statements, fits⟩
    · cases silent
    · exact fits
  · rintro kind rfl
    rcases possible with silent | ⟨kind', s, rest, classified, statements, -, more⟩
    · cases silent
    · omega
  · rintro kind expected found rfl
    rcases possible with silent | ⟨kind', s, rest, classified, statements, rfl, reduction, scalar⟩
    · cases silent
    · exact ⟨classified, reduction, s, rest, statements, scalar⟩
  · rintro kind reason rfl
    rcases possible with silent | ⟨kind', s, rest, classified, statements, rfl, words⟩
    · cases silent
    · exact ⟨classified, words, words.not_misfit⟩

/-- The refusal that a generator ends in, if it does. -/
def refusal? {α : Type} : Generated α → Option Refusal
  | .error (.refused refusal) => some refusal
  | _ => none

theorem eq_error_of_refusal? {α : Type} {result : Generated α} {refusal : Refusal}
    (refuses : refusal? result = some refusal) : result = .error (.refused refusal) := by
  unfold refusal? at refuses
  split at refuses
  · cases refuses
    rfl
  · cases refuses

/-- A matrix times the product of another one and a vector. -/
def nestedProducts : Operation where
  numericType := .float
  statements := [{
    target := .vector ⟨"y", .fixed 8⟩
    assign := .assign
    value := .contract (.matrix (.plain "A" (.fixed 8) (.fixed 8)))
      (.contract (.matrix (.plain "B" (.fixed 8) (.fixed 8))) (.vector ⟨"x", .fixed 8⟩)) }]

/-- The inner products of two vectors, stored into a scalar that is passed by value. -/
def hostProduct : Operation where
  numericType := .float
  statements := [{
    target := .scalar (.host "s")
    assign := .assign
    value := .contract (.vector ⟨"x", .fixed 8⟩) (.vector ⟨"y", .fixed 8⟩) }]

/-- The first operation is refused for its right operand, which does not say that it is no matrix-vector
product; the second one for its target, being a reduction. -/
theorem Database.generate_fits_nestedProducts : ∃ db, load .none = .ok db ∧
    db.generate fermiModel nestedProducts = .error (.refused (.productShape (.matrixVector false) 0
      "the right operand must be a vector expression")) ∧
    ¬Misfit (.matrixVector false) "the right operand must be a vector expression" ∧
    db.generate fermiModel hostProduct = .error (.refused (.targetRole .reduction 0
      "device scalar" "host scalar")) ∧
    hostProduct.classify = .ok .reduction := by
  have evaluated : ((load .none).toOption.any fun db =>
      decide (refusal? (db.generate fermiModel nestedProducts) = some (.productShape
          (.matrixVector false) 0 "the right operand must be a vector expression") ∧
        refusal? (db.generate fermiModel hostProduct) = some (.targetRole .reduction 0
          "device scalar" "host scalar"))) = true := by
    decide +kernel
  obtain ⟨db, loaded, evaluated⟩ := exists_ok_of_any evaluated
  obtain ⟨shape, target⟩ := of_decide_eq_true evaluated
  replace shape := eq_error_of_refusal? shape
  replace target := eq_error_of_refusal? target
  obtain ⟨-, -, -, shapes⟩ := generate_fits shape
  obtain ⟨-, -, targets, -⟩ := generate_fits target
  exact ⟨db, loaded, shape, (shapes _ _ rfl).2.2, target, (targets _ _ _ rfl).1⟩

end TunedKernel
