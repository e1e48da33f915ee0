/-
**Which operations are reductions of rows, and matrix-vector products.**

* `RowReduction.Takes` — the operations that reductions of rows are generated of; `Takes.of_sub` — with an
  operation, some of its statements are taken. `MatrixVector.Multiplies` — what matrix-vector products ask of a
  product besides.
* `RowReduction.exists_batch_iff`, `exists_code_iff` — what the batch and the kernel ask for.
* `RowReduction.generateFor_decides` — kernels of either kind are generated exactly of the operations that are
  taken, with products that are as demanded; `rowGenerators_accept` — that of both kinds.
-/

import TunedKernel.Proofs.Generation.Verdicts

namespace TunedKernel.RowReduction

/-- The first matrix of the left operand has the transposition and the shape, and the right operand has no
matrix. -/
def Spans (transposed : Bool) (product : Product) (shape : Extent × Extent) : Prop :=
  (∃ m, product.lhs.nodes.findSome? Expr.matrix? = some m ∧ m.transposed = transposed ∧
      (m.logicalRows, m.logicalCols) = shape) ∧
    ∀ rhs, product.rhs = some rhs → ∀ m, .matrix m ∉ rhs.nodes

/-- The operations that reductions of rows are generated of: every statement stores the value of an
expression around a single product with a matrix on the left into a vector. -/
structure Takes (transposed : Bool) (p : RowTuning) (op : Operation) : Prop where
  nonempty : op.statements ≠ []
  width : p.simdWidth.toNat = 1
  targets : ∀ s ∈ op.statements, ∃ v, s.target = .vector v
  single : ∀ s ∈ op.statements, s.value.nodes.countP Expr.isProduct = 1
  matrices : ∃ shape, ∀ s ∈ op.statements, ∀ product ∈ s.value.products, Spans transposed product shape
  /-- Outside of the products, no matrix is read. -/
  outside : ∀ s ∈ op.statements, ∀ leaf ∈ s.value.leaves, ∀ m, leaf ≠ .matrix m
  roles : op.OneRole

/-- Some of the statements of an operation that is taken make one that is. -/
theorem Takes.of_sub {transposed : Bool} {p : RowTuning} {op op' : Operation}
    (takes : Takes transposed p op) (sub : op'.statements ⊆ op.statements)
    (nonempty : op'.statements ≠ []) : Takes transposed p op' where
  nonempty := nonempty
  width := takes.width
  targets s member := takes.targets s (sub member)
  single s member := takes.single s (sub member)
  matrices := by
    obtain ⟨shape, spans⟩ := takes.matrices
    exact ⟨shape, fun s member => spans s (sub member)⟩
  outside s member := takes.outside s (sub member)
  roles := takes.roles.of_sub sub

/-! ### The batch -/

variable {kind : Operation.Kind} {transposed : Bool} {demand : Demand} {demanded : Product → Prop}

/-- A statement that stores into a vector passes if its product has a matrix of the shape and is as
demanded. -/
theorem checkStatement_demanded_iff (demands : ∀ n product, demand n product = .ok () ↔ demanded product)
    {state next : List Folded × Option (Extent × Extent)} {entry : Statement × Nat} :
    checkStatement kind transposed demand state entry = .ok next ↔
      ∃ product shape, entry.1.value.products = [product] ∧
        ((∃ v, entry.1.target = .vector v) ∧ Spans transposed product shape ∧ demanded product) ∧
        next = (state.1 ++ [⟨entry.1, product, entry.2⟩], some shape) ∧
        ∀ first, state.2 = some first → first = shape := by
  rw [checkStatement_eq_ok_iff]
  refine exists₂_congr fun product shape => and_congr_right fun _ => ?_
  have spans : Spans transposed product shape ↔ ∃ m, product.matrix? = some m ∧
      product.rightMatrix? = none ∧ m.transposed = transposed ∧
      (m.logicalRows, m.logicalCols) = shape := by
    rw [Spans, ← Product.rightMatrix?_eq_none_iff, ← exists_and_right]
    exact exists_congr fun m => by tauto
  rw [spans, demands, and_assoc, and_assoc, and_assoc]

/-- **What the batch asks for**: products with matrices of the shape, stored into vectors. -/
theorem exists_batch_iff (demands : ∀ n product, demand n product = .ok () ↔ demanded product)
    {op : Operation} {rows cols : Extent} :
    (∃ folded, batch kind transposed demand op = .ok (folded, rows, cols)) ↔ op.statements ≠ [] ∧
      ∀ s ∈ op.statements, ∃ product, s.value.products = [product] ∧ (∃ v, s.target = .vector v) ∧
        Spans transposed product (rows, cols) ∧ demanded product := by
  have checks : (∃ folded, op.statements.zipIdx.foldlM (checkStatement kind transposed demand) ([], none) =
      .ok (folded, some (rows, cols))) ↔ _ :=
    exists_checks_iff (fun s product shape =>
      (∃ v, s.target = .vector v) ∧ Spans transposed product shape ∧ demanded product)
      fun _ _ _ => checkStatement_demanded_iff demands
  rw [← checks]
  constructor
  · rintro ⟨folded, ok⟩
    obtain ⟨⟨found, shape⟩, collected, ok⟩ := bind_eq_ok_iff.mp ok
    cases shape with
    | none => cases ok
    | some shape =>
      cases ok
      exact ⟨folded, collected⟩
  · exact fun ⟨folded, collected⟩ => ⟨folded, bind_eq_ok_iff.mpr ⟨_, collected, rfl⟩⟩

/-! ### The kernel -/

variable {p : RowTuning} {op : Operation}

/-- **What the kernel asks for**: terms of the products, a tree, and nothing but vectors and scalars in the
targets and around the products. -/
theorem exists_code_iff {type : NumericType} {dims : List Nat} {folded : List Folded}
    {rows cols : Extent} : (∃ body, code p transposed type dims folded rows cols = .ok body) ↔
      (∀ f ∈ folded, f.product.inner = []) ∧ p.localSize1.toNat ≤ 2 ^ 31 ∧
        ∀ f ∈ folded, ∀ leaf ∈ f.statement.target.leaves ++ f.statement.value.leaves,
          ∀ m, leaf ≠ .matrix m := by
  unfold code
  simp only [exists_bind_eq_ok_iff, exists_pure_eq_ok, and_true, exists_and_right, accepted_eq_ok_iff,
    exists_mapM_iff, Tree.exists_code_iff, Product.exists_term_iff, Statement.exists_storeStep_iff,
    Expr.exists_term_iff, Expr.addressed_iff, List.forall_mem_append]
  simp [Scope.bare, Scope.withIndex, Scope.withElement, Scope.withProduct]

/-! ### The program -/

/-- A program is only made of an operation that is taken, whose numbers fit and whose products are as
demanded. -/
theorem takes_of_generateFor (demands : ∀ n product, demand n product = .ok () ↔ demanded product)
    {program : Program} (ok : generateFor kind transposed demand p op = .ok program) :
    p.Fits op.statements.length op.numericType.size ∧ Takes transposed p op ∧
      ∀ s ∈ op.statements, ∀ product ∈ s.value.products, demanded product := by
  obtain ⟨_, nonempty, ok⟩ := bind_eq_ok_iff.mp ok
  obtain ⟨_, scalar, ok⟩ := bind_eq_ok_iff.mp ok
  obtain ⟨⟨folded, rows, cols⟩, batched, ok⟩ := bind_eq_ok_iff.mp ok
  obtain ⟨arguments, collected, ok⟩ := bind_eq_ok_iff.mp ok
  obtain ⟨row, widened, ok⟩ := bind_eq_ok_iff.mp ok
  obtain ⟨n, counted, ok⟩ := bind_eq_ok_iff.mp ok
  obtain ⟨body, emitted, -⟩ := bind_eq_ok_iff.mp ok
  obtain ⟨small, rfl⟩ := Word.add_eq_ok_iff.mp widened
  obtain ⟨numbered, -⟩ := batch_eq_ok batched
  obtain ⟨some, all⟩ := (exists_batch_iff demands).mp ⟨folded, batched⟩
  obtain ⟨terms, lanes, around⟩ := exists_code_iff.mp ⟨body, emitted⟩
  have bytes := (Folded.exists_localBytes_iff (.plane p.localSize0.toNat_lt small)).mp ⟨n, counted⟩
  rw [numbered.length_eq, List.prod_pair] at bytes
  have each {s : Statement} (member : s ∈ op.statements) {product : Product}
      (inside : product ∈ s.value.products) :
      Spans transposed product (rows, cols) ∧ demanded product := by
    obtain ⟨_, single, -, accepted⟩ := all s member
    rw [single] at inside
    exact List.mem_singleton.mp inside ▸ accepted
  refine ⟨⟨lanes, bytes⟩, ?_, fun s member product inside => (each member inside).2⟩
  constructor
  case nonempty => exact some
  case width => exact beq_iff_eq.mp (require_eq_ok_iff.mp scalar)
  case targets =>
    intro s member
    obtain ⟨_, -, target, -⟩ := all s member
    exact target
  case single => exact numbered.forall_single.mpr terms
  case matrices => exact ⟨_, fun s member product inside => (each member inside).1⟩
  case outside =>
    exact numbered.forall_statements.mpr fun f member leaf inside =>
      around f member leaf (List.mem_append_right _ inside)
  case roles => exact exists_collectArguments_iff.mp ⟨arguments, accepted_eq_ok_iff.mp collected⟩

/-- **There is a program of an operation that is taken**, if its numbers fit and its products are as
demanded. -/
theorem exists_program_of_takes (demands : ∀ n product, demand n product = .ok () ↔ demanded product)
    (fits : p.Fits op.statements.length op.numericType.size) (takes : Takes transposed p op)
    (meets : ∀ s ∈ op.statements, ∀ product ∈ s.value.products, demanded product) :
    ∃ program, generateFor kind transposed demand p op = .ok program := by
  obtain ⟨lanes, bytes⟩ := fits
  obtain ⟨⟨rows, cols⟩, spans⟩ := takes.matrices
  obtain ⟨folded, batched⟩ : ∃ folded, batch kind transposed demand op = .ok (folded, rows, cols) := by
    refine (exists_batch_iff demands).mpr ⟨takes.nonempty, fun s member => ?_⟩
    obtain ⟨product, alone, -⟩ := Expr.countP_isProduct_eq_one_iff.mp (takes.single s member)
    have among : product ∈ s.value.products := alone ▸ List.mem_cons_self
    exact ⟨product, alone, takes.targets s member, spans s member product among,
      meets s member product among⟩
  obtain ⟨numbered, -⟩ := batch_eq_ok batched
  rw [← numbered.length_eq] at bytes
  have around : ∀ f ∈ folded, ∀ leaf ∈ f.statement.target.leaves ++ f.statement.value.leaves,
      ∀ m, leaf ≠ .matrix m := by
    refine fun f member => List.forall_mem_append.mpr
      ⟨?_, numbered.forall_statements.mp takes.outside f member⟩
    obtain ⟨v, vector⟩ := numbered.forall_statements.mp takes.targets f member
    rw [vector]
    exact List.forall_mem_singleton.mpr nofun
  have some : requireStatements op = .ok () := require_eq_ok_iff.mpr (by simpa using takes.nonempty)
  have scalar : requireScalarWidth kind p.simdWidth.toNat = .ok () :=
    require_eq_ok_iff.mpr (beq_iff_eq.mpr takes.width)
  obtain ⟨arguments, collected⟩ : ∃ arguments, collectArguments op 1 = .ok arguments :=
    exists_collectArguments_iff.mpr takes.roles
  have small : p.localSize1.toNat + 1 < Word.bits32.limit :=
    (Nat.add_le_add_right lanes 1).trans_lt (by decide)
  obtain ⟨n, counted⟩ : ∃ n, Folded.localBytes op.numericType
      [p.localSize0.toNat, p.localSize1.toNat + 1] folded = .ok n :=
    (Folded.exists_localBytes_iff (.plane p.localSize0.toNat_lt small)).mpr (by simpa using bytes)
  obtain ⟨body, emitted⟩ : ∃ body, code p transposed op.numericType
      [p.localSize0.toNat, p.localSize1.toNat + 1] folded rows cols = .ok body :=
    exists_code_iff.mpr ⟨numbered.forall_single.mp takes.single, lanes, around⟩
  exact ⟨_, bind_eq_ok_iff.mpr ⟨_, some, bind_eq_ok_iff.mpr ⟨_, scalar, bind_eq_ok_iff.mpr
    ⟨_, batched, bind_eq_ok_iff.mpr ⟨_, accepted_eq_ok_iff.mpr collected, bind_eq_ok_iff.mpr
      ⟨_, Word.add_eq_ok_iff.mpr ⟨small, rfl⟩, bind_eq_ok_iff.mpr ⟨n, counted, bind_eq_ok_iff.mpr
        ⟨body, emitted, rfl⟩⟩⟩⟩⟩⟩⟩⟩

/-- **Kernels of one kind accept exactly the operations that are taken**, with products as demanded. -/
theorem generateFor_decides (demands : ∀ n product, demand n product = .ok () ↔ demanded product)
    (counts : ∀ n product, Measured (demand n product) True) :
    Decides (generateFor kind transposed demand p op) (p.Fits op.statements.length op.numericType.size)
      (Takes transposed p op ∧ ∀ s ∈ op.statements, ∀ product ∈ s.value.products, demanded product) :=
  (measured_generateFor kind transposed counts p op).decides
    (fun _ ok => (takes_of_generateFor demands ok).2) fun fits accepted =>
      exists_program_of_takes demands fits accepted.1 accepted.2

end TunedKernel.RowReduction

namespace TunedKernel

/-- A product of two operands that are multiplied and added up. -/
def MatrixVector.Multiplies (p : Product) : Prop := p.combine = .mul ∧ p.reduce = .add ∧ p.rhs ≠ none

theorem MatrixVector.demand_eq_ok_iff {kind : Operation.Kind} (n : Nat) (p : Product) :
    demand kind n p = .ok () ↔ Multiplies p := by
  simp [demand, bind_eq_ok_iff, require_eq_ok_iff, Multiplies, Product.isPlain, and_assoc,
    Option.isSome_iff_ne_none]

/-- **Reductions of rows and matrix-vector products accept exactly their operations**: where the numbers
fit, an operation that is taken has a program, and every other one is refused. Matrix-vector products take
what reductions of rows do if all its products multiply two operands and add them up. -/
theorem rowGenerators_accept (transposed : Bool) (p : RowTuning) (op : Operation) :
    Decides (RowReduction.generate transposed p op) (p.Fits op.statements.length op.numericType.size)
        (RowReduction.Takes transposed p op) ∧
      Decides (MatrixVector.generate transposed p op) (p.Fits op.statements.length op.numericType.size)
        (RowReduction.Takes transposed p op ∧
          ∀ s ∈ op.statements, ∀ product ∈ s.value.products, MatrixVector.Multiplies product) := by
  constructor
  · have anything (n : Nat) (product : Product) : (.ok () : Generated Unit) = .ok () ↔ True :=
      iff_of_true rfl trivial
    exact (RowReduction.generateFor_decides anything fun _ _ => .ok _).congr
      (and_iff_left fun _ _ _ _ => trivial)
  · exact RowReduction.generateFor_decides MatrixVector.demand_eq_ok_iff fun _ _ =>
      (Measured.require _ _).after fun _ _ => .require _ _

end TunedKernel
