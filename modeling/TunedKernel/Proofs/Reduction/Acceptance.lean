/-
**Which operations are reductions.**

* `Reduction.Takes` — the operations that reductions are generated of; `Takes.of_sub` — with an operation, some
  of its statements are taken.
* `Reduction.exists_batch_iff`, `exists_partialKernel_iff`, `exists_finalKernel_iff` — what the batch and the
  two kernels ask for.
* `Reduction.generate_accepts` — a program is there exactly if its numbers fit and the operation is taken,
  and every other operation is refused.
-/

import TunedKernel.Proofs.Generation.Verdicts

namespace TunedKernel.Reduction

/-- The product has no matrices, and its first vector has the extent. -/
def Spans (product : Product) (extent : Extent) : Prop :=
  (∀ m, .matrix m ∉ product.nodes) ∧
    ∃ v, product.nodes.findSome? Expr.vector? = some v ∧ v.size = extent

/-- The operations that reductions are generated of: every statement stores the value of an expression
around a single product of vectors into a scalar of the device. -/
structure Takes (p : ReductionTuning) (op : Operation) : Prop where
  nonempty : op.statements ≠ []
  targets : ∀ s ∈ op.statements, ∃ name, s.target = .scalar (.device name)
  single : ∀ s ∈ op.statements, s.value.nodes.countP Expr.isProduct = 1
  /-- The products span one extent, which is a multiple of the width if it is constant. -/
  vectors : ∃ extent, (∀ s ∈ op.statements, ∀ product ∈ s.value.products, Spans product extent) ∧
    ∀ n, extent = .fixed n → p.simdWidth.toNat ∣ n.toNat
  /-- Outside of the products, only scalars are read. -/
  outside : ∀ s ∈ op.statements, ∀ leaf ∈ s.value.leaves,
    (∀ v, leaf ≠ .vector v) ∧ ∀ m, leaf ≠ .matrix m
  width : p.simdWidth.toNat ∈ [1, 2, 4, 8, 16]
  roles : op.OneRole
  scratch : ∀ role, ¬op.Uses role scratch

/-- Some of the statements of an operation that is taken make one that is. -/
theorem Takes.of_sub {p : ReductionTuning} {op op' : Operation} (takes : Takes p op)
    (sub : op'.statements ⊆ op.statements) (nonempty : op'.statements ≠ []) : Takes p op' where
  nonempty := nonempty
  targets s member := takes.targets s (sub member)
  single s member := takes.single s (sub member)
  vectors := by
    obtain ⟨extent, spans, multiple⟩ := takes.vectors
    exact ⟨extent, fun s member => spans s (sub member), multiple⟩
  outside s member := takes.outside s (sub member)
  width := takes.width
  roles := takes.roles.of_sub sub
  scratch role uses := takes.scratch role (uses.of_sub sub)

/-! ### The batch -/

theorem spans_iff {p : Product} {extent : Extent} : Spans p extent ↔
    (p.matrix? = none ∧ p.rightMatrix? = none) ∧ ∃ v, p.vector? = some v ∧ v.size = extent := by
  rw [Spans, ← Product.matrices_iff, ← Product.vector?_eq]

/-- **What the batch asks for**: products of vectors of the extent, stored into scalars of the device. -/
theorem exists_batch_iff {op : Operation} {extent : Extent} :
    (∃ folded, batch op = .ok (folded, extent)) ↔ op.statements ≠ [] ∧ ∀ s ∈ op.statements,
      ∃ product, s.value.products = [product] ∧
        (∃ name, s.target = .scalar (.device name)) ∧ Spans product extent := by
  have checks : (∃ folded, op.statements.zipIdx.foldlM checkStatement ([], none) =
      .ok (folded, some extent)) ↔ _ :=
    exists_checks_iff (fun s product extent =>
      (∃ name, s.target = .scalar (.device name)) ∧ Spans product extent)
      (by simpa only [spans_iff] using fun _ _ _ => checkStatement_eq_ok_iff)
  rw [← checks]
  constructor
  · rintro ⟨folded, ok⟩
    obtain ⟨_, -, ok⟩ := bind_eq_ok_iff.mp ok
    obtain ⟨⟨found, shape⟩, collected, ok⟩ := bind_eq_ok_iff.mp ok
    cases shape with
    | none => cases ok
    | some extent =>
      cases ok
      exact ⟨folded, collected⟩
  · rintro ⟨folded, collected⟩
    have some : (!op.statements.isEmpty) = true := by
      simpa using (checks.mp ⟨folded, collected⟩).1
    exact ⟨folded, bind_eq_ok_iff.mpr ⟨(), require_eq_ok_iff.mpr some, bind_eq_ok_iff.mpr
      ⟨_, collected, rfl⟩⟩⟩

/-! ### The kernels -/

variable {p : ReductionTuning} {op : Operation} {folded : List Folded} {extent : Extent}

/-- **What the first kernel asks for**: a bound, terms of the products, and a tree. -/
theorem exists_partialKernel_iff {type : NumericType} :
    (∃ code, partialKernel p type folded extent = .ok code) ↔
      (∀ n, extent = .fixed n → p.simdWidth.toNat ∣ n.toNat) ∧
        (∀ f ∈ folded, f.product.inner = [] ∧ ∀ leaf ∈ f.product.leaves, ∀ m, leaf ≠ .matrix m) ∧
          p.localSize.toNat ≤ 2 ^ 31 := by
  unfold partialKernel
  simp only [exists_bind_eq_ok_iff, exists_pure_eq_ok, and_true, exists_and_right, accepted_eq_ok_iff,
    exists_packedBound_iff, exists_mapM_iff, Tree.exists_code_iff, Product.exists_term_iff,
    Expr.addressed_iff]
  simp [Scope.bare, Scope.withIndex]

/-- **What the second kernel asks for**: a tree, and scalars in the targets and around the products. -/
theorem exists_finalKernel_iff {type : NumericType} :
    (∃ code, finalKernel p type folded = .ok code) ↔ p.localSize.toNat ≤ 2 ^ 31 ∧
      ∀ f ∈ folded, ∀ leaf ∈ f.statement.target.leaves ++ f.statement.value.leaves,
        (∀ v, leaf ≠ .vector v) ∧ ∀ m, leaf ≠ .matrix m := by
  unfold finalKernel
  simp only [exists_bind_eq_ok_iff, exists_pure_eq_ok, and_true, exists_and_right, exists_mapM_iff,
    Tree.exists_code_iff, Statement.exists_storeStep_iff, Expr.exists_term_iff, Expr.addressed_iff,
    List.forall_mem_append]
  simp [Scope.bare, Scope.withProduct]

/-! ### The program -/

/-- A program is only made of an operation that is taken. -/
theorem takes_of_generate {program : Program} (ok : generate p op = .ok program) : Takes p op := by
  obtain ⟨⟨folded, extent⟩, batched, ok⟩ := bind_eq_ok_iff.mp ok
  obtain ⟨_, packed, ok⟩ := bind_eq_ok_iff.mp ok
  obtain ⟨operands, collected, ok⟩ := bind_eq_ok_iff.mp ok
  obtain ⟨arguments, pushed, ok⟩ := bind_eq_ok_iff.mp ok
  obtain ⟨_, -, ok⟩ := bind_eq_ok_iff.mp ok
  obtain ⟨_, -, ok⟩ := bind_eq_ok_iff.mp ok
  obtain ⟨first, emitted, ok⟩ := bind_eq_ok_iff.mp ok
  obtain ⟨second, emitted', -⟩ := bind_eq_ok_iff.mp ok
  rw [accepted_eq_ok_iff] at collected pushed
  obtain ⟨numbered, -⟩ := batch_eq_ok batched
  obtain ⟨nonempty, all⟩ := exists_batch_iff.mp ⟨folded, batched⟩
  obtain ⟨multiple, terms, -⟩ := exists_partialKernel_iff.mp ⟨first, emitted⟩
  obtain ⟨-, around⟩ := exists_finalKernel_iff.mp ⟨second, emitted'⟩
  constructor
  case nonempty => exact nonempty
  case targets =>
    intro s member
    obtain ⟨_, -, target, -⟩ := all s member
    exact target
  case single => exact numbered.forall_single.mpr fun f member => (terms f member).1
  case vectors =>
    refine ⟨extent, fun s member product inside => ?_, multiple⟩
    obtain ⟨_, single, -, spans⟩ := all s member
    rw [single] at inside
    exact List.mem_singleton.mp inside ▸ spans
  case outside =>
    exact numbered.forall_statements.mpr fun f member leaf inside =>
      around f member leaf (List.mem_append_right _ inside)
  case width => exact NumericType.isVectorWidth_iff.mp (require_eq_ok_iff.mp packed)
  case roles => exact exists_collectArguments_iff.mp ⟨operands, collected⟩
  case scratch => exact (exists_pushBuffer_iff collected).mp ⟨arguments, pushed⟩

/-- **There is a program of an operation that is taken**, if its numbers fit. -/
theorem exists_program_of_takes (takes : Takes p op)
    (fits : p.Fits op.statements.length op.numericType.size) : ∃ program, generate p op = .ok program := by
  obtain ⟨lanes, bytes, elements⟩ := fits
  obtain ⟨extent, spans, multiple⟩ := takes.vectors
  obtain ⟨folded, batched⟩ : ∃ folded, batch op = .ok (folded, extent) := by
    refine exists_batch_iff.mpr ⟨takes.nonempty, fun s member => ?_⟩
    obtain ⟨product, alone, -⟩ := Expr.countP_isProduct_eq_one_iff.mp (takes.single s member)
    exact ⟨product, alone, takes.targets s member, spans s member product (by simp [alone])⟩
  obtain ⟨numbered, -⟩ := batch_eq_ok batched
  rw [← numbered.length_eq] at bytes elements
  -- What is asked of the products and around them holds for the whole batch.
  have products : ∀ f ∈ folded, f.product.inner = [] ∧
      ∀ leaf ∈ f.product.leaves, ∀ m, leaf ≠ .matrix m := by
    refine fun f member => ⟨numbered.forall_single.mp takes.single f member, ?_⟩
    rintro _ read m rfl
    exact (numbered.forall_products.mp spans f member).1 m (Product.mem_nodes_of_leaves read)
  have around : ∀ f ∈ folded, ∀ leaf ∈ f.statement.target.leaves ++ f.statement.value.leaves,
      (∀ v, leaf ≠ .vector v) ∧ ∀ m, leaf ≠ .matrix m := by
    refine fun f member => List.forall_mem_append.mpr
      ⟨?_, numbered.forall_statements.mp takes.outside f member⟩
    obtain ⟨name, scalar⟩ := numbered.forall_statements.mp takes.targets f member
    rw [scalar]
    exact List.forall_mem_singleton.mpr ⟨nofun, nofun⟩
  obtain ⟨operands, collected⟩ : ∃ operands, collectArguments op p.simdWidth.toNat = .ok operands :=
    exists_collectArguments_iff.mpr takes.roles
  obtain ⟨arguments, pushed⟩ : ∃ arguments, pushBuffer operands scratch op.numericType.text =
      .ok arguments := (exists_pushBuffer_iff collected).mpr takes.scratch
  obtain ⟨n, counted⟩ : ∃ n, Folded.localBytes op.numericType [p.localSize.toNat] folded = .ok n :=
    (Folded.exists_localBytes_iff (.line p.localSize.toNat_lt)).mpr (by simpa using bytes)
  obtain ⟨m, held⟩ : ∃ m, Word.bits64.mul folded.length p.numGroups.toNat = .ok m :=
    Word.exists_mul_iff.mpr elements
  obtain ⟨first, emitted⟩ : ∃ code, partialKernel p op.numericType folded extent = .ok code :=
    exists_partialKernel_iff.mpr ⟨multiple, products, lanes⟩
  obtain ⟨second, emitted'⟩ : ∃ code, finalKernel p op.numericType folded = .ok code :=
    exists_finalKernel_iff.mpr ⟨lanes, around⟩
  have packed : requirePacked kind p.simdWidth.toNat = .ok () :=
    require_eq_ok_iff.mpr (NumericType.isVectorWidth_iff.mpr takes.width)
  rw [← accepted_eq_ok_iff] at collected pushed
  exact ⟨_, bind_eq_ok_iff.mpr ⟨_, batched, bind_eq_ok_iff.mpr ⟨_, packed, bind_eq_ok_iff.mpr
    ⟨_, collected, bind_eq_ok_iff.mpr ⟨_, pushed, bind_eq_ok_iff.mpr ⟨n, counted, bind_eq_ok_iff.mpr
      ⟨m, held, bind_eq_ok_iff.mpr ⟨first, emitted, bind_eq_ok_iff.mpr
        ⟨second, emitted', rfl⟩⟩⟩⟩⟩⟩⟩⟩⟩

/-- **Reductions accept exactly their operations**: where the numbers fit, an operation that is taken has
a program, and every other one is refused. With less than `2 ^ 30` statements the numbers fit exactly if the
trees of a group do. -/
theorem generate_accepts (p : ReductionTuning) (op : Operation) :
    Decides (generate p op) (p.Fits op.statements.length op.numericType.size) (Takes p op) ∧
      (op.statements.length < 2 ^ 30 →
        (p.Fits op.statements.length op.numericType.size ↔ p.localSize.toNat ≤ 2 ^ 31)) := by
  refine ⟨(measured_generate p op).decides (fun _ => takes_of_generate) fun fits takes => ?_,
    fun few => ReductionTuning.fits_iff few _⟩
  exact exists_program_of_takes takes fits

end TunedKernel.Reduction
