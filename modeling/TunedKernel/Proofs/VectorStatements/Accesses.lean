/-
**What element-wise vector statements access.**

* `Parts`, `Accepted`, `generate_eq_ok` — what the kernel is put together from, and the program of an
  accepted operation.
* `Reads`, `body_passes` — the leaves are read at the packed elements of the targets.
* `Fits`, `generate_orderly` — the kernel of an accepted operation; what has to fit for every leaf to have
  the elements that are read.
-/

import TunedKernel.Generator.VectorStatements
import TunedKernel.Proofs.Batch.Accesses

namespace TunedKernel

/-- What a record of vector statements that passes its check promises. -/
structure VectorTuning.Valid (p : VectorTuning) : Prop where
  localSize : 0 < p.localSize.toNat
  numGroups : 0 < p.numGroups.toNat

theorem VectorTuning.valid {p : VectorTuning} {u : Unit} (ok : p.check = .ok u) : p.Valid := by
  obtain ⟨_, -, positive⟩ := bind_eq_ok_iff.mp ok
  have each := checkPositive_eq_ok positive
  exact ⟨each ("local_size_0", _) (by simp), each ("num_groups", _) (by simp)⟩

namespace VectorStatements

/-! ### The program -/

/-- What a kernel is put together from. -/
structure Parts where
  record : VectorTuning
  statements : List Statement
  /-- The size of the targets. -/
  size : Extent
  /-- The bound of the loop over the packed elements. -/
  bound : Term
  /-- The step that carries out a statement. -/
  store : Statement → Step

namespace Parts

variable (k : Parts)

/-- The lanes of a packed element. -/
def width : Nat := k.record.simdWidth.toNat

/-- The code of the kernel. -/
def body : Code :=
  (Walk.split k.record.strided "i" 0 k.bound).around (Code.ofSteps (k.statements.map k.store))

/-- The number of packed elements. -/
def count (bindings : Bindings) : Nat := k.size.size bindings / k.width

end Parts

/-- What an accepted operation looks like: every statement stores into a vector of the common size. -/
structure Accepted (op : Operation) (p : VectorTuning) (k : Parts) : Prop where
  record : k.record = p
  statements : k.statements = op.statements
  nonempty : k.statements ≠ []
  targets : ∀ s ∈ k.statements, ∃ v, s.target = .vector v ∧ v.size = k.size
  packed : NumericType.isVectorWidth k.width
  bound : packedBound kind k.size k.width = .ok k.bound
  stores : ∀ s ∈ k.statements,
    s.storeStep ((Scope.bare op.numericType).withIndex (.name "i")) = .ok (k.store s)

theorem checkStatement_eq_ok_iff {size next : Option Extent} {entry : Statement × Nat} :
    checkStatement size entry = .ok next ↔ ∃ x, next = some x ∧
      ((∃ v, entry.1.target = .vector v ∧ v.size = x) ∧ entry.1.value.products = []) ∧
        ∀ first, size = some first → first = x := by
  unfold checkStatement
  split
  · next v isVector =>
    simp only [isVector, bind_eq_ok_iff, forbidProducts_eq_ok_iff, agree_eq_ok_iff]
    constructor
    · rintro ⟨_, bare, rfl, same⟩
      exact ⟨_, rfl, ⟨⟨v, rfl, rfl⟩, bare⟩, same⟩
    · rintro ⟨_, rfl, ⟨⟨_, ⟨⟩, rfl⟩, bare⟩, same⟩
      exact ⟨(), bare, rfl, same⟩
  · next other =>
    refine iff_of_false nofun ?_
    rintro ⟨_, -, ⟨⟨v, isVector, -⟩, -⟩, -⟩
    exact other v isVector

/-- **The size that all targets have** is found exactly if they have it, and store values without products. -/
theorem commonSize_eq_ok_iff {op : Operation} {size : Extent} : commonSize op = .ok size ↔
    op.statements ≠ [] ∧ ∀ s ∈ op.statements,
      (∃ v, s.target = .vector v ∧ v.size = size) ∧ s.value.products = [] := by
  have checks : op.statements.zipIdx.foldlM checkStatement none = .ok (some size) ↔ _ :=
    agrees_iff (fun s x => (∃ v, s.target = .vector v ∧ v.size = x) ∧ s.value.products = [])
      fun _ _ _ => checkStatement_eq_ok_iff
  rw [← checks, commonSize]
  simp only [bind_eq_ok_iff, requireStatements_eq_ok_iff]
  constructor
  · rintro ⟨_, -, found, checked, ok⟩
    cases found with
    | none => cases ok
    | some found =>
      cases ok
      exact checked
  · exact fun checked => ⟨(), (checks.mp checked).1, _, checked, rfl⟩

/-- **The program of an accepted operation**: a single kernel over the sizes of the record. -/
theorem generate_eq_ok {p : VectorTuning} {op : Operation} {program : Program}
    (ok : generate p op = .ok program) :
    ∃ k arguments kernel, Accepted op p k ∧
      collectArguments op p.simdWidth.toNat = .ok arguments ∧ program.kernels = [kernel] ∧
      kernel.arguments = arguments ∧ kernel.scratchElements = 0 ∧
      kernel.geometry = .line p.localSize.toNat (.fixed p.numGroups.toNat) ∧ kernel.body = k.body := by
  obtain ⟨size, compared, ok⟩ := bind_eq_ok_iff.mp ok
  obtain ⟨_, packed, ok⟩ := bind_eq_ok_iff.mp ok
  obtain ⟨arguments, collected, ok⟩ := bind_eq_ok_iff.mp ok
  obtain ⟨bound, bounded, ok⟩ := bind_eq_ok_iff.mp ok
  obtain ⟨stores, stored, ok⟩ := bind_eq_ok_iff.mp ok
  cases ok
  obtain ⟨nonempty, all⟩ := commonSize_eq_ok_iff.mp compared
  have : Nonempty Step := ⟨.barrier⟩
  obtain ⟨store, rfl, stores⟩ := exists_map (g := fun _ s => s) (fun s y found => ⟨y, found, rfl⟩)
    stored
  exact ⟨⟨p, op.statements, size, bound, store⟩, arguments, _,
    ⟨rfl, rfl, nonempty, fun s member => (all s member).1, require_eq_ok_iff.mp packed, bounded, stores⟩,
    accepted_eq_ok_iff.mp collected, rfl, rfl, rfl, rfl, rfl⟩

/-! ### Accesses -/

variable {op : Operation} {k : Parts} {bindings : Bindings} {arrays : List (String × List Nat)}
  {names₀ : Names Unit}

/-- The points at which a leaf is read: the packed elements of the targets. -/
def Reads (k : Parts) (bindings : Bindings) (leaf : Expr) (point : Point) : Prop :=
  (∃ s ∈ k.statements, leaf ∈ s.target.leaves ++ s.value.leaves) ∧ point.index < k.count bindings

/-- The launch of a record. -/
def launch (p : VectorTuning) : Shape where
  localSizes := ⟨p.localSize.toNat, 1, 1⟩
  groups := ⟨p.numGroups.toNat, 1, 1⟩

theorem Accepted.exists_vector (accepted : Accepted op k.record k) {s : Statement}
    (member : s ∈ k.statements) : (∃ v, s.target = .vector v) ∨ ∃ m, s.target = .matrix m := by
  obtain ⟨v, isVector, -⟩ := accepted.targets s member
  exact Or.inl ⟨v, isVector⟩

theorem Accepted.binders_stores (accepted : Accepted op k.record k) :
    (Code.ofSteps (k.statements.map k.store)).binders = [] :=
  Code.binders_ofSteps_nil fun step member => by
    obtain ⟨s, inside, rfl⟩ := List.mem_map.mp member
    exact Statement.binder?_storeStep (accepted.stores s inside) (accepted.exists_vector inside)

/-- **What a worker accesses.** -/
theorem body_passes (accepted : Accepted op k.record k)
    (known : ∀ names, names₀.Same k.body.binders names → ∀ node ∈ op.nodes, ∀ x ∈ node.extents,
      x.Known bindings names) (g : (launch k.record).Group) (l : (launch k.record).Lane) :
    (Watch.of bindings arrays (Reads k bindings) ((launch k.record).worker g l)).Passes k.body names₀
      fun _ => True := by
  have plain := accepted.binders_stores
  have settled {names : Names Unit} (same : names₀.Same ((Walk.split k.record.strided "i" 0
      k.bound).declared ++ "i" :: (Code.ofSteps (k.statements.map k.store)).binders) names) :
      names₀.Same k.body.binders names := same.mono fun x bound =>
    Walk.mem_binders_split.mpr ((List.mem_append.mp bound).imp id List.mem_cons.mp)
  have worker : g.1.val * k.record.localSize.toNat + l.1.val <
      k.record.numGroups.toNat * k.record.localSize.toNat := by
    refine Nat.lt_of_lt_of_le (Nat.add_lt_add_left l.1.isLt _) ?_
    exact (Nat.succ_mul _ _).ge.trans (Nat.mul_le_mul_right _ g.1.isLt)
  refine .split (n := k.count bindings) rfl rfl worker (plain ▸ List.not_mem_nil)
    (fun y _ => plain ▸ List.not_mem_nil) (fun names same => ?_) fun i below names same counter => ?_
  · obtain ⟨s, member⟩ := List.exists_mem_of_ne_nil _ accepted.nonempty
    obtain ⟨v, isVector, size⟩ := accepted.targets s member
    refine packedBound_number? accepted.bound (NumericType.isVectorWidth_pos accepted.packed) ?_
    rw [← size]
    refine known names (settled same) (.vector v) ?_ v.size List.mem_cons_self
    rw [← isVector]
    exact Operation.mem_nodes_target (accepted.statements ▸ member)
  · refine Statement.stores_pass { index := i } ⟨fun t addressed => ?_,
      fun t addressed => ?_, fun t addressed => ?_⟩ rfl accepted.stores
      (fun s => accepted.exists_vector) (fun s member leaf inside => known names (settled same) leaf ?_)
      fun s member leaf inside => ⟨⟨s, member, inside⟩, below⟩
    · cases addressed
      exact Term.number?_name counter
    · cases addressed
    · cases addressed
    · exact Operation.mem_nodes_statement (accepted.statements ▸ member) inside

/-- Every vector of a value is as long as the targets. -/
def Fits (op : Operation) (bindings : Bindings) : Prop :=
  ∀ s ∈ op.statements, ∀ y, s.target = .vector y → ∀ s' ∈ op.statements,
    ∀ x, .vector x ∈ s'.value.leaves → y.size.size bindings ≤ x.size.size bindings

/-- Where the operands fit, every leaf has the elements that are read. -/
theorem Accepted.has (accepted : Accepted op k.record k) (fits : Fits op bindings) {leaf : Expr}
    {point : Point} (reads : Reads k bindings leaf point) : leaf.Has k.width bindings point := by
  obtain ⟨⟨s, member, inside⟩, below⟩ := reads
  obtain ⟨y, isVector, size⟩ := accepted.targets s member
  obtain ⟨t, value, first, second, -⟩ := Statement.storeStep_eq_ok (accepted.stores s member)
  have long {v : VectorOperand} (inside : .vector v ∈ s.target.leaves ++ s.value.leaves) :
      k.size.size bindings ≤ v.size.size bindings := by
    rcases List.mem_append.mp inside with target | read
    · rw [isVector] at target
      cases List.mem_singleton.mp target
      rw [size]
    · rw [← size]
      exact fits s (accepted.statements ▸ member) y isVector s (accepted.statements ▸ member) v read
  have addressed := (List.mem_append.mp inside).elim (Expr.addressed_of_term first leaf)
    (Expr.addressed_of_term second leaf)
  rcases addressed with ⟨x, rfl⟩ | ⟨v, rfl, -⟩ | ⟨m, rfl, row⟩
  · trivial
  · exact VectorOperand.has_of_le rfl below (long inside)
  · exact absurd rfl row

/-- **The kernel of an accepted operation is orderly**, and where its operands fit, every leaf has the
elements that are read. -/
theorem generate_orderly {p : VectorTuning} {program : Program} (ok : generate p op = .ok program)
    {kernel : Kernel} (member : kernel ∈ program.kernels) (proper : kernel.Proper)
    (sized : kernel.Sized bindings) :
    ∃ reads, kernel.Orderly op bindings reads ∧ (Fits op bindings → ∀ leaf point,
      reads leaf point → leaf.Has p.simdWidth.toNat bindings point) := by
  obtain ⟨k, operands, sole, accepted, collected, kernels, arguments, scratch, geometry, code⟩ :=
    generate_eq_ok ok
  obtain rfl := accepted.record
  rw [kernels] at member
  obtain rfl := List.mem_singleton.mp member
  have serves : kernel.Serves op k.width operands bindings :=
    ⟨collected, fun name a found => arguments ▸ found, proper, sized⟩
  have arrays : kernel.arrays = [] := by
    rw [Kernel.arrays, scratch, if_pos rfl, List.append_nil, code, Parts.body,
      Walk.arrays_around_split]
    refine Code.arrays_ofSteps_nil fun step member => ?_
    obtain ⟨s, inside, rfl⟩ := List.mem_map.mp member
    obtain ⟨target, value, -, -, is⟩ := Statement.storeStep_eq_ok (accepted.stores s inside)
    rw [is]
    rfl
  refine ⟨Reads k bindings, .of_serves serves scratch ?_ ?_ ?_, fun fits leaf point => accepted.has fits⟩
  · refine .of_passes (launch k.record) (by rw [geometry]; rfl) fun g l => ?_
    rw [code]
    exact body_passes accepted (fun names same node inside => serves.known (code ▸ same) inside) g l
  · rintro leaf point ⟨⟨s, inside, leaves⟩, -⟩
    exact Operation.mem_nodes_statement (accepted.statements ▸ inside) leaves
  · intro x dims dims' one _
    rw [arrays] at one
    cases one

end VectorStatements

end TunedKernel
