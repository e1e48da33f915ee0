/-
**When the loops of row reductions come to their ends.**

The groups stride over the rows, and the workers of a group over the columns of a row. They have to reach the
last row, and if there is a row at all, the last column as well.

* `Paced` — the workers reach the ends of both ranges.
* `body_counts`, `reaches_of_halts` — then the code of the kernel counts, and that is so if the first worker
  halts.
* `generateFor_terminates_iff` — the kernel of a batch terminates exactly if it is paced.
-/

import TunedKernel.Proofs.Generation.Halting
import TunedKernel.Proofs.RowReduction.Accesses

namespace TunedKernel.RowReduction

variable {op : Operation} {k : Parts} {kernel : Kernel} {bindings : Bindings} {w : Worker}
  {given : Names Unit} {sizes scope : List String} {after : Code}

/-- Workers reach the last row of a matrix, and its last column if it has a row. -/
def Paced (p : RowTuning) (op : Operation) (bindings : Bindings) : Prop :=
  ∀ s ∈ op.statements, ∀ product ∈ s.value.products, ∀ m, product.matrix? = some m →
    Reaches (p.numGroups0.toNat * p.localSize0.toNat) (m.logicalRows.size bindings) ∧
      (0 < m.logicalRows.size bindings →
        Reaches p.localSize1.toNat (m.logicalCols.size bindings))

/-- All matrices of a batch have the same rows and columns. -/
theorem Accepted.paced_iff (accepted : Accepted op k.record k) : Paced k.record op bindings ↔
    Reaches (k.record.numGroups0.toNat * k.record.localSize0.toNat) (k.rows.size bindings) ∧
      (0 < k.rows.size bindings → Reaches k.record.localSize1.toNat (k.cols.size bindings)) := by
  unfold Paced
  rw [accepted.numbered.forall_products]
  refine ⟨fun all => ?_, fun reaches f member m first => ?_⟩
  · obtain ⟨f, member⟩ := List.exists_mem_of_ne_nil _ accepted.nonempty
    obtain ⟨m, first, rows, cols⟩ := accepted.shapes f member
    rw [← rows, ← cols]
    exact all f member m first
  · obtain ⟨m', first', rows, cols⟩ := accepted.shapes f member
    cases first.symm.trans first'
    rw [rows, cols]
    exact reaches

/-- The bounds of the loops are sizes. -/
theorem Accepted.stands (accepted : Accepted op k.record k) (takes : kernel.Takes op bindings) :
    k.rows.term.Stands w (kernel.given bindings) kernel.sizes (k.rows.size bindings) ∧
      k.cols.term.Stands w (kernel.given bindings) kernel.sizes (k.cols.size bindings) := by
  obtain ⟨m, node, rows, cols⟩ := accepted.exists_matrix
  rw [← rows, ← cols]
  exact ⟨takes.stands node m.logicalRows_mem_extents, takes.stands node m.logicalCols_mem_extents⟩

/-! ### Code that counts -/

/-- The names of the counters and of the worker's place. -/
def Parts.places (k : Parts) : List String := [k.outer, k.outer ++ "_base", "lid1", "lid0"]

/-- They are told apart from the variables of the statements. -/
theorem sum_fresh (k : Parts) (f : Folded) : f.sumName ∉ k.inner :: k.places := by
  intro inside
  have letters : ∀ x ∈ k.inner :: k.places, initial x ∈ [some 'r', some 'c', some 'l'] := by
    unfold Parts.places Parts.outer Parts.inner
    cases k.transposed <;> decide
  have letter := letters _ inside
  rw [f.initial_sumName] at letter
  exact absurd letter (by decide)

/-- The base of a group's rows outlasts the code for a row. -/
theorem base_fresh (accepted : Accepted op k.record k) : k.outer ++ "_base" ∉ k.trip.binders := by
  intro bound
  rcases binders_trip accepted bound with inner | ⟨f, -, same⟩
  · have apart := counters_nodup k
    rw [inner] at apart
    simp at apart
  · refine sum_fresh k f (same ▸ ?_)
    exact List.mem_cons_of_mem _ (List.mem_cons_of_mem _ List.mem_cons_self)

/-- **The code for a row counts** if the workers of a group reach the last column. -/
theorem trip_counts (accepted : Accepted op k.record k)
    (rows : k.rows.term.Indexes sizes) {cols d : Nat} (workers : w.answer? .globalSize 1 = some d)
    (ends : k.cols.term.Stands w given sizes cols) (reaches : Reaches d cols) :
    k.trip.Counts w given sizes k.places := by
  have inside : k.inside.Decides (sizes ++ k.places) :=
    ⟨List.mem_append_right _ List.mem_cons_self, rows.mono fun x => List.mem_append_left _⟩
  have place : (Term.name "lid1").Indexes (sizes ++ k.places) := List.mem_append_right _
    (List.mem_cons_of_mem _ (List.mem_cons_of_mem _ List.mem_cons_self))
  have fresh (f : Folded) : f.sumName ∉ k.places :=
    fun member => sum_fresh k f (List.mem_cons_of_mem _ member)
  have assigned : (Code.ofSteps (k.folded.map fun f => f.accumulate f.sum (k.term f))).binders =
      k.folded.map Folded.sumName := Code.binders_assigns
  have counter : k.inner ∉ k.folded.map Folded.sumName := fun member => by
    obtain ⟨f, -, same⟩ := List.mem_map.mp member
    exact sum_fresh k f (same ▸ List.mem_cons_self)
  refine .map (fun f _ => Step.plain_value (fresh f)) ⟨inside, ?_, ?_⟩
  · exact .of_append_done (.strided workers ends reaches (assigned ▸ counter)
      (fun _ => .last fun f _ => Step.plain_assign (sum_fresh k f)) trivial)
  · refine .map (fun f _ => Step.plain_of_none (Step.binder?_store fun name => ?_))
      (.tree accepted.tree place ⟨⟨⟨place, trivial⟩, inside⟩, .last fun f member => ?_, nofun, trivial⟩)
    · exact Tree.access_ne_name (f.buffer k.type k.dims) [.name "lid0"] (.name "lid1") name
    · exact Step.plain_of_none (store_binder? accepted member)

/-- **The code of the kernel counts** if the workers reach the ends of both ranges. -/
theorem body_counts (accepted : Accepted op k.record k) (takes : kernel.Takes op bindings)
    (paced : Paced k.record op bindings) (g : (launch k.record).Group) (l : (launch k.record).Lane) :
    k.body.Counts ((launch k.record).worker g l) (kernel.given bindings) kernel.sizes [] := by
  obtain ⟨reaches, inner⟩ := accepted.paced_iff.mp paced
  obtain ⟨rows, cols⟩ := accepted.stands (w := (launch k.record).worker g l) takes
  rw [Parts.body, ← Code.append_done (Walk.around _ _)]
  show (Code.ofSteps (k.folded.map _) ++ (Code.ofSteps _ ++ Code.done) ++ _).Counts _ _ _ _
  rw [Code.append_assoc]
  refine .map (fun f _ => Step.plain_local List.not_mem_nil) ⟨show 0 < 3 by decide, show 1 < 3 by decide, ?_⟩
  refine .uniform (d := k.record.numGroups0.toNat * k.record.localSize0.toNat) rfl rows reaches
    (base_fresh accepted) (fun row => trip_counts accepted rows.indexes (d := k.record.localSize1.toNat)
      ?_ cols (inner row)) trivial
  exact congrArg some (Nat.one_mul _)

/-! ### Workers that halt -/

/-- A worker in the first row that halts has reached the last column. -/
theorem trip_reaches {names : Names Unit} {later : List Frame}
    {rows cols d : Nat} (workers : w.answer? .globalSize 1 = some d)
    (start : w.answer? .globalId 1 = some 0) (row : names k.outer = some (.index 0)) (some : 0 < rows)
    (above : k.rows.term.Stands w given sizes rows) (ends : k.cols.term.Stands w given sizes cols)
    (same : given.Same kernel.body.binders names) (code : kernel.body = k.body)
    (free : ∀ x ∈ sizes, x ∉ kernel.body.binders)
    (halts : Thread.Halts w ⟨.run k.trip :: later, names⟩) : Reaches d cols := by
  have active {x : String} (member : k.Active x) : x ∈ kernel.body.binders :=
    code ▸ mem_body_of_active member
  have assigned : (Code.ofSteps (k.folded.map fun f => f.accumulate f.sum (k.term f))).binders =
      k.folded.map Folded.sumName := Code.binders_assigns
  have sums {x : String} (member : x ∈ k.folded.map Folded.sumName) : k.Active x := by
    obtain ⟨f, inside, rfl⟩ := List.mem_map.mp member
    exact Or.inr ⟨f, inside, rfl⟩
  have apart {x : String} (member : x ∈ k.inner :: k.places) : x ∉ k.folded.map Folded.sumName := by
    intro sum
    obtain ⟨f, -, rfl⟩ := List.mem_map.mp sum
    exact sum_fresh k f member
  obtain ⟨names₁, same₁, halts⟩ := halts.append
  have declared : (Code.ofSteps (k.folded.map fun f => f.declareSum k.type)).binders =
      k.folded.map Folded.sumName := Code.binders_declares
  rw [declared] at same₁
  replace row : names₁ k.outer = Option.some (.index 0) :=
    (same₁ _ (apart (List.mem_cons_of_mem _ List.mem_cons_self))).trans row
  replace same : given.Same kernel.body.binders names₁ :=
    same.trans (same₁.mono fun x bound => active (sums bound))
  have inside : k.inside.decides? w names₁ = Option.some true := by
    obtain ⟨word, value⟩ := above.value
    have agree : ∀ x ∈ sizes, names₁ x = given x := fun x member => same x (free x member)
    rw [Parts.inside, Term.decides?, Term.unsigned?, row, above.indexes.unsigned_congr agree, value]
    exact congrArg Option.some (decide_eq_true some)
  replace halts := halts.guarded inside
  have first : Term.unsigned? w names₁ (.query .globalId 1) = Option.some (.bits64, 0) := by
    rw [Term.unsigned?, start]
    rfl
  refine (halts.loop (l := (Walk.strided k.inner 1 k.cols.term).loop) ⟨_, first⟩ rfl
    (Term.stands_query workers) ends same free (fun x bound => active ?_) ?_).1
  · replace bound : x ∈ k.inner :: (Code.ofSteps (k.folded.map fun f =>
      f.accumulate f.sum (k.term f))).binders := bound
    rw [assigned] at bound
    exact (List.mem_cons.mp bound).elim (fun here => Or.inl (here ▸ by simp)) sums
  · exact assigned ▸ apart List.mem_cons_self

/-- The first worker, if it halts, has reached the last row, and the last column if there is a row. -/
theorem reaches_of_halts (accepted : Accepted op k.record k) (takes : kernel.Takes op bindings)
    (code : kernel.body = k.body) {g : (launch k.record).Group} {l : (launch k.record).Lane}
    (row : g.1.val = 0 ∧ l.1.val = 0) (col : l.2.1.val = 0)
    (halts : (kernel.start (fun _ => ()) bindings).Halts ((launch k.record).worker g l)) :
    Paced k.record op bindings := by
  rw [accepted.paced_iff]
  obtain ⟨rows, cols⟩ := accepted.stands (w := (launch k.record).worker g l) takes
  have active {x : String} (member : k.Active x) : x ∈ kernel.body.binders :=
    code ▸ mem_body_of_active member
  rw [Kernel.start, code, Parts.body] at halts
  obtain ⟨names₁, same₁, halts⟩ := halts.append
  have settled : (kernel.given bindings).Same kernel.body.binders names₁ := same₁.mono fun x bound =>
    code ▸ Code.mem_binders_append.mpr (Or.inl bound)
  have start : (Walk.uniform k.outer 0 k.rows.term).loop.first.unsigned? ((launch k.record).worker g l)
      names₁ = some (.bits64, 0) := by
    show some (Word.bits64, g.1.val * k.record.localSize0.toNat % Word.bits64.limit) = _
    rw [row.1, Nat.zero_mul, Nat.zero_mod]
  have kept : k.outer ++ "_base" ∉ k.outer :: k.trip.binders := fun bound =>
    (List.mem_cons.mp bound).elim
      (fun same => absurd (String.append_eq_left_iff.mp same) (by decide)) (base_fresh accepted)
  obtain ⟨reaches, enters, -⟩ := halts.loop ⟨_, start⟩ rfl (Term.stands_query rfl) rows settled takes.free
    (fun x bound => active (active_of_binders accepted bound)) kept
  refine ⟨reaches, fun one => ?_⟩
  obtain ⟨later, halts⟩ := enters one
  -- The row of the first worker is the first one.
  have base : names₁.bind (k.outer ++ "_base") (.index 0) (k.outer ++ "_base") = some (.index 0) :=
    Names.bind_self ..
  replace settled := settled.bind (active (Or.inl List.mem_cons_self)) (.index 0)
  replace halts : Thread.Halts ((launch k.record).worker g l) ⟨.run (.step (.declare .index k.outer
      (.name (k.outer ++ "_base") + .query .localId 0)) k.trip) :: later,
      names₁.bind (k.outer ++ "_base") (.index 0)⟩ := halts
  generalize names₁.bind (k.outer ++ "_base") (.index 0) = names₂ at halts settled base
  have zero : ∃ word, Term.unsigned? ((launch k.record).worker g l) names₂
      (.binary .add (.name (k.outer ++ "_base")) (.query .localId 0)) = some (word, 0) := by
    have lane : Term.unsigned? ((launch k.record).worker g l) names₂ (.query .localId 0) =
        some (.bits64, 0) := congrArg (fun n => some (Word.bits64, n)) row.2
    rw [Term.unsigned?, Term.unsigned?, base, lane]
    exact ⟨.bits64, rfl⟩
  refine trip_reaches (d := k.record.localSize1.toNat) (congrArg some (Nat.one_mul _)) ?_
    (Names.bind_self ..) one rows cols (settled.bind (active (Or.inl (by simp))) _) code takes.free
    (halts.declare zero)
  show some (g.2.1.val * k.record.localSize1.toNat + l.2.1.val) = _
  rw [group_second, col, Nat.zero_mul]

/-- **The kernel of a batch terminates exactly if it is paced.** -/
theorem generateFor_terminates_iff {kind : Operation.Kind} {transposed : Bool} {demand : Demand}
    {p : RowTuning} {program : Program} (ok : generateFor kind transposed demand p op = .ok program)
    (valid : p.Valid) (hygienic : ∀ kernel ∈ program.kernels, kernel.Hygienic)
    (sized : ∀ kernel ∈ program.kernels, kernel.Sized bindings)
    (small : ∀ x n, bindings x = some n → n.toNat < 2 ^ 32) :
    (∀ kernel ∈ program.kernels, kernel.Terminates bindings) ↔ Paced p op bindings := by
  obtain ⟨k, operands, kernel, -, accepted, collected, kernels, arguments, -, geometry, code⟩ :=
    generateFor_eq_ok ok
  obtain rfl := accepted.record
  have sole : kernel ∈ program.kernels := by rw [kernels]; exact List.mem_cons_self
  have takes : kernel.Takes op bindings := ⟨⟨_, operands, collected, fun name a found => arguments ▸ found⟩,
    hygienic kernel sole, sized kernel sole, small⟩
  have shaped : kernel.geometry.shape? bindings = some (launch k.record) := by
    rw [geometry]
    rfl
  rw [kernels, List.forall_mem_singleton]
  refine takes.terminates_iff shaped (fun paced g l => code ▸ body_counts accepted takes paced g l)
    fun halts => reaches_of_halts accepted takes code ⟨rfl, rfl⟩ rfl (halts
      (⟨0, valid.numGroups0⟩, ⟨0, Nat.one_pos⟩, ⟨0, Nat.one_pos⟩)
      (⟨0, valid.localSize0⟩, ⟨0, valid.localSize1⟩, ⟨0, Nat.one_pos⟩))

end TunedKernel.RowReduction
