/-
**Generated kernels use no name that does not resolve.**

* `VectorStatements.scoped_body`, `MatrixStatements.scoped_body`, `Reduction.scoped_partialBody`,
  `Reduction.scoped_finalBody`, `RowReduction.scoped_body`, `MatrixProduct.scoped_body` — the code of every
  kernel is scoped when the names of the operation are.
* `generateWith_scoped` — the code of the kernels of every kind is scoped in their arguments.
* `generateWith_resolved` — every identifier in their lines is an argument, declared before in the same or
  in an enclosing block, or one of the language; and every size of the operation is an argument.
-/

import TunedKernel.Proofs.Batch.Scoping
import TunedKernel.Proofs.Generation.LocalNames
import TunedKernel.Proofs.Reduction.Correctness

namespace TunedKernel

open TunedKernel.Text

variable {op : Operation} {program : Program} {scope : List String}

/-- What one code declares for each entry of a list, piece after piece. -/
theorem Code.Scoped.flatMap {β : Type} {entries : List β} {steps : β → List Step}
    (each : ∀ entry ∈ entries, (Code.ofSteps (steps entry)).Scoped scope) :
    (Code.ofSteps (entries.flatMap steps)).Scoped scope := by
  induction entries with
  | nil => trivial
  | cons entry rest ih =>
    rw [List.forall_mem_cons] at each
    rw [List.flatMap_cons, Code.ofSteps_append]
    exact each.1.append ((ih each.2).mono (List.subset_append_right _ _))

/-! ### Element-wise statements -/

/-- The code of a kernel of vector statements. -/
theorem VectorStatements.scoped_body {p : VectorTuning} {k : Parts} (accepted : Accepted op p k)
    (spelled : op.Spelled) (sub : op.names ⊆ scope) : k.body.Scoped scope := by
  obtain ⟨s, member⟩ := List.exists_mem_of_ne_nil _ accepted.nonempty
  obtain ⟨v, target, size⟩ := accepted.targets s member
  have node : .vector v ∈ op.nodes :=
    target ▸ Operation.mem_nodes_target (accepted.statements ▸ member)
  have extent := (spelled.within node sub).extent (x := v.size) (by simp [Expr.extents])
  have bound : k.bound.Scoped scope := (size ▸ extent).scoped_packedBound accepted.bound
  refine (Walk.scoped_split _ (by decide) 0 bound).around (.ofSteps fun store inside => ?_)
  obtain ⟨s, member, rfl⟩ := List.mem_map.mp inside
  have index : (Term.name "i").Scoped
      ((Walk.split k.record.strided "i" 0 k.bound).visible ++ scope) :=
    Term.scoped_name (by decide) (List.mem_append_left _ (Walk.mem_visible_split _ _))
  exact (Statement.scoped_storeStep spelled (accepted.statements ▸ member)
    (List.subset_append_of_subset_right _ sub) (Scope.Within.bare.withIndex index)
    (accepted.stores s member)).1

/-- The code of a kernel of matrix statements. -/
theorem MatrixStatements.scoped_body {p : MatrixTuning} {k : Parts} (accepted : Accepted op p k)
    (spelled : op.Spelled) (sub : op.names ⊆ scope) : k.body.Scoped scope := by
  obtain ⟨m, target, rows, cols⟩ := accepted.exists_matrix
  obtain ⟨s, inside, isMatrix⟩ := List.mem_map.mp target
  have node : (Expr.matrix m).Within scope :=
    spelled.within (isMatrix ▸ Operation.mem_nodes_target inside) sub
  have rowBound : k.rows.term.Scoped scope :=
    rows ▸ (node.extent m.logicalRows_mem_extents).scoped_term
  have colBound : k.cols.term.Scoped scope :=
    cols ▸ (node.extent m.logicalCols_mem_extents).scoped_term
  refine (Walk.scoped_split _ (by decide) 0 rowBound).around
    ((Walk.scoped_split _ (by decide) 1 (colBound.mono (List.subset_append_right _ _))).around
      (.ofSteps fun store inside => ?_))
  obtain ⟨s, member, rfl⟩ := List.mem_map.mp inside
  refine (Statement.scoped_storeStep spelled (accepted.statements ▸ member)
    (List.subset_append_of_subset_right _ (List.subset_append_of_subset_right _ sub))
    (Scope.Within.bare.withElement ?_ ?_) (accepted.stores s member)).1
  · exact Term.scoped_name (by decide)
      (List.mem_append_right _ (List.mem_append_left _ (Walk.mem_visible_split _ _)))
  · exact Term.scoped_name (by decide) (List.mem_append_left _ (Walk.mem_visible_split _ _))

/-! ### Reductions -/

namespace Reduction

variable {p : ReductionTuning} {k : Parts}

theorem declared_prologue (type : NumericType) (dims : List Nat) (folded : List Folded) :
    (prologue type dims folded).declared =
      folded.map (fun f => (f.buffer type dims).name) ++ ["lid"] := by
  rw [prologue, Code.ofSteps_append, Code.declared_append, Code.declared_map fun _ => rfl]
  rfl

theorem scoped_partialPlace {groups : Nat} {f : Folded} {group : Term} (temp : scratch ∈ scope)
    (number : group.Scoped scope) : (partialPlace groups f group).Scoped scope :=
  ⟨Term.scoped_name (by decide) temp, ⟨trivial, trivial⟩, number⟩

/-- The code of both kernels, around what a worker folds and what the first one does in the end. -/
theorem scoped_around (accepted : Accepted op p k) {fold : Code} {last : Folded → Step}
    (folds : fold.Scoped ((prologue k.type [k.lanes] k.folded).declared ++ scope))
    (sums : ∀ f ∈ k.folded, f.sumName ∈ fold.declared)
    (lasts : ∀ f ∈ k.folded,
      (last f).Scoped ((prologue k.type [k.lanes] k.folded).declared ++ scope)) :
    (k.around fold last).Scoped scope := by
  have buffer : ∀ f ∈ k.folded, (k.buffer f).name ∈
      (prologue k.type [k.lanes] k.folded).declared ++ scope := fun f member => by
    rw [declared_prologue]
    exact List.mem_append_left _ (List.mem_append_left _ (List.mem_map_of_mem member))
  have number : lane.Scoped ((prologue k.type [k.lanes] k.folded).declared ++ scope) := by
    refine Term.scoped_name (by decide) ?_
    rw [declared_prologue]
    simp
  obtain ⟨tree, silent⟩ := Tree.scoped_code accepted.tree (fun entry member => by
      obtain ⟨f, inside, rfl⟩ := List.mem_map.mp member
      exact ⟨f.isWord_buffer k.type [k.lanes], buffer f inside⟩) nofun number
  refine .append (.ofSteps fun s member => ?_) (folds.append (.append (.ofSteps fun s member => ?_)
    (.append (tree.mono ?_) (.ofGuard ?_ (.ofSteps fun s member => ?_)))))
  · rcases List.mem_append.mp member with array | lid
    · obtain ⟨f, inside, rfl⟩ := List.mem_map.mp array
      exact ⟨⟨k.type, rfl⟩, f.isWord_buffer k.type [k.lanes]⟩
    · obtain rfl := List.mem_singleton.mp lid
      exact ⟨trivial, by decide, trivial⟩
  · obtain ⟨f, inside, rfl⟩ := List.mem_map.mp member
    refine Folded.scoped_publish (List.mem_append_right _ (buffer f inside))
      (List.mem_append_left _ (sums f inside)) (List.forall_mem_singleton.mpr ?_)
    exact number.mono (List.subset_append_right _ _)
  · exact List.subset_append_of_subset_right _ (List.subset_append_right _ _)
  · exact ⟨number.mono (List.subset_append_of_subset_right _
      (List.subset_append_of_subset_right _ (List.subset_append_right _ _))), trivial⟩
  · obtain ⟨f, inside, rfl⟩ := List.mem_map.mp member
    exact (lasts f inside).mono (List.subset_append_of_subset_right _
      (List.subset_append_of_subset_right _ (List.subset_append_right _ _)))

theorem scoped_result {f : Folded} (member : f ∈ k.folded) :
    (Tree.result (k.buffer f) []).Scoped ((prologue k.type [k.lanes] k.folded).declared ++ scope) := by
  refine LocalMemory.scoped_access (f.isWord_buffer k.type [k.lanes]) ?_
    (List.forall_mem_singleton.mpr trivial)
  rw [declared_prologue]
  exact List.mem_append_left _ (List.mem_append_left _ (List.mem_map_of_mem member))

theorem isWord_accumulatorName (width : Nat) (f : Folded) : isWord (accumulatorName width f) := by
  unfold accumulatorName
  split
  · exact isWord_append_toString (by decide) _
  · exact f.isWord_sumName

/-- The variables that the first kernel starts. -/
theorem declared_accumulators (type : NumericType) (width : Nat) (folded : List Folded) :
    (Code.ofSteps (folded.map (declareAccumulator type width))).declared =
      folded.map (accumulatorName width) := by
  refine Code.declared_map (fun f => ?_) folded
  unfold declareAccumulator accumulatorName
  split <;> rfl

/-- The code that folds the worker's part of the elements. -/
theorem scoped_gather (accepted : Accepted op p k) (spelled : op.Spelled) (sub : op.names ⊆ scope) :
    k.gather.Scoped scope ∧ ∀ f ∈ k.folded, f.sumName ∈ k.gather.declared := by
  have statement {f : Folded} (member : f ∈ k.folded) : f.statement ∈ op.statements :=
    accepted.numbered.statements_eq ▸ List.mem_map_of_mem member
  have extent : k.extent.Within scope := by
    obtain ⟨f, member⟩ := List.exists_mem_of_ne_nil _ accepted.nonempty
    obtain ⟨v, found, same⟩ := accepted.extents f member
    have node := Expr.mem_nodes_of_vector?
      (accepted.numbered.products f member ▸ List.mem_singleton_self _) found
    exact same ▸ (spelled.within (Operation.mem_nodes_value (statement member) node) sub).extent
      (by simp [Expr.extents])
  have declares := declared_accumulators k.type k.width k.folded
  have packed {f : Folded} (member : f ∈ k.folded) {names : List String}
      (visible : k.folded.map (accumulatorName k.width) ⊆ names) :
      (Term.name (accumulatorName k.width f)).Scoped names :=
    Term.scoped_name (isWord_accumulatorName k.width f) (visible (List.mem_map_of_mem member))
  refine ⟨.append (.ofSteps fun s member => ?_) (.append ?_ (.flatMap fun f member => ?_)),
    fun f member => ?_⟩
  · obtain ⟨f, inside, rfl⟩ := List.mem_map.mp member
    unfold declareAccumulator
    split
    · refine ⟨accepted.packed, isWord_accumulatorName k.width f, ?_⟩
      exact ⟨⟨.packed k.type k.width, accepted.packed, rfl⟩, f.product.reduce.scoped_neutral k.type⟩
    · exact f.scoped_declareSum k.type
  · rw [declares]
    refine (Walk.scoped_split _ (by decide) 0 ((extent.scoped_packedBound accepted.bound).mono
      (List.subset_append_right _ _))).around (.ofSteps fun s member => ?_)
    obtain ⟨f, inside, rfl⟩ := List.mem_map.mp member
    refine Folded.scoped_accumulate (packed inside (List.subset_append_of_subset_right _
      (List.subset_append_left _ _))) ?_
    refine Product.scoped_term_of_mem spelled (statement inside)
      (List.subset_append_of_subset_right _ (List.subset_append_of_subset_right _ sub))
      (Scope.Within.bare.withIndex (Term.scoped_name (by decide) ?_))
      (accepted.numbered.products f inside ▸ List.mem_singleton_self _) (accepted.terms f inside)
    exact List.mem_append_left _ (Walk.mem_visible_split _ _)
  · rw [declares]
    have small {n : Nat} (less : n < k.width) : n < 16 := by
      have widths := accepted.packed
      simp only [NumericType.isVectorWidth, Bool.or_eq_true, beq_iff_eq] at widths
      omega
    unfold foldLanes
    split
    · next wide =>
      have lane {n : Nat} (less : n < k.width) {names : List String}
          (visible : k.folded.map (accumulatorName k.width) ⊆ names) :
          (Term.lane (.name (accumulatorName k.width f)) n).Scoped names :=
        ⟨⟨_, rfl⟩, packed member visible, small less⟩
      have visible : k.folded.map (accumulatorName k.width) ⊆
          (Walk.split k.record.strided "i" 0 k.bound |>.around (Code.ofSteps (k.folded.map fun f =>
            f.accumulate (.name (accumulatorName k.width f)) (k.term f)))).declared ++
              (k.folded.map (accumulatorName k.width) ++ scope) :=
        List.subset_append_of_subset_right _ (List.subset_append_left _ _)
      refine ⟨⟨rfl, f.isWord_sumName, lane (by omega) visible⟩, .ofSteps fun s found => ?_⟩
      obtain ⟨n, inside, rfl⟩ := List.mem_map.mp found
      have bounds := List.mem_range'_1.mp inside
      exact Folded.scoped_accumulate (Folded.scoped_sum List.mem_cons_self)
        (lane (by omega) (List.subset_cons_of_subset _ visible))
    · trivial
  · rw [Parts.gather, Code.declared_append, Code.declared_append, declares]
    by_cases wide : 1 < k.width
    · refine List.mem_append_right _ (List.mem_append_right _ ?_)
      rw [Code.declared_ofSteps, List.filterMap_flatMap]
      refine List.mem_flatMap.mpr ⟨f, member, ?_⟩
      rw [foldLanes, if_pos wide]
      exact List.mem_cons_self
    · refine List.mem_append_left _ (List.mem_map.mpr ⟨f, member, ?_⟩)
      exact if_neg wide

/-- The code of the first kernel. -/
theorem scoped_partialBody (accepted : Accepted op p k) (spelled : op.Spelled)
    (sub : op.names ⊆ scope) (temp : scratch ∈ scope) : k.partialBody.Scoped scope := by
  obtain ⟨folds, sums⟩ := scoped_gather accepted spelled
    (List.subset_append_of_subset_right (prologue k.type [k.lanes] k.folded).declared sub)
  exact scoped_around accepted folds sums fun f member =>
    ⟨scoped_partialPlace (List.mem_append_right _ temp) trivial, scoped_result member⟩

/-- The code of the second kernel. -/
theorem scoped_finalBody (accepted : Accepted op p k) (spelled : op.Spelled)
    (sub : op.names ⊆ scope) (temp : scratch ∈ scope) : k.finalBody.Scoped scope := by
  have sums : (Code.ofSteps (k.folded.map fun f => f.declareSum k.type)).declared =
      k.folded.map Folded.sumName := Code.declared_map (fun _ => rfl) k.folded
  refine scoped_around accepted (.append (.ofSteps fun s member => ?_) ?_) (fun f member => ?_)
    fun f member => ?_
  · obtain ⟨f, -, rfl⟩ := List.mem_map.mp member
    exact f.scoped_declareSum k.type
  · rw [sums, declared_prologue]
    refine (Walk.scoped_byGroup (by decide) (Term.scoped_name (by decide) (by simp)) 0 _).around
      (.ofSteps fun s member => ?_)
    obtain ⟨f, inside, rfl⟩ := List.mem_map.mp member
    refine Folded.scoped_accumulate (Folded.scoped_sum ?_) (scoped_partialPlace ?_ ?_)
    · exact List.mem_append_right _ (List.mem_append_left _ (List.mem_map_of_mem inside))
    · exact List.mem_append_right _ (List.mem_append_right _ (List.mem_append_right _ temp))
    · exact Term.scoped_name (by decide) List.mem_cons_self
  · rw [Parts.regather, Code.declared_append, sums]
    exact List.mem_append_left _ (List.mem_map_of_mem member)
  · exact (Statement.scoped_storeStep spelled
      (accepted.numbered.statements_eq ▸ List.mem_map_of_mem member)
      (List.subset_append_of_subset_right _ sub)
      (Scope.Within.bare.withProduct (scoped_result member)) (accepted.stores f member)).1

end Reduction

/-! ### Reductions of rows -/

namespace RowReduction

variable {p : RowTuning} {k : Parts}

/-- The code for one row of each worker. -/
theorem scoped_trip (accepted : Accepted op p k) (spelled : op.Spelled) (sub : op.names ⊆ scope)
    (buffers : ∀ f ∈ k.folded, (f.buffer k.type k.dims).name ∈ scope)
    (lanes : ["lid0", "lid1", k.outer] ⊆ scope) : k.trip.Scoped scope := by
  simp only [List.cons_subset, List.nil_subset, and_true] at lanes
  obtain ⟨lid0, lid1, row⟩ := lanes
  have statement {f : Folded} (member : f ∈ k.folded) : f.statement ∈ op.statements :=
    accepted.numbered.statements_eq ▸ List.mem_map_of_mem member
  have outer {names : List String} (visible : scope ⊆ names) : (Term.name k.outer).Scoped names :=
    Term.scoped_name (by cases turned : k.transposed <;> simp [Parts.outer, counters, turned] <;> decide)
      (visible row)
  have lane₀ {names : List String} (visible : scope ⊆ names) : (Term.name "lid0").Scoped names :=
    Term.scoped_name (by decide) (visible lid0)
  have lane₁ {names : List String} (visible : scope ⊆ names) : (Term.name "lid1").Scoped names :=
    Term.scoped_name (by decide) (visible lid1)
  have word : isWord k.inner := by
    cases turned : k.transposed <;> simp [Parts.inner, counters, turned] <;> decide
  obtain ⟨rows, cols⟩ : k.rows.Within scope ∧ k.cols.Within scope := by
    obtain ⟨f, member⟩ := List.exists_mem_of_ne_nil _ accepted.nonempty
    obtain ⟨m, found, rows, cols⟩ := accepted.shapes f member
    have inside := Expr.product_sub_nodes
      (accepted.numbered.products f member ▸ List.mem_singleton_self _) (Or.inl rfl)
      (Expr.mem_nodes_of_firstMatrix? found)
    have node := spelled.within (Operation.mem_nodes_value (statement member) inside) sub
    exact ⟨rows ▸ node.extent m.logicalRows_mem_extents, cols ▸ node.extent m.logicalCols_mem_extents⟩
  have inside {names : List String} (visible : scope ⊆ names) : k.inside.Scoped names :=
    ⟨outer visible, rows.scoped_term.mono visible⟩
  have declares : (Code.ofSteps (k.folded.map fun f => f.declareSum k.type)).declared =
      k.folded.map Folded.sumName := Code.declared_map (fun _ => rfl) k.folded
  have sums : scope ⊆ k.folded.map Folded.sumName ++ scope := List.subset_append_right _ _
  obtain ⟨tree, silent⟩ := Tree.scoped_code accepted.tree (fun entry member => by
      obtain ⟨f, found, rfl⟩ := List.mem_map.mp member
      exact ⟨f.isWord_buffer k.type k.dims, buffers f found⟩)
    (List.forall_mem_singleton.mpr (lane₀ (List.Subset.refl _))) (lane₁ (List.Subset.refl _))
  refine .append (.ofSteps fun s member => ?_) ?_
  · obtain ⟨f, -, rfl⟩ := List.mem_map.mp member
    exact f.scoped_declareSum k.type
  rw [declares]
  refine .append (.ofGuard (inside sums) ?_) (.append (.ofSteps fun s member => ?_)
    (.append (tree.mono ?_) (.append (.ofGuard ?_ (.ofSteps fun s member => ?_))
      ⟨trivial, trivial⟩)))
  · refine (Walk.scoped_strided word 1 (cols.scoped_term.mono sums)).around
      (.ofSteps fun s member => ?_)
    obtain ⟨f, found, rfl⟩ := List.mem_map.mp member
    have visible : scope ⊆ (Walk.strided k.inner 1 k.cols.term).visible ++
        (k.folded.map Folded.sumName ++ scope) := List.subset_append_of_subset_right _ sums
    have inner : (Term.name k.inner).Scoped ((Walk.strided k.inner 1 k.cols.term).visible ++
        (k.folded.map Folded.sumName ++ scope)) := Term.scoped_name word List.mem_cons_self
    refine Folded.scoped_accumulate (Folded.scoped_sum ?_) (Product.scoped_term_of_mem spelled
      (statement found) (List.Subset.trans sub visible)
      ((Scope.Within.bare.withIndex inner).withElement (outer visible) inner)
      (accepted.numbered.products f found ▸ List.mem_singleton_self _) (accepted.terms f found))
    exact List.mem_append_right _ (List.mem_append_left _ (List.mem_map_of_mem found))
  · obtain ⟨f, found, rfl⟩ := List.mem_map.mp member
    refine Folded.scoped_publish (sums (buffers f found))
      (List.mem_append_right _ (List.mem_append_left _ (List.mem_map_of_mem found))) ?_
    rw [List.forall_mem_cons, List.forall_mem_singleton]
    exact ⟨lane₀ sums, lane₁ sums⟩
  · exact List.subset_append_of_subset_right _ sums
  · exact ⟨⟨lane₁ (List.subset_append_of_subset_right _ (List.subset_append_of_subset_right _ sums)),
      trivial⟩, inside (List.subset_append_of_subset_right _
        (List.subset_append_of_subset_right _ sums))⟩
  · obtain ⟨f, found, rfl⟩ := List.mem_map.mp member
    have visible := List.subset_append_of_subset_right k.tree.declared
      (List.subset_append_of_subset_right (Code.ofSteps (k.folded.map fun f =>
        f.publish (f.buffer k.type k.dims) [.name "lid0", .name "lid1"])).declared sums)
    refine (Statement.scoped_storeStep spelled (statement found) (List.Subset.trans sub visible)
      ((Scope.Within.bare.withIndex (outer visible)).withProduct ?_) (accepted.stores f found)).1
    refine LocalMemory.scoped_access (f.isWord_buffer k.type k.dims) (visible (buffers f found)) ?_
    show ∀ t ∈ [Term.name "lid0", .number 0], _
    rw [List.forall_mem_cons, List.forall_mem_singleton]
    exact ⟨lane₀ visible, trivial⟩

/-- The code of a kernel that folds rows. -/
theorem scoped_body (accepted : Accepted op p k) (spelled : op.Spelled) (sub : op.names ⊆ scope) :
    k.body.Scoped scope := by
  have declares : k.prologue.declared =
      k.folded.map (fun f => (f.buffer k.type k.dims).name) ++ ["lid0", "lid1"] := by
    show (Code.ofSteps _ ++ (Code.ofSteps _ ++ Code.done)).declared = _
    rw [Code.declared_append, Code.declared_map fun _ => rfl]
    rfl
  have rows : k.rows.Within scope := by
    obtain ⟨f, member⟩ := List.exists_mem_of_ne_nil _ accepted.nonempty
    obtain ⟨m, found, same, -⟩ := accepted.shapes f member
    have inside := Expr.product_sub_nodes
      (accepted.numbered.products f member ▸ List.mem_singleton_self _) (Or.inl rfl)
      (Expr.mem_nodes_of_firstMatrix? found)
    exact same ▸ (spelled.within (Operation.mem_nodes_value
      (accepted.numbered.statements_eq ▸ List.mem_map_of_mem member) inside) sub).extent
      m.logicalRows_mem_extents
  refine .append (.append (.ofSteps fun s member => ?_) ?_)
    ((Walk.scoped_uniform ?_ ?_ 0 (rows.scoped_term.mono (List.subset_append_right _ _))).around
      (scoped_trip accepted spelled ?_ (fun f member => ?_) ?_))
  · obtain ⟨f, -, rfl⟩ := List.mem_map.mp member
    exact ⟨⟨k.type, rfl⟩, f.isWord_buffer k.type k.dims⟩
  · exact ⟨⟨trivial, by decide, trivial⟩, ⟨trivial, by decide, trivial⟩, trivial⟩
  · cases turned : k.transposed <;> simp [Parts.outer, counters, turned] <;> decide
  · cases turned : k.transposed <;> simp [Parts.outer, counters, turned] <;> decide
  · exact List.subset_append_of_subset_right _ (List.subset_append_of_subset_right _ sub)
  · rw [declares]
    exact List.mem_append_right _ (List.mem_append_left _
      (List.mem_append_left _ (List.mem_map_of_mem member)))
  · rw [declares]
    simp [Walk.visible, Walk.uniform, Step.declared?]

end RowReduction

/-! ### Matrix products -/

namespace MatrixProduct

/-- The names of the tiles in use, of a worker's numbers and registers, and of the operands are in
scope. -/
structure Equipped (op : Operation) (t : Tiling) (scope : List String) : Prop where
  operands : op.names ⊆ scope
  numbers : ["lid0", "lid1", "gm", "gn", "rC", "rA", "rB"] ⊆ scope
  left : t.record.stageLeft = true → t.left.name ∈ scope
  right : t.record.stageRight = true → t.right.name ∈ scope
  fetch : t.record.staged = true → ["fid0", "fid1"] ⊆ scope

theorem Equipped.mono {t : Tiling} {scope' : List String} (ready : Equipped op t scope)
    (sub : scope ⊆ scope') : Equipped op t scope' where
  operands := List.Subset.trans ready.operands sub
  numbers := List.Subset.trans ready.numbers sub
  left staged := sub (ready.left staged)
  right staged := sub (ready.right staged)
  fetch staged := List.Subset.trans (ready.fetch staged) sub

variable {p : ProductTuning} {t : Tiling} {problem : Problem} {target : MatrixOperand}
  {type : NumericType}

namespace Equipped

variable (ready : Equipped op (.of p type) scope)
include ready

theorem scoped_number {x : String} (word : isWord x)
    (known : x ∈ ["lid0", "lid1", "gm", "gn", "rC", "rA", "rB"]) : (v x).Scoped scope :=
  Term.scoped_name word (ready.numbers known)

theorem scoped_register {array row col : String} (word : isWord array)
    (known : array ∈ ["lid0", "lid1", "gm", "gn", "rC", "rA", "rB"]) (first : row ∈ scope)
    (second : col ∈ scope) (wordRow : isWord row) (wordCol : isWord col) :
    (register array (v row) (v col)).Scoped scope :=
  ⟨⟨ready.scoped_number word known, Term.scoped_name wordRow first⟩, Term.scoped_name wordCol second⟩

theorem scoped_blockRow (member : "m" ∈ scope) : (blockRow p).Scoped scope :=
  ⟨ready.scoped_number (by decide) (by simp), Term.scoped_name (by decide) member, trivial⟩

theorem scoped_blockCol (member : "n" ∈ scope) : (blockCol p).Scoped scope :=
  ⟨ready.scoped_number (by decide) (by simp), Term.scoped_name (by decide) member, trivial⟩

theorem scoped_resultRow (member : "m" ∈ scope) : (resultRow p).Scoped scope :=
  ⟨⟨ready.scoped_number (by decide) (by simp), ready.scoped_number (by decide) (by simp)⟩,
    Term.scoped_name (by decide) member, trivial⟩

theorem scoped_resultCol (member : "n" ∈ scope) : (resultCol p).Scoped scope :=
  ⟨⟨ready.scoped_number (by decide) (by simp), ready.scoped_number (by decide) (by simp)⟩,
    Term.scoped_name (by decide) member, trivial⟩

end Equipped

/-- A walk with a counter alone around a block. -/
theorem scoped_counted {counter : String} {n : Nat} {body : Code} (word : isWord counter)
    (block : body.Scoped (counter :: scope)) : ((Walk.counted counter n).around body).Scoped scope :=
  (Walk.scoped_counted word n).around block

/-- The declarations at the beginning, which make everything ready. -/
theorem scoped_prologue (sub : op.names ⊆ scope) : (prologue (.of p type) type).Scoped scope ∧
    Equipped op (.of p type) ((prologue (.of p type) type).declared ++ scope) := by
  have declares : (prologue (.of p type) type).declared =
      (Tiling.of p type).memories.map LocalMemory.name ++ (["lid0", "lid1", "gm", "gn"] ++
        ((if p.staged then ["flat", "fid0", "fid1"] else []) ++ ["rC", "rA", "rB"])) := by
    have memories : (Code.ofSteps ((Tiling.of p type).memories.map Step.declareLocal)).declared =
        (Tiling.of p type).memories.map LocalMemory.name := Code.declared_map (fun _ => rfl) _
    unfold prologue
    simp only [Code.ofSteps_append, Code.declared_append, memories, List.append_assoc]
    show _ ++ (_ ++ ((Code.ofSteps (if p.staged then _ else _)).declared ++ _)) = _
    cases p.staged <;> rfl
  constructor
  · unfold prologue
    simp only [Code.ofSteps_append, Code.append_assoc]
    refine .append (.ofSteps fun s member => ?_) ?_
    · obtain ⟨memory, inside, rfl⟩ := List.mem_map.mp member
      have tile : memory = (Tiling.of p type).left ∨ memory = (Tiling.of p type).right := by
        rcases List.mem_append.mp inside with left | right
        · exact Or.inl (List.mem_singleton.mp (List.mem_ite_nil_right.mp left).2)
        · exact Or.inr (List.mem_singleton.mp (List.mem_ite_nil_right.mp right).2)
      rcases tile with rfl | rfl
      · exact ⟨⟨type, rfl⟩, show isWord "lA" by decide⟩
      · exact ⟨⟨type, rfl⟩, show isWord "lB" by decide⟩
    · refine .append ⟨⟨trivial, by decide, trivial⟩, ⟨trivial, by decide, trivial⟩,
        ⟨trivial, by decide, trivial, trivial⟩, ⟨trivial, by decide, trivial, trivial⟩, trivial⟩
        (.append ?_ (.ofSteps fun s member => ?_))
      · show (Code.ofSteps (if p.staged then _ else _)).Scoped _
        cases p.staged
        · trivial
        · refine ⟨⟨trivial, by decide, ?_, ?_, trivial⟩, ⟨trivial, by decide, ?_, trivial⟩,
            ⟨trivial, by decide, ?_, trivial⟩, trivial⟩
          all_goals exact Term.scoped_name (by decide) (by simp [Step.declared?])
      · simp only [List.mem_cons, List.not_mem_nil, or_false] at member
        rcases member with rfl | rfl | rfl <;> exact ⟨rfl, by decide⟩
  · rw [declares]
    refine ⟨List.subset_append_of_subset_right _ sub, by simp, fun staged => ?_, fun staged => ?_, fun staged => ?_⟩
    · refine List.mem_append_left _ (List.mem_append_left _ (List.mem_map_of_mem ?_))
      exact List.mem_append_left _ (List.mem_ite_nil_right.mpr ⟨staged, List.mem_singleton_self _⟩)
    · refine List.mem_append_left _ (List.mem_append_left _ (List.mem_map_of_mem ?_))
      exact List.mem_append_right _ (List.mem_ite_nil_right.mpr ⟨staged, List.mem_singleton_self _⟩)
    · rw [if_pos (show p.staged = true from staged)]
      simp

/-- The code that fills a tile. -/
theorem scoped_fetch (ready : Equipped op t scope) (staged : t.record.staged = true)
    {further nearer : Nat} {into source : Term} (first : into.Scoped ("b" :: "a" :: scope))
    (second : source.Scoped ("b" :: "a" :: scope)) :
    (fetch t.record further nearer into source).Scoped scope := by
  obtain ⟨fid0, fid1⟩ : "fid0" ∈ scope ∧ "fid1" ∈ scope := by
    simpa only [List.cons_subset, List.nil_subset, and_true] using ready.fetch staged
  exact (Walk.scoped_cooperative (by decide) (Term.scoped_name (by decide) fid1) _ _).around
    ((Walk.scoped_cooperative (by decide)
      (Term.scoped_name (by decide) (List.mem_cons_of_mem _ fid0)) _ _).around
      ⟨⟨first, second⟩, trivial⟩)

variable (accepted : Accepted op problem target) (spelled : op.Spelled)
include accepted spelled

theorem scoped_fetchLeft (ready : Equipped op (.of p type) scope) (tile : "k0" ∈ scope)
    (staged : p.stageLeft = true) : (fetchLeft (.of p type) problem.lhs).Scoped scope := by
  have below : scope ⊆ "b" :: "a" :: scope :=
    List.subset_cons_of_subset _ (List.subset_cons_self _ _)
  have name {x : String} (word : isWord x) (member : x ∈ "b" :: "a" :: scope) :
      (v x).Scoped ("b" :: "a" :: scope) := Term.scoped_name word member
  have a := name (x := "a") (by decide) (by simp)
  have b := name (x := "b") (by decide) (by simp)
  have gm := name (x := "gm") (by decide) (below (ready.numbers (by simp)))
  have k0 := name (x := "k0") (by decide) (below tile)
  have node := spelled.within accepted.mem_of_left (List.Subset.trans ready.operands below)
  have slot {first second : Term} (one : first.Scoped ("b" :: "a" :: scope))
      (two : second.Scoped ("b" :: "a" :: scope)) :
      ((Tiling.of p type).left.access [first, second]).Scoped ("b" :: "a" :: scope) :=
    LocalMemory.scoped_access (show isWord "lA" by decide) (below (ready.left staged))
      (by simp [one, two])
  have both : (Tiling.of p type).record.staged = true := by
    show (p.stageLeft || p.stageRight) = true
    rw [staged, Bool.true_or]
  unfold fetchLeft
  simp only
  split
  · exact scoped_fetch ready both (slot a b) (MatrixOperand.scoped_element node ⟨gm, b⟩ ⟨k0, a⟩)
  · exact scoped_fetch ready both (slot b a) (MatrixOperand.scoped_element node ⟨gm, a⟩ ⟨k0, b⟩)

theorem scoped_fetchRight (ready : Equipped op (.of p type) scope) (tile : "k0" ∈ scope)
    (staged : p.stageRight = true) : (fetchRight (.of p type) problem.rhs).Scoped scope := by
  have below : scope ⊆ "b" :: "a" :: scope :=
    List.subset_cons_of_subset _ (List.subset_cons_self _ _)
  have name {x : String} (word : isWord x) (member : x ∈ "b" :: "a" :: scope) :
      (v x).Scoped ("b" :: "a" :: scope) := Term.scoped_name word member
  have a := name (x := "a") (by decide) (by simp)
  have b := name (x := "b") (by decide) (by simp)
  have gn := name (x := "gn") (by decide) (below (ready.numbers (by simp)))
  have k0 := name (x := "k0") (by decide) (below tile)
  have node := spelled.within accepted.mem_of_right (List.Subset.trans ready.operands below)
  have slot {first second : Term} (one : first.Scoped ("b" :: "a" :: scope))
      (two : second.Scoped ("b" :: "a" :: scope)) :
      ((Tiling.of p type).right.access [first, second]).Scoped ("b" :: "a" :: scope) :=
    LocalMemory.scoped_access (show isWord "lB" by decide) (below (ready.right staged))
      (by simp [one, two])
  have both : (Tiling.of p type).record.staged = true := by
    show (p.stageLeft || p.stageRight) = true
    rw [staged, Bool.or_true]
  unfold fetchRight
  simp only
  split
  · exact scoped_fetch ready both (slot b a) (MatrixOperand.scoped_element node ⟨k0, b⟩ ⟨gn, a⟩)
  · exact scoped_fetch ready both (slot a b) (MatrixOperand.scoped_element node ⟨k0, a⟩ ⟨gn, b⟩)

/-- The code of one step along the shared dimension. -/
theorem scoped_advance (ready : Equipped op (.of p type) scope) (tile : ["k0", "k"] ⊆ scope) :
    (advance (.of p type) problem).Scoped scope := by
  obtain ⟨k0, k⟩ : "k0" ∈ scope ∧ "k" ∈ scope := by
    simpa only [List.cons_subset, List.nil_subset, and_true] using tile
  have depth {names : List String} (sub : scope ⊆ names) (inner : "kk" ∈ names) :
      (v "k" + v "kk").Scoped names :=
    ⟨Term.scoped_name (by decide) (sub k), Term.scoped_name (by decide) inner⟩
  have shared {names : List String} (sub : scope ⊆ names) (inner : "kk" ∈ names) :
      (v "k0" + v "k" + v "kk").Scoped names :=
    ⟨⟨Term.scoped_name (by decide) (sub k0), Term.scoped_name (by decide) (sub k)⟩,
      Term.scoped_name (by decide) inner⟩
  have element {m : MatrixOperand} {row col : Term} {names : List String} (member : .matrix m ∈ op.nodes)
      (sub : scope ⊆ names) (first : row.Scoped names) (second : col.Scoped names) :
      (m.element row col).Scoped names :=
    MatrixOperand.scoped_element (spelled.within member (List.Subset.trans ready.operands sub)) first
      second
  refine .before ?_ rfl (.before ?_ rfl (.before ?_ rfl trivial))
  · have sub : scope ⊆ "m" :: "kk" :: scope :=
      List.subset_cons_of_subset _ (List.subset_cons_self _ _)
    have more := ready.mono sub
    refine scoped_counted (by decide) (scoped_counted (by decide) ⟨⟨?_, ?_⟩, trivial⟩)
    · exact more.scoped_register (by decide) (by simp) (by simp) (by simp) (by decide) (by decide)
    · split
      · next staged =>
        refine LocalMemory.scoped_access (show isWord "lA" by decide) (more.left staged) ?_
        rw [List.forall_mem_cons, List.forall_mem_singleton]
        exact ⟨depth sub (by simp), more.scoped_blockRow (by simp)⟩
      · exact element accepted.mem_of_left sub (more.scoped_resultRow (by simp)) (shared sub (by simp))
  · have sub : scope ⊆ "n" :: "kk" :: scope :=
      List.subset_cons_of_subset _ (List.subset_cons_self _ _)
    have more := ready.mono sub
    refine scoped_counted (by decide) (scoped_counted (by decide) ⟨⟨?_, ?_⟩, trivial⟩)
    · exact more.scoped_register (by decide) (by simp) (by simp) (by simp) (by decide) (by decide)
    · split
      · next staged =>
        refine LocalMemory.scoped_access (show isWord "lB" by decide) (more.right staged) ?_
        rw [List.forall_mem_cons, List.forall_mem_singleton]
        exact ⟨depth sub (by simp), more.scoped_blockCol (by simp)⟩
      · exact element accepted.mem_of_right sub (shared sub (by simp)) (more.scoped_resultCol (by simp))
  · have inner : scope ⊆ "n" :: "m" :: "kk" :: scope :=
      List.subset_cons_of_subset _ (List.subset_cons_of_subset _ (List.subset_cons_self _ _))
    have more := ready.mono inner
    have sum : (register "rC" (v "m") (v "n")).Scoped ("n" :: "m" :: "kk" :: scope) :=
      more.scoped_register (by decide) (by simp) (by simp) (by simp) (by decide) (by decide)
    have left : (register "rA" (v "kk") (v "m")).Scoped ("n" :: "m" :: "kk" :: scope) :=
      more.scoped_register (by decide) (by simp) (by simp) (by simp) (by decide) (by decide)
    have right : (register "rB" (v "kk") (v "n")).Scoped ("n" :: "m" :: "kk" :: scope) :=
      more.scoped_register (by decide) (by simp) (by simp) (by simp) (by decide) (by decide)
    exact scoped_counted (by decide) (scoped_counted (by decide) (scoped_counted (by decide)
      ⟨⟨sum, problem.reduce.scoped_combine sum (problem.combine.scoped_apply left right)⟩, trivial⟩))

/-- The code for one tile of the shared dimension. -/
theorem scoped_tileCode (ready : Equipped op (.of p type) scope) (tile : "k0" ∈ scope) :
    (tileCode (.of p type) problem).Scoped scope := by
  have only {condition : Bool} {code : Code} {names : List String}
      (inScope : condition = true → code.Scoped names) : (onlyIf condition code).Scoped names := by
    cases condition
    · trivial
    · exact inScope rfl
  have barrier {names : List String} : (onlyIf (Tiling.of p type).record.staged
      (Code.ofSteps [.barrier])).Scoped names := only fun _ => ⟨trivial, trivial⟩
  have silent {condition : Bool} {code : Code} (nothing : code.declared = []) :
      (onlyIf condition code).declared = [] := by
    cases condition
    · rfl
    · exact nothing
  have first : (fetchLeft (.of p type) problem.lhs).declared = [] := by
    unfold fetchLeft
    simp only
    split <;> rfl
  have second : (fetchRight (.of p type) problem.rhs).declared = [] := by
    unfold fetchRight
    simp only
    split <;> rfl
  refine .before (only fun staged => scoped_fetchLeft accepted spelled ready tile staged) (silent first) <|
    .before (only fun staged => scoped_fetchRight accepted spelled ready tile staged) (silent second) <|
      .before barrier (silent rfl) <| .before ((Walk.scoped_stepped (by decide) (show (Term.count _).Scoped _ from trivial) _).around
        (scoped_advance accepted spelled (ready.mono (List.subset_append_right _ _)) ?_)) rfl
          (.before barrier (silent rfl) trivial)
  exact List.cons_subset.mpr ⟨List.mem_append_right _ tile,
    List.cons_subset.mpr ⟨List.mem_cons_self, List.nil_subset _⟩⟩

/-- The code that carries out the statement. -/
theorem scoped_finish (ready : Equipped op (.of p type) scope) {store : Step}
    (stored : problem.statement.storeStep (resultScope type) = .ok store) :
    (finish p store).Scoped scope := by
  have sub : scope ⊆ "row" :: "n" :: "m" :: scope :=
    List.subset_cons_of_subset _ (List.subset_cons_of_subset _ (List.subset_cons_self _ _))
  have inner : scope ⊆ "n" :: "m" :: scope :=
    List.subset_cons_of_subset _ (List.subset_cons_self _ _)
  have begun := ready.mono inner
  have more := ready.mono (List.subset_cons_of_subset "col" sub)
  refine scoped_counted (by decide) (scoped_counted (by decide)
    ⟨⟨trivial, by decide, begun.scoped_resultRow (by simp)⟩,
      ⟨trivial, by decide, (ready.mono sub).scoped_resultCol (by simp)⟩, ?_, trivial⟩)
  refine (Statement.scoped_storeStep spelled accepted.mem_statements more.operands
    ((Scope.Within.bare.withElement ?_ ?_).withProduct ?_) stored).1
  · exact Term.scoped_name (by decide) (List.mem_cons_of_mem _ List.mem_cons_self)
  · exact Term.scoped_name (by decide) List.mem_cons_self
  · exact more.scoped_register (by decide) (by simp) (by simp) (by simp) (by decide) (by decide)

/-- The code of a kernel of matrix products. -/
theorem scoped_body (sub : op.names ⊆ scope) {store : Step}
    (stored : problem.statement.storeStep (resultScope type) = .ok store) :
    (body (.of p type) type problem store).Scoped scope := by
  obtain ⟨begun, ready⟩ : (prologue (.of p type) type).Scoped scope ∧
    Equipped op (.of p type) ((prologue (.of p type) type).declared ++ scope) := scoped_prologue sub
  have bound := ((spelled.within accepted.mem_of_left ready.operands).extent
    problem.lhs.logicalCols_mem_extents).scoped_term
  refine begun.append (.before ?_ rfl (.before ?_ rfl (.before ?_ rfl trivial)))
  · refine scoped_counted (by decide) (scoped_counted (by decide)
      ⟨⟨?_, problem.reduce.scoped_neutral type⟩, trivial⟩)
    exact (ready.mono (List.subset_cons_of_subset _ (List.subset_cons_self _ _))).scoped_register
      (by decide) (by simp) (by simp) (by simp) (by decide) (by decide)
  · exact (Walk.scoped_stepped (by decide) bound _).around
      (scoped_tileCode accepted spelled (ready.mono (List.subset_cons_self _ _)) List.mem_cons_self)
  · exact scoped_finish accepted spelled ready stored

end MatrixProduct

/-! ### Kernels of every kind -/

variable {kind : Operation.Kind} {record : (Table.ofKind kind).Record}

/-- The code of every kernel is scoped in its arguments. -/
theorem generateWith_scoped (spelled : op.Spelled)
    (generated : generateWith kind record op = .ok program) :
    ∀ kernel ∈ program.kernels, kernel.body.Scoped (kernel.arguments.map Argument.name) := by
  have passed {kernel : Kernel} (member : kernel ∈ program.kernels) :
      op.names ⊆ kernel.arguments.map Argument.name :=
    fun x => (generateWith_binds generated).passed kernel member x
  intro kernel member
  have sub := passed member
  match kind, record with
  | .vectorStatements, p =>
    obtain ⟨k, _, _, accepted, -, kernels, -, -, -, code⟩ :=
      VectorStatements.generate_eq_ok generated
    obtain rfl := List.mem_singleton.mp (kernels ▸ member)
    exact code ▸ VectorStatements.scoped_body accepted spelled sub
  | .matrixStatements, p =>
    obtain ⟨k, _, _, accepted, -, kernels, -, -, -, code⟩ :=
      MatrixStatements.generate_eq_ok generated
    obtain rfl := List.mem_singleton.mp (kernels ▸ member)
    exact code ▸ MatrixStatements.scoped_body accepted spelled sub
  | .reduction, p =>
    obtain ⟨k, _, _, _, accepted, -, -, kernels, both, -, -, first, second⟩ :=
      Reduction.generate_eq_ok generated
    rw [kernels] at member
    have temp : Reduction.scratch ∈ kernel.arguments.map Argument.name := by
      rw [(both kernel member).1]
      simp
    simp only [List.mem_cons, List.not_mem_nil, or_false] at member
    rcases member with rfl | rfl
    · exact first ▸ Reduction.scoped_partialBody accepted spelled sub temp
    · exact second ▸ Reduction.scoped_finalBody accepted spelled sub temp
  | .rowReduction false, p | .rowReduction true, p | .matrixVector transposed, p =>
    obtain ⟨k, _, _, -, accepted, -, kernels, -, -, -, code⟩ :=
      RowReduction.generateFor_eq_ok generated
    obtain rfl := List.mem_singleton.mp (kernels ▸ member)
    exact code ▸ RowReduction.scoped_body accepted spelled sub
  | .matrixProduct left right, p =>
    obtain ⟨problem, target, _, store, _, accepted, -, stored, kernels, -, -, -, code⟩ :=
      MatrixProduct.generate_eq_ok generated
    obtain rfl := List.mem_singleton.mp (kernels ▸ member)
    exact code ▸ MatrixProduct.scoped_body accepted spelled sub stored

/-- **Every name in a generated kernel resolves.** Where the names of operands and sizes are identifiers
and the literals are numerals, each identifier in a line of a kernel is the name of an argument, of a
variable declared before in the same or in an enclosing block or of the counter of an enclosing loop, or it
is one of the language. The symbol of every extent of the operation is an argument of every kernel. -/
theorem generateWith_resolved (spelled : op.Spelled)
    (generated : generateWith kind record op = .ok program) :
    ∀ kernel ∈ program.kernels, kernel.body.Resolved (kernel.arguments.map Argument.name) ∧
      ∀ node ∈ op.nodes, ∀ x, .symbol x ∈ node.extents → ⟨x, .size⟩ ∈ kernel.arguments := by
  obtain ⟨-, width, operands, collected, -, arguments⟩ := generateWith_operands generated
  intro kernel member
  refine ⟨(generateWith_scoped spelled generated kernel member).resolved, fun node inside x size => ?_⟩
  rw [arguments kernel member]
  exact List.mem_append_left _
    (List.mem_of_find?_eq_some ((collectArguments_find collected inside).2 x size))

/-- The names of the small batch are identifiers, and it has no literals. -/
theorem Reduction.spelled_smallBatch : Reduction.smallBatch.Spelled where
  names := by decide +kernel
  literals text member := by
    simp [Reduction.smallBatch, Operation.nodes, Expr.nodes, Expr.contract, Expr.add,
      Expr.reduce] at member

/-- The names in the kernels of the small batch resolve. -/
theorem generateWith_resolved_smallBatch : ∃ program,
    Reduction.smallBatch.Spelled ∧
      generateWith .reduction Reduction.smallRecord Reduction.smallBatch = .ok program ∧
      ∀ kernel ∈ program.kernels, kernel.body.Resolved (kernel.arguments.map Argument.name) ∧
        ⟨"count", .size⟩ ∈ kernel.arguments := by
  obtain ⟨program, generated, -⟩ := Reduction.exists_smallProgram
  replace generated : generateWith .reduction Reduction.smallRecord Reduction.smallBatch =
    .ok program := generated
  refine ⟨program, Reduction.spelled_smallBatch, generated, fun kernel member => ?_⟩
  obtain ⟨resolved, sizes⟩ :=
    generateWith_resolved Reduction.spelled_smallBatch generated kernel member
  exact ⟨resolved, sizes (.vector (Reduction.smallVector "left")) (by decide +kernel) "count"
    (by decide +kernel)⟩

end TunedKernel
