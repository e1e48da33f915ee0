/-
**What the kernels of a reduction access.**

* `Reads` — the leaves of the products are read at the packed elements, and the others are scalars.
* `gather_passes`, `regather_passes` — what a worker of either kernel accesses as it folds.
* `partial_passes`, `final_passes` — slots of the buffers, elements of the scratch buffer and leaves are
  all that a worker accesses.
* `generate_accesses` — the kernels of an accepted batch.
-/

import TunedKernel.Proofs.Batch.Accesses
import TunedKernel.Proofs.Reduction.Worker

namespace TunedKernel.Reduction

variable {op : Operation} {k : Parts} {bindings : Bindings} {arrays : List (String × List Nat)}
  {body : Code} {names₀ names : Names Unit} {groups lid : Nat}

/-- The points at which a leaf is read: those of the products at the packed elements, and scalars. -/
def Reads (k : Parts) (bindings : Bindings) (leaf : Expr) (point : Point) : Prop :=
  (∃ f ∈ k.folded, leaf ∈ f.product.leaves ∧ point.index < k.count bindings) ∨
    ∃ f ∈ k.folded, leaf ∈ f.statement.target.leaves ++ f.statement.value.leaves

/-- A kernel of an accepted batch with the arrays that it uses; the extents of its operands keep their
sizes. -/
structure Served (op : Operation) (k : Parts) (bindings : Bindings)
    (arrays : List (String × List Nat)) (body : Code) (names₀ : Names Unit) : Prop where
  valid : k.record.Valid
  accepted : Accepted op k.record k
  buffers : ∀ f ∈ k.folded, ((k.buffer f).name, [k.lanes]) ∈ arrays
  scratch : (Reduction.scratch, [k.folded.length * k.groups]) ∈ arrays
  known : ∀ names, names₀.Same body.binders names → ∀ node ∈ op.nodes, ∀ x ∈ node.extents,
    x.Known bindings names

namespace Served

variable (served : Served op k bindings arrays body names₀)

include served

theorem product_known (settled : names₀.Same body.binders names) {f : Folded} (member : f ∈ k.folded) :
    ∀ leaf ∈ f.product.leaves, ∀ x ∈ leaf.extents, x.Known bindings names := fun leaf inside =>
  served.known names settled leaf (Operation.mem_nodes_product
    (served.accepted.numbered.mem_statements member)
    (served.accepted.numbered.products f member ▸ List.mem_cons_self) inside)

theorem statement_known {f : Folded}
    (member : f ∈ k.folded) : ∀ leaf ∈ f.statement.target.leaves ++ f.statement.value.leaves,
      ∀ x ∈ leaf.extents, x.Known bindings names := by
  intro leaf inside x extent
  obtain ⟨s, rfl⟩ := served.accepted.exists_scalar member leaf inside
  cases extent

theorem bound_number? (settled : names₀.Same body.binders names) (w : Worker) :
    k.bound.number? w names = some (k.count bindings) := by
  obtain ⟨v, member, size⟩ := served.accepted.exists_vector
  refine packedBound_number? served.accepted.bound served.accepted.width_pos ?_
  rw [← size]
  exact served.known names settled (.vector v) member v.size List.mem_cons_self

end Served

/-- A position in the batch is below its length. -/
theorem Accepted.position_lt {p : ReductionTuning} (accepted : Accepted op p k) {f : Folded}
    (member : f ∈ k.folded) : f.position < k.folded.length := by
  have inside : f.position ∈ k.folded.map Folded.position := List.mem_map_of_mem member
  rw [accepted.numbered.positions_eq] at inside
  exact List.mem_range.mp inside

/-! ### What a worker accesses as it folds -/

/-- An element of the scratch buffer lies inside it. -/
theorem inside_partialPlace {w : Worker} (served : Served op k bindings arrays body names₀)
    {f : Folded} (member : f ∈ k.folded) {t : Term} (group : Nat)
    (number : t.number? w names = some group) (below : group < k.groups) :
    ∀ a ∈ (partialPlace k.groups f t).accesses,
      (Watch.of bindings arrays (Reads k bindings) w).allowed names a := by
  refine Watch.of_inside ⟨scratch, k.type.text, [k.folded.length * k.groups]⟩
    [.number f.position * .count k.groups + t] [f.position * k.groups + group]
    served.scratch (List.cons_ne_nil _ _) ?_ ?_
  · rw [List.mapM_cons, Term.number?_add (Term.number?_mul rfl rfl) number]
    rfl
  · have position := served.accepted.position_lt member
    have inside : f.position * k.groups + group < k.folded.length * k.groups := by
      refine Nat.lt_of_lt_of_le (Nat.add_lt_add_left below _) ?_
      rw [← Nat.succ_mul]
      exact Nat.mul_le_mul_right _ position
    simp [Term.inside, inside]

variable {g : (launch k.record groups).Group} {l : (launch k.record groups).Lane}

/-- **A worker of the first kernel accesses the leaves of the products** at packed elements. -/
theorem gather_passes (served : Served op k bindings arrays body names₀)
    {g : (launch k.record k.groups).Group} {l : (launch k.record k.groups).Lane}
    (settled : names₀.Same body.binders names) (sub : ∀ x ∈ k.gather.binders, x ∈ body.binders) :
    (Watch.of bindings arrays (Reads k bindings) ((launch k.record k.groups).worker g l)).Passes
      k.gather names fun _ => True := by
  refine .seq (.each fun s member _ _ => ?_) fun names₁ same₁ => .seq ?_ fun names₂ _ =>
    .each fun s member _ _ => ?_
  · -- The variables start from constants.
    obtain ⟨f, -, rfl⟩ := List.mem_map.mp member
    rw [declareAccumulator_eq]
    refine ⟨rfl, fun a inside => ?_⟩
    rw [Step.accesses] at inside
    replace inside : a ∈ (f.product.reduce.neutral k.type).accesses := by
      by_cases wide : 1 < k.width
      · rw [if_pos wide] at inside
        exact inside
      · rw [if_neg wide] at inside
        exact inside
    rw [Term.accesses_neutral] at inside
    cases inside
  · have worker : globalId g l < k.workers := by
      refine Nat.lt_of_lt_of_le (Nat.add_lt_add_left l.1.isLt _) ?_
      exact (Nat.succ_mul g.1 k.lanes).ge.trans (Nat.mul_le_mul_right _ g.1.isLt)
    have settled' (names' : Names Unit) (same : names₁.Same
        (k.walk.declared ++ "i" :: k.folded.map (accumulatorName k.width)) names') :
        names₀.Same body.binders names' := by
      rw [binders_declareAccumulators] at same₁
      refine settled.trans ((same₁.mono fun x bound => sub x ?_).trans (same.mono fun x bound =>
        sub x (mem_gather_of_walk bound)))
      exact mem_binders_gather.mpr (Or.inl bound)
    refine .split (x := globalId g l) (n := k.count bindings) rfl rfl worker ?_ ?_ ?_ ?_
    · rw [binders_accumulates]
      exact walk_fresh "i" (List.mem_append_right _ List.mem_cons_self)
    · rw [binders_accumulates]
      exact fun y declared => walk_fresh y (List.mem_append_left _ declared)
    · rw [binders_accumulates]
      exact fun names' same => served.bound_number? (settled' names' same) _
    · rw [binders_accumulates]
      intro i below names' same at'
      refine Folded.accumulates_pass fun f here names'' same'' => ?_
      have counter : names'' "i" = some (.index i) := ( same'' "i"
        (walk_fresh "i" (List.mem_append_right _ List.mem_cons_self))).trans at'
      refine Product.accesses_term (elementPoint i) ⟨?_, fun t row => ?_, fun t col => ?_⟩ rfl
        (served.accepted.terms f here) (served.product_known (settled' names'' (same.trans
          (same''.mono fun x bound => List.mem_append_right _ (List.mem_cons_of_mem _ bound)))) here)
        (fun leaf reads => Or.inl ⟨f, here, reads, below⟩)
      · rintro t addressed
        cases addressed
        exact Term.number?_name counter
      · cases row
      · cases col
  · obtain ⟨f, -, inner⟩ := List.mem_flatMap.mp member
    unfold foldLanes at inner
    split at inner
    · rcases List.mem_cons.mp inner with rfl | inner
      · exact ⟨rfl, fun a inside => absurd inside List.not_mem_nil⟩
      · obtain ⟨n, -, rfl⟩ := List.mem_map.mp inner
        refine ⟨rfl, fun a inside => ?_⟩
        rw [Folded.accumulate, Step.accesses, Term.accesses_combine] at inside
        cases inside
    · cases inner

/-- **A worker of the second kernel accesses elements of the scratch buffer** as it folds. -/
theorem regather_passes (served : Served op k bindings arrays body names₀) {w : Worker} {lid : Nat}
    (size : w.answer? .localSize 0 = some k.lanes) (placed : names "lid" = some (.index lid)) :
    (Watch.of bindings arrays (Reads k bindings) w).Passes k.regather names fun _ => True := by
  have sums : (Code.ofSteps (k.folded.map fun f => f.declareSum k.type)).binders =
      k.folded.map Folded.sumName := Code.binders_declares
  have assigned : (Code.ofSteps (k.folded.map fun f =>
      f.accumulate f.sum (partialPlace k.groups f (.name "i")))).binders =
        k.folded.map Folded.sumName := Code.binders_assigns
  have other {c : Char} {x : String} (letter : initial x = some c) (differ : c ≠ 's') :
      x ∉ k.folded.map Folded.sumName := by
    intro member
    obtain ⟨f, -, rfl⟩ := List.mem_map.mp member
    exact differ (Option.some.inj (letter.symm.trans f.initial_sumName))
  have fresh : "i" ∉ k.folded.map Folded.sumName := other (c := 'i') (by decide) (by decide)
  refine .seq Folded.declareSums_pass fun names₁ same₁ => ?_
  rw [sums] at same₁
  have lid₁ : names₁ "lid" = some (.index lid) :=
    (same₁ "lid" (other (c := 'l') (by decide) (by decide))).trans placed
  rw [Walk.around_plain rfl rfl]
  refine .loop (a := lid) (d := k.lanes) (b := k.groups)
    ⟨served.valid.localSize, fun names' same => ?_, fun _ _ => rfl, fun _ _ => size⟩ ?_ ?_
  · rw [assigned] at same
    refine Term.number?_name ((same "lid" fun member => ?_).trans lid₁)
    rcases List.mem_cons.mp member with equal | member
    · exact absurd equal (show "lid" ≠ "i" by decide)
    · exact other (c := 'l') (by decide) (by decide) member
  · rw [assigned]
    exact fresh
  · rintro i ⟨t, -, below⟩ names' same at'
    refine Folded.accumulates_pass fun f here names'' same'' => ?_
    exact inside_partialPlace served here _ (Term.number?_name (( same'' "i" fresh).trans at')) below

/-! ### All of a kernel -/

/-- The first slot of a buffer. -/
theorem inside_result (served : Served op k bindings arrays body names₀) {w : Worker} {f : Folded}
    (member : f ∈ k.folded) : ∀ a ∈ (Tree.result (k.buffer f) []).accesses,
      (Watch.of bindings arrays (Reads k bindings) w).allowed names a := by
  refine Watch.of_inside (k.buffer f) _ [0] (served.buffers f member) (List.cons_ne_nil _ _) rfl ?_
  show Term.inside [0] [k.lanes] = true
  simp [Term.inside, show 0 < k.lanes from served.valid.localSize]

/-- The code of either kernel keeps to its accesses, when what a worker folds and what the first one
does in the end do. -/
theorem around_passes {fold : Code} {last : Folded → Step}
    (served : Served op k bindings arrays (k.around fold last) names₀)
    {g : (launch k.record groups).Group} {l : (launch k.record groups).Lane}
    (initials : ∀ x ∈ fold.binders, initial x ∈ [some 'a', some 's', some 'i'])
    (folds : ∀ names, names₀.Same (k.around fold last).binders names →
      names "lid" = some (.index l.1) →
      (Watch.of bindings arrays (Reads k bindings) ((launch k.record groups).worker g l)).Passes fold
        names fun _ => True)
    (finishes : ∀ f ∈ k.folded, ∀ names, names₀.Same (k.around fold last).binders names →
      ((last f).names? ((launch k.record groups).worker g l) names).isSome ∧
        ∀ a ∈ (last f).accesses, (Watch.of bindings arrays (Reads k bindings)
          ((launch k.record groups).worker g l)).allowed names a) :
    (Watch.of bindings arrays (Reads k bindings) ((launch k.record groups).worker g l)).Passes
      (k.around fold last) names₀ fun _ => True := by
  have trees : ∀ b ∈ Folded.trees k.type [k.lanes] k.folded, (b.1.name, b.1.dims) ∈ arrays := by
    intro b member
    obtain ⟨f, here, rfl⟩ := List.mem_map.mp member
    exact served.buffers f here
  have inside {i : Nat} (below : i < k.lanes) : Term.inside [i] [k.lanes] = true := by
    simp [Term.inside, below]
  have sub {x : String} (bound : x ∈ (prologue k.type [k.lanes] k.folded).binders ∨
      x ∈ fold.binders ∨ x ∈ k.publish.binders ∨ x ∈ k.tree.binders ∨
      x ∈ (Parts.alone (k.folded.map last)).binders) : x ∈ (k.around fold last).binders := by
    rw [Parts.around]
    simpa only [Code.mem_binders_append] using bound
  have entered : (Watch.of bindings arrays (Reads k bindings)
      ((launch k.record groups).worker g l)).Passes (prologue k.type [k.lanes] k.folded) names₀
      fun names => names "lid" = some (.index l.1) := by
    rw [prologue, Code.ofSteps_append]
    refine .seq (.each fun s member _ _ => ?_) fun names₁ _ =>
      .step (List.forall_mem_nil _) rfl (.done (Names.bind_self ..))
    obtain ⟨f, -, rfl⟩ := List.mem_map.mp member
    exact ⟨rfl, List.forall_mem_nil _⟩
  refine .append (entered.weaken fun names₁ same₁ lid₁ => ?_)
  have settled₁ : names₀.Same (k.around fold last).binders names₁ :=
    same₁.mono fun x bound => sub (Or.inl bound)
  refine .seq (folds names₁ settled₁ lid₁) fun names₂ same₂ => ?_
  have settled₂ := settled₁.trans (same₂.mono fun x bound => sub (Or.inr (Or.inl bound)))
  have lid₂ : names₂ "lid" = some (.index l.1) :=
    (same₂ "lid" fun bound => absurd (initials _ bound) (by decide)).trans lid₁
  have published : k.publish.binders = [] := by
    show (Code.ofSteps (k.folded.map fun f =>
      f.publish (f.buffer k.type [k.lanes]) ([] ++ [lane]))).binders = []
    exact Folded.binders_publish
  refine .seq (Folded.publish_passes [] served.buffers rfl
    (Term.number?_name lid₂) (inside l.1.isLt)) fun names₃ same₃ => ?_
  obtain rfl : names₃ = names₂ := same₃.eq published
  refine .seq (Tree.code_passes served.accepted.tree trees rfl (Term.number?_name lid₂)
    fun b member i below => ?_) fun names₄ same₄ => ?_
  · obtain ⟨f, -, rfl⟩ := List.mem_map.mp member
    exact inside below
  obtain rfl := same₄.eq (Tree.binders_code served.accepted.tree)
  have decided : (Term.binary .equal lane (.number 0)).holds?
      ((launch k.record groups).worker g l) names₄ = some (decide (l.1.val = 0)) := by
    rw [Term.holds?, lane, Term.number?_name lid₂]
    rfl
  refine .guarded decided (fun _ => .each fun s member names' same => ?_) fun _ _ => .done trivial
  obtain ⟨f, here, rfl⟩ := List.mem_map.mp member
  refine finishes f here names' (settled₂.trans (same.mono fun x bound => sub ?_))
  exact Or.inr (Or.inr (Or.inr (Or.inr (List.mem_append_left _ bound))))

/-- **What a worker of the first kernel accesses.** -/
theorem partial_passes (served : Served op k bindings arrays k.partialBody names₀)
    (g : (launch k.record k.groups).Group) (l : (launch k.record k.groups).Lane) :
    (Watch.of bindings arrays (Reads k bindings) ((launch k.record k.groups).worker g l)).Passes
      k.partialBody names₀ fun _ => True := by
  refine around_passes served (fun x => initial_of_gather) (fun names settled lid =>
    gather_passes served settled fun x bound =>
      (mem_binders_partialBody served.accepted).mpr (Or.inr (Or.inr bound))) fun f member names _ => ?_
  refine ⟨rfl, fun a inside => ?_⟩
  rcases List.mem_append.mp inside with target | value
  · exact inside_partialPlace served member g.1 rfl g.1.isLt a target
  · exact inside_result served member a value

/-- **What a worker of the second kernel accesses.** -/
theorem final_passes (served : Served op k bindings arrays k.finalBody names₀)
    (g : (launch k.record 1).Group) (l : (launch k.record 1).Lane) :
    (Watch.of bindings arrays (Reads k bindings) ((launch k.record 1).worker g l)).Passes
      k.finalBody names₀ fun _ => True := by
  refine around_passes served (fun x => initial_of_regather) (fun names settled lid =>
    regather_passes served rfl lid) fun f member names settled => ⟨?_, ?_⟩
  · obtain ⟨target, value, -, -, same⟩ :=
      Statement.storeStep_eq_ok (served.accepted.stores f member)
    rw [same]
    rfl
  · refine Statement.accesses_storeStep {} ⟨fun t addressed => ?_, fun t addressed => ?_,
      fun t addressed => ?_⟩ (served.accepted.stores f member) (served.statement_known member)
      (fun leaf inside => Or.inr ⟨f, member, inside⟩) fun t addressed => ?_
    · cases addressed
    · cases addressed
    · cases addressed
    · cases addressed
      exact inside_result served member

/-! ### All of a program -/

/-- The arrays of either kernel are the buffers of the batch. -/
theorem arrays_around (accepted : Accepted op k.record k) {fold : Code} {last : Folded → Step}
    (folds : fold.arrays = []) (lasts : ∀ f ∈ k.folded, (last f).array? = none) :
    (k.around fold last).arrays = k.folded.map fun f => ((k.buffer f).name, [k.lanes]) := by
  have published : k.publish.arrays = [] := Code.arrays_ofSteps_nil fun s member => by
    obtain ⟨f, -, rfl⟩ := List.mem_map.mp member
    rfl
  have alone : (Parts.alone (k.folded.map last)).arrays = [] := by
    rw [Parts.alone, Code.arrays_ofGuard]
    refine Code.arrays_ofSteps_nil fun s member => ?_
    obtain ⟨f, inside, rfl⟩ := List.mem_map.mp member
    exact lasts f inside
  rw [Parts.around, Code.arrays_append, Code.arrays_append, Code.arrays_append, Code.arrays_append,
    folds, published, Tree.arrays_code accepted.tree, alone, prologue, Code.ofSteps_append,
    Code.arrays_append, Folded.arrays_declareLocals]
  exact (List.append_nil _).trans (List.append_nil _)

/-- Folding declares no array. -/
theorem arrays_gather : k.gather.arrays = [] := by
  have started : (Code.ofSteps (k.folded.map (declareAccumulator k.type k.width))).arrays = [] :=
    Code.arrays_ofSteps_nil fun s member => by
      obtain ⟨f, -, rfl⟩ := List.mem_map.mp member
      rw [declareAccumulator_eq]
      rfl
  have accumulated : k.accumulate.arrays = [] := by
    rw [Parts.accumulate, Parts.walk, Walk.arrays_around_split]
    refine Code.arrays_ofSteps_nil fun s member => ?_
    obtain ⟨f, -, rfl⟩ := List.mem_map.mp member
    rfl
  have lanes : (Code.ofSteps (k.folded.flatMap (foldLanes k.type k.width))).arrays = [] :=
    Code.arrays_ofSteps_nil fun s member => by
      obtain ⟨f, -, inside⟩ := List.mem_flatMap.mp member
      unfold foldLanes at inside
      split at inside
      · rcases List.mem_cons.mp inside with rfl | inside
        · rfl
        · obtain ⟨n, -, rfl⟩ := List.mem_map.mp inside
          rfl
      · cases inside
  rw [Parts.gather, Code.arrays_append, Code.arrays_append, started, accumulated, lanes]
  rfl

theorem arrays_regather : k.regather.arrays = [] := by
  rw [Parts.regather, Code.arrays_append, Walk.arrays_around_plain rfl rfl,
    Code.arrays_ofSteps_nil, Code.arrays_ofSteps_nil]
  · rfl
  · intro s member
    obtain ⟨f, -, rfl⟩ := List.mem_map.mp member
    rfl
  · intro s member
    obtain ⟨f, -, rfl⟩ := List.mem_map.mp member
    rfl

/-- Every vector of a product is as long as the one that the products are folded over. -/
def Fits (op : Operation) (bindings : Bindings) : Prop :=
  ∀ s ∈ op.statements, ∀ p ∈ s.value.products, ∀ y, p.vector? = some y →
    ∀ s' ∈ op.statements, ∀ p' ∈ s'.value.products, ∀ x, .vector x ∈ p'.leaves →
      y.size.size bindings ≤ x.size.size bindings

/-- Where the vectors of a batch fit, every leaf has the elements that are read. -/
theorem Accepted.has (accepted : Accepted op k.record k) (fits : Fits op bindings) {leaf : Expr}
    {point : Point} (reads : Reads k bindings leaf point) : leaf.Has k.width bindings point := by
  rcases reads with ⟨f, member, inside, below⟩ | ⟨f, member, inside⟩
  · have product (f : Folded) (member : f ∈ k.folded) : f.product ∈ f.statement.value.products :=
      accepted.numbered.products f member ▸ List.mem_cons_self
    obtain ⟨y, first, size⟩ := accepted.extents f member
    rcases Product.addressed_of_term (accepted.terms f member) leaf inside with
      ⟨s, rfl⟩ | ⟨v, rfl, -⟩ | ⟨m, rfl, row⟩
    · trivial
    · refine VectorOperand.has_of_le rfl below (size ▸ ?_)
      exact fits _ (accepted.numbered.mem_statements member) _ (product f member) y first
        _ (accepted.numbered.mem_statements member) _ (product f member) v inside
    · exact absurd rfl row
  · obtain ⟨s, rfl⟩ := accepted.exists_scalar member leaf inside
    trivial

/-- **The kernels of an accepted batch are orderly**, and where its vectors fit, every leaf has the
elements that are read. -/
theorem generate_orderly {p : ReductionTuning} {program : Program} (valid : p.Valid)
    (ok : generate p op = .ok program) {kernel : Kernel} (member : kernel ∈ program.kernels)
    (proper : kernel.Proper) (sized : kernel.Sized bindings) :
    ∃ reads, kernel.Orderly op bindings reads ∧ (Fits op bindings → ∀ leaf point,
      reads leaf point → leaf.Has p.simdWidth.toNat bindings point) := by
  obtain ⟨k, operands, first, second, accepted, collected, fresh, kernels, each, geometry, geometry',
    code, code'⟩ := generate_eq_ok ok
  obtain rfl := accepted.record
  rw [kernels] at member
  obtain ⟨arguments, scratched⟩ := each kernel member
  have serves : kernel.Serves op k.width operands bindings :=
    ⟨collected, fun name a found => arguments ▸ findArgument_append found _, proper, sized⟩
  have positive : k.folded.length * k.groups ≠ 0 := Nat.mul_ne_zero
    (fun none => accepted.nonempty (List.eq_nil_of_length_eq_zero none))
    (Nat.ne_of_gt valid.numGroups)
  refine ⟨Reads k bindings, ?_, fun fits leaf point => accepted.has fits⟩
  -- The arrays of a kernel are its buffers and the scratch buffer.
  have arrays : kernel.arrays = k.folded.map (fun f => ((k.buffer f).name, [k.lanes])) ++
      [(scratch, [k.folded.length * k.groups])] := by
    rw [Kernel.arrays, scratched, if_neg positive]
    simp only [List.mem_cons, List.not_mem_nil, or_false] at member
    rcases member with rfl | rfl
    · rw [code, Parts.partialBody, arrays_around accepted arrays_gather fun _ _ => rfl]
    · rw [code', Parts.finalBody, arrays_around accepted arrays_regather fun f inside => ?_]
      obtain ⟨target, value, -, -, same⟩ := Statement.storeStep_eq_ok (accepted.stores f inside)
      rw [same]
      rfl
  have served (body : Code) (is : kernel.body = body) : Served op k bindings kernel.arrays body
      (kernel.names (fun _ => ()) bindings) := by
    refine ⟨valid, accepted, fun f inside => ?_, ?_, fun names same node inside =>
      serves.known (is ▸ same) inside⟩
    · rw [arrays]
      exact List.mem_append_left _ (List.mem_map.mpr ⟨f, inside, rfl⟩)
    · rw [arrays]
      exact List.mem_append_right _ (List.mem_singleton_self _)
  refine ⟨?_, ?_, fun leaf inside point x n stored dims declared => ?_, fun x dims dims' one two => ?_⟩
  · simp only [List.mem_cons, List.not_mem_nil, or_false] at member
    rcases member with rfl | rfl
    · refine .of_passes (launch k.record k.groups) (by rw [geometry]; rfl) fun g l => ?_
      rw [code]
      exact partial_passes (served _ code) g l
    · refine .of_passes (launch k.record 1) (by rw [geometry']; rfl) fun g l => ?_
      rw [code']
      exact final_passes (served _ code') g l
  · rintro leaf point (⟨f, inside, leaves, -⟩ | ⟨f, inside, leaves⟩)
    · exact Operation.mem_nodes_product (accepted.numbered.mem_statements inside)
        (accepted.numbered.products f inside ▸ List.mem_cons_self) leaves
    · exact Operation.mem_nodes_statement (accepted.numbered.mem_statements inside) leaves
  · rw [Kernel.arrays, List.mem_append] at declared
    rcases declared with declared | declared
    · exact serves.foreign inside stored dims declared
    · rw [scratched, if_neg positive] at declared
      cases List.mem_singleton.mp declared
      obtain ⟨role, named⟩ := Expr.role?_of_place? stored
      have found := (collectArguments_find collected inside).1 role scratch named
      exact fresh _ (List.mem_of_find?_eq_some found) rfl
  · have buffer {dims : List Nat} (member : (x, dims) ∈ kernel.arrays) :
        initial x = some 'b' ∧ dims = [k.lanes] ∨
          x = scratch ∧ dims = [k.folded.length * k.groups] := by
      rw [arrays, List.mem_append] at member
      rcases member with buffers | last
      · obtain ⟨f, -, same⟩ := List.mem_map.mp buffers
        cases same
        exact Or.inl ⟨f.initial_buffer .., rfl⟩
      · cases List.mem_singleton.mp last
        exact Or.inr ⟨rfl, rfl⟩
    rcases buffer one with ⟨letter, rfl⟩ | ⟨rfl, rfl⟩ <;>
      rcases buffer two with ⟨letter', rfl⟩ | ⟨is, rfl⟩
    · rfl
    · rw [is] at letter
      exact absurd letter (by decide)
    · exact absurd letter' (by decide)
    · rfl

end TunedKernel.Reduction
