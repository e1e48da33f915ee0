/-
**When the loops of reductions come to their ends.**

The workers of the first kernel may stride over the packed elements, and those of the second one stride over
the partial values of the groups, which are as many as the record says.

* `Paced` — the workers reach the ends of both ranges.
* `partialBody_counts`, `finalBody_counts` — then the code of both kernels counts.
* `partial_reaches`, `final_reaches` — that is so if the first worker of each kernel halts.
* `generate_terminates_iff` — the kernels of a batch terminate exactly if it is paced.
-/

import TunedKernel.Proofs.Generation.Halting
import TunedKernel.Proofs.Reduction.Worker

namespace TunedKernel.Reduction

variable {op : Operation} {k : Parts} {kernel : Kernel} {bindings : Bindings} {w : Worker}
  {given : Names Unit} {sizes scope : List String} {after : Code}

/-- Workers that stride over the packed elements of a vector reach the end of the range, and the workers of
a group reach the last partial value. -/
def Paced (p : ReductionTuning) (op : Operation) (bindings : Bindings) : Prop :=
  (p.strided = true → ∀ s ∈ op.statements, ∀ product ∈ s.value.products, ∀ v,
    product.vector? = some v →
      Reaches (p.numGroups.toNat * p.localSize.toNat) (v.size.size bindings / p.simdWidth.toNat)) ∧
    Reaches p.localSize.toNat p.numGroups.toNat

/-- All products of a batch have the same extent. -/
theorem Accepted.paced_iff (accepted : Accepted op k.record k) : Paced k.record op bindings ↔
    (k.record.strided = true →
      Reaches (k.groups * k.lanes) (k.extent.size bindings / k.width)) ∧ Reaches k.lanes k.groups := by
  refine and_congr_left fun _ => forall_congr' fun strided => ?_
  rw [accepted.numbered.forall_products]
  refine ⟨fun all => ?_, fun reaches f member v first => ?_⟩
  · obtain ⟨f, member⟩ := List.exists_mem_of_ne_nil _ accepted.nonempty
    obtain ⟨v, first, size⟩ := accepted.extents f member
    rw [← size]
    exact all f member v first
  · obtain ⟨v', first', size⟩ := accepted.extents f member
    cases first.symm.trans first'
    rw [size]
    exact reaches

/-! ### Code that counts -/

/-- The prologue declares the worker's number. -/
theorem prologue_counts (further : after.Counts w given sizes ["lid"]) :
    (prologue k.type [k.lanes] k.folded ++ after).Counts w given sizes [] := by
  rw [prologue, Code.ofSteps_append, Code.append_assoc]
  exact .map (fun f _ => Step.plain_local List.not_mem_nil) ⟨Nat.zero_lt_succ 2, further⟩

/-- What the workers of a group do with their sums. -/
theorem last_counts (accepted : Accepted op k.record k) {last : Folded → Step}
    (plain : ∀ f ∈ k.folded, (last f).binder? = none) (inside : "lid" ∈ scope) :
    (k.publish ++ (k.tree ++ Parts.alone (k.folded.map last))).Counts w given sizes scope := by
  have place : lane.Indexes (sizes ++ scope) := List.mem_append_right _ inside
  refine .map (fun f _ => Step.plain_of_none (Step.binder?_store fun name => ?_)) ?_
  · exact Tree.access_ne_name (k.buffer f) [] lane name
  · refine .tree accepted.tree place ⟨⟨place, trivial⟩, .last fun f member => ?_, trivial⟩
    exact Step.plain_of_none (plain f member)

/-- The variables are told apart from indices by their first letters. -/
theorem variable_fresh (letters : ∀ x ∈ scope, initial x ∈ [some 'l', some 'i']) {x : String}
    (first : initial x ∈ [some 'a', some 's']) : x ∉ scope := by
  intro inside
  have both : ∀ c ∈ [some 'a', some 's'], c ∉ [some 'l', some 'i'] := by decide
  exact both _ first (letters x inside)

theorem sum_fresh (letters : ∀ x ∈ scope, initial x ∈ [some 'l', some 'i']) (f : Folded) :
    f.sumName ∉ scope :=
  variable_fresh letters (f.initial_sumName ▸ List.mem_cons_of_mem _ List.mem_cons_self)

/-- The bound of the loop over the packed elements is made of sizes. -/
theorem Accepted.bound_stands (accepted : Accepted op k.record k) (takes : kernel.Takes op bindings) :
    k.bound.Stands w (kernel.given bindings) kernel.sizes (k.extent.size bindings / k.width) := by
  obtain ⟨v, node, size⟩ := accepted.exists_vector
  refine packedBound_stands accepted.bound (NumericType.isVectorWidth_pos accepted.packed) ?_
  rw [← size]
  exact takes.stands node List.mem_cons_self

/-- **The code of the first kernel counts** if its workers reach the end of the range. -/
theorem partialBody_counts (accepted : Accepted op k.record k) (takes : kernel.Takes op bindings)
    (reaches : k.record.strided = true →
      Reaches (k.groups * k.lanes) (k.extent.size bindings / k.width))
    (g : (launch k.record k.groups).Group) (l : (launch k.record k.groups).Lane) :
    k.partialBody.Counts ((launch k.record k.groups).worker g l) (kernel.given bindings) kernel.sizes
      [] := by
  have lid : ∀ x ∈ ["lid"], initial x ∈ [some 'l', some 'i'] := by decide
  have letters {more : List String} (sub : ∀ x ∈ more, x ∈ ["lid"] ∨ x ∈ k.walk.declared) :
      ∀ x ∈ more, initial x ∈ [some 'l', some 'i'] := by
    intro x member
    rcases sub x member with place | declared
    · exact lid x place
    · obtain ⟨word, -, rfl⟩ := Walk.mem_declared_split declared
      rw [initial_append (c := 'i') (by decide)]
      decide
  refine prologue_counts ?_
  rw [Parts.gather, Code.append_assoc, Code.append_assoc]
  refine .map (fun f _ => ?_) (.split (d := k.groups * k.lanes) rfl (accepted.bound_stands takes)
    reaches ?_ (fun _ more sub => ?_) fun more kept sub => ?_)
  · rw [declareAccumulator_eq]
    exact Step.plain_value (variable_fresh lid (initial_accumulatorName k.width f))
  · rw [binders_accumulates]
    exact walk_fresh
  · refine .last fun f _ => Step.plain_assign ?_
    refine variable_fresh (fun x member => ?_) (initial_accumulatorName k.width f)
    rcases List.mem_cons.mp member with rfl | member
    · decide
    · exact letters sub x member
  · refine .steps (fun s member => ?_) (last_counts accepted (fun f _ => rfl) (kept List.mem_cons_self))
    obtain ⟨f, -, inside⟩ := List.mem_flatMap.mp member
    have fresh := sum_fresh (letters sub) f
    unfold foldLanes at inside
    split at inside
    · rcases List.mem_cons.mp inside with rfl | inside
      · exact Step.plain_value fresh
      · obtain ⟨n, -, rfl⟩ := List.mem_map.mp inside
        exact Step.plain_assign fresh
    · cases inside

/-- **The code of the second kernel counts** if the workers of a group reach the last partial value. -/
theorem finalBody_counts (accepted : Accepted op k.record k) (reaches : Reaches k.lanes k.groups)
    (g : (launch k.record 1).Group) (l : (launch k.record 1).Lane) :
    k.finalBody.Counts ((launch k.record 1).worker g l) given sizes [] := by
  have lid : ∀ x ∈ ["lid"], initial x ∈ [some 'l', some 'i'] := by decide
  have assigned : (Code.ofSteps (k.folded.map fun f =>
      f.accumulate f.sum (partialPlace k.groups f (.name "i")))).binders =
        k.folded.map Folded.sumName := Code.binders_assigns
  refine prologue_counts ?_
  rw [Parts.regather, Code.append_assoc]
  refine .map (fun f _ => Step.plain_value (sum_fresh lid f)) (.byGroup (d := k.lanes) rfl
    (List.mem_append_right _ List.mem_cons_self) reaches ?_ ?_
    (last_counts accepted (fun f => store_binder? accepted) List.mem_cons_self))
  · rw [assigned]
    intro counter
    obtain ⟨f, -, same⟩ := List.mem_map.mp counter
    have letter := f.initial_sumName
    rw [same] at letter
    exact absurd letter (by decide)
  · exact .last fun f _ => Step.plain_assign (sum_fresh (by decide) f)

/-! ### Workers that halt -/

/-- The first worker of a group goes on behind the prologue as number zero. -/
theorem prologue_halts {groups : Nat} {g : (launch k.record groups).Group}
    {l : (launch k.record groups).Lane} (first : l.1.val = 0) {rest : List Frame}
    (halts : Thread.Halts ((launch k.record groups).worker g l)
      ⟨.run (prologue k.type [k.lanes] k.folded ++ after) :: rest, given⟩) :
    ∃ names, given.Same (prologue k.type [k.lanes] k.folded).binders names ∧
      names "lid" = some (.index 0) ∧
      Thread.Halts ((launch k.record groups).worker g l) ⟨.run after :: rest, names⟩ := by
  rw [prologue, Code.ofSteps_append, Code.append_assoc] at halts
  obtain ⟨names, same, halts⟩ := halts.append
  refine ⟨names.bind "lid" (.index 0), ?_, Names.bind_self .., halts.declare ⟨.bits64, ?_⟩⟩
  · rw [prologue, Code.ofSteps_append]
    refine (same.mono fun x bound => Code.mem_binders_append.mpr (Or.inl bound)).bind ?_ _
    exact Code.mem_binders_append.mpr (Or.inr List.mem_cons_self)
  · exact congrArg (fun n => some (Word.bits64, n)) first

/-- The first worker of the first kernel, if it strides and halts, has reached the end of the range. -/
theorem partial_reaches (accepted : Accepted op k.record k) (takes : kernel.Takes op bindings)
    (code : kernel.body = k.partialBody) {g : (launch k.record k.groups).Group}
    {l : (launch k.record k.groups).Lane} (first : g.1.val = 0 ∧ l.1.val = 0)
    (halts : (kernel.start (fun _ => ()) bindings).Halts ((launch k.record k.groups).worker g l))
    (strided : k.record.strided = true) :
    Reaches (k.groups * k.lanes) (k.extent.size bindings / k.width) := by
  have walk : k.walk = Walk.strided "i" 0 k.bound := by
    rw [Parts.walk, strided]
    rfl
  have bound {x : String} (member : x ∈ k.gather.binders) : x ∈ kernel.body.binders :=
    code ▸ (mem_binders_partialBody accepted).mpr (Or.inr (Or.inr member))
  rw [Kernel.start, code] at halts
  obtain ⟨names₁, same₁, -, halts⟩ := prologue_halts first.2 halts
  rw [Parts.gather, Parts.accumulate, walk, Code.append_assoc, Code.append_assoc] at halts
  obtain ⟨names₂, same₂, halts⟩ := halts.append
  have start : Term.unsigned? ((launch k.record k.groups).worker g l) names₂ (.query .globalId 0) =
      some (.bits64, 0) := by
    show some (Word.bits64, g.1.val * k.record.localSize.toNat + l.1.val) = _
    rw [first.1, first.2, Nat.zero_mul]
  have settled : (kernel.given bindings).Same kernel.body.binders names₂ := by
    refine (same₁.mono fun x member => ?_).trans (same₂.mono fun x member => ?_)
    · rw [code]
      exact Code.mem_binders_append.mpr (Or.inl member)
    · rw [binders_declareAccumulators] at member
      exact bound (mem_binders_gather.mpr (Or.inl member))
  refine (halts.loop (l := (Walk.strided "i" 0 k.bound).loop) ⟨_, start⟩ rfl (Term.stands_query rfl)
    (accepted.bound_stands takes) settled takes.free (fun x member => bound ?_) ?_).1
  · replace member : x ∈ "i" :: (Code.ofSteps (k.folded.map fun f =>
      f.accumulate (.name (accumulatorName k.width f)) (k.term f))).binders := member
    rw [binders_accumulates] at member
    exact mem_gather_of_walk (List.mem_append_right _ member)
  · show "i" ∉ (Code.ofSteps (k.folded.map fun f =>
      f.accumulate (.name (accumulatorName k.width f)) (k.term f))).binders
    rw [binders_accumulates]
    exact walk_fresh "i" (List.mem_append_right _ List.mem_cons_self)

/-- The first worker of the second kernel, if it halts, has reached the last partial value. -/
theorem final_reaches (accepted : Accepted op k.record k) (takes : kernel.Takes op bindings)
    (code : kernel.body = k.finalBody) {g : (launch k.record 1).Group} {l : (launch k.record 1).Lane}
    (first : l.1.val = 0)
    (halts : (kernel.start (fun _ => ()) bindings).Halts ((launch k.record 1).worker g l)) :
    Reaches k.lanes k.groups := by
  have assigned : (Code.ofSteps (k.folded.map fun f =>
      f.accumulate f.sum (partialPlace k.groups f (.name "i")))).binders =
        k.folded.map Folded.sumName := Code.binders_assigns
  have bound {x : String} (member : x ∈ k.regather.binders) : x ∈ kernel.body.binders :=
    code ▸ (mem_binders_finalBody accepted).mpr (Or.inr (Or.inr member))
  have letter {x : String} (member : x ∈ k.folded.map Folded.sumName) : initial x = some 's' := by
    obtain ⟨f, -, rfl⟩ := List.mem_map.mp member
    exact f.initial_sumName
  rw [Kernel.start, code] at halts
  obtain ⟨names₁, same₁, lid, halts⟩ := prologue_halts first halts
  have declared : (Code.ofSteps (k.folded.map fun f => f.declareSum k.type)).binders =
      k.folded.map Folded.sumName := Code.binders_declares
  rw [Parts.regather, Code.append_assoc] at halts
  obtain ⟨names₂, same₂, halts⟩ := halts.append
  rw [declared] at same₂
  have start : Term.unsigned? ((launch k.record 1).worker g l) names₂ lane = some (.bits32, 0) := by
    rw [lane, Term.unsigned?, same₂ "lid" fun member => absurd (letter member) (by decide), lid]
  have settled : (kernel.given bindings).Same kernel.body.binders names₂ := by
    refine (same₁.mono fun x member => ?_).trans (same₂.mono fun x member => ?_)
    · rw [code]
      exact Code.mem_binders_append.mpr (Or.inl member)
    · exact bound (mem_binders_regather.mpr (Or.inl member))
  refine (halts.loop (l := (Walk.byGroup "i" lane 0 k.groups).loop) ⟨_, start⟩ rfl (Term.stands_query rfl)
    (Term.stands_count _) settled takes.free (fun x member => bound ?_) ?_).1
  · replace member : x ∈ "i" :: (Code.ofSteps (k.folded.map fun f =>
      f.accumulate f.sum (partialPlace k.groups f (.name "i")))).binders := member
    rw [assigned] at member
    exact mem_binders_regather.mpr ((List.mem_cons.mp member).symm)
  · show "i" ∉ (Code.ofSteps (k.folded.map fun f =>
      f.accumulate f.sum (partialPlace k.groups f (.name "i")))).binders
    rw [assigned]
    exact fun member => absurd (letter member) (by decide)

/-- **The kernels of a batch terminate exactly if it is paced.** -/
theorem generate_terminates_iff {p : ReductionTuning} {program : Program}
    (ok : generate p op = .ok program) (valid : p.Valid)
    (hygienic : ∀ kernel ∈ program.kernels, kernel.Hygienic)
    (sized : ∀ kernel ∈ program.kernels, kernel.Sized bindings)
    (small : ∀ x n, bindings x = some n → n.toNat < 2 ^ 32) :
    (∀ kernel ∈ program.kernels, kernel.Terminates bindings) ↔ Paced p op bindings := by
  obtain ⟨k, operands, first, second, accepted, collected, -, kernels, both, geometry, geometry', code,
    code'⟩ := generate_eq_ok ok
  obtain rfl := accepted.record
  rw [← kernels] at both
  have takes {kernel : Kernel} (member : kernel ∈ program.kernels) : kernel.Takes op bindings := by
    refine ⟨⟨_, operands, collected, fun name a found => ?_⟩, hygienic kernel member, sized kernel member,
      small⟩
    rw [(both kernel member).1]
    exact findArgument_append found _
  have one : first ∈ program.kernels := by rw [kernels]; exact List.mem_cons_self
  have two : second ∈ program.kernels := by rw [kernels]; exact List.mem_cons_of_mem _ List.mem_cons_self
  have shaped : first.geometry.shape? bindings = some (launch k.record k.groups) := by
    rw [geometry]
    rfl
  have shaped' : second.geometry.shape? bindings = some (launch k.record 1) := by
    rw [geometry']
    rfl
  have place (groups : Nat) (some : 0 < groups) :
      ∃ (g : (launch k.record groups).Group) (l : (launch k.record groups).Lane),
        g.1.val = 0 ∧ l.1.val = 0 :=
    ⟨(⟨0, some⟩, ⟨0, Nat.one_pos⟩, ⟨0, Nat.one_pos⟩),
      (⟨0, valid.localSize⟩, ⟨0, Nat.one_pos⟩, ⟨0, Nat.one_pos⟩), rfl, rfl⟩
  have begins : first.Terminates bindings ↔ (k.record.strided = true →
      Reaches (k.groups * k.lanes) (k.extent.size bindings / k.width)) := by
    refine (takes one).terminates_iff shaped
      (fun reaches g l => code ▸ partialBody_counts accepted (takes one) reaches g l) fun halts => ?_
    obtain ⟨g, l, zero⟩ := place k.groups valid.numGroups
    exact partial_reaches accepted (takes one) code zero (halts g l)
  have ends : second.Terminates bindings ↔ Reaches k.lanes k.groups := by
    refine (takes two).terminates_iff shaped'
      (fun reaches g l => code' ▸ finalBody_counts accepted reaches g l) fun halts => ?_
    obtain ⟨g, l, -, zero⟩ := place 1 Nat.one_pos
    exact final_reaches accepted (takes two) code' zero (halts g l)
  rw [accepted.paced_iff, ← begins, ← ends, kernels, List.forall_mem_cons, List.forall_mem_singleton]

end TunedKernel.Reduction
