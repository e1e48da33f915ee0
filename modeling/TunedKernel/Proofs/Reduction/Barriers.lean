/-
**Where the workers of a reduction meet.**

A worker of either kernel folds its part without the arrays of the group, hands its sums over and takes part
in the stages. Behind the last stage the first worker alone goes on, and reads the first slots.

* `Surrounds` — a kernel that goes around what its workers fold and what the first one does in the end.
  `partial_surrounds`, `final_surrounds`: so do both kernels.
* `Surrounds.enter_stint`, `Surrounds.alone_stint` — what a worker does before and behind that.
* `Surrounds.leads_team`, `Surrounds.convergent` — the group is led through the code, and its barriers stand
  in no loop.
* `partial_not_synchronizes`, `generate_not_synchronizes` — if one worker leaves its loop over the elements and
  another one never does, the first one waits for it in vain.
* `generate_synchronizes` — the kernels of a batch synchronize if it is paced.
-/

import TunedKernel.Proofs.Generation.Synchrony
import TunedKernel.Proofs.Reduction.Accesses
import TunedKernel.Proofs.Reduction.Loops

namespace TunedKernel.Reduction

variable {op : Operation} {k : Parts} {kernel : Kernel} {bindings : Bindings} {groups : Nat}
  {g : (launch k.record groups).Group} {l : (launch k.record groups).Lane} {names : Names Unit}
  {use : Use (launch k.record groups)} {fold after : Code} {last : Folded → Step} {w : Worker}
  {given : Names Unit} {sizes : List String} {q : Stint}

/-- A kernel that goes around a fold. The fold does without the arrays of the group, and what the first
worker does in the end reads the first slots of them. -/
structure Surrounds (op : Operation) (k : Parts) (kernel : Kernel) (bindings : Bindings) (fold : Code)
    (last : Folded → Step) : Prop where
  accepted : Accepted op k.record k
  takes : kernel.Takes op bindings
  code : kernel.body = k.around fold last
  initials : ∀ x ∈ fold.binders, initial x ∈ [some 'a', some 's', some 'i']
  folds : ∀ q : Stint, q.arrays = kernel.shared → q.Suits fold
  lasts : ∀ q : Stint, q.arrays = kernel.shared → ∀ f ∈ k.folded, ((k.buffer f).name, [0]) ∈ q.reads →
    ∀ names, last f ≠ .barrier ∧ (last f).wrapped? q.worker names = some names ∧ q.Allows names (last f)

/-- Code that counts does so behind the prologue, where the worker has its number. -/
theorem counts_of_prologue
    (counts : (prologue k.type [k.lanes] k.folded ++ after).Counts w given sizes []) :
    after.Counts w given sizes ["lid"] := by
  rw [prologue, Code.ofSteps_append, Code.append_assoc] at counts
  generalize k.folded = folded at counts
  induction folded with
  | nil => exact counts.2
  | cons f rest ih => exact ih counts.2

namespace Surrounds

variable (folds : Surrounds op k kernel bindings fold last)

include folds

/-- A worker takes its number. -/
theorem enter_stint : ((kernel.team g).stint use l).Leads (prologue k.type [k.lanes] k.folded)
    (kernel.given bindings) fun names =>
      (kernel.given bindings).Same kernel.body.binders names ∧ names "lid" = some (.index l.1) := by
  have piece {x : String} (bound : x ∈ (prologue k.type [k.lanes] k.folded).binders) :
      x ∈ kernel.body.binders := folds.code ▸ Code.mem_binders_append.mpr (Or.inl bound)
  rw [prologue, Code.ofSteps_append] at piece ⊢
  have declared : (Code.ofSteps (k.folded.map fun f => .declareLocal (f.buffer k.type [k.lanes]))).Counts
      ((launch k.record groups).worker g l) (kernel.given bindings) kernel.sizes [] :=
    .last fun f _ => Step.plain_local List.not_mem_nil
  refine .append ((folds.takes.leads_of_counts (Shape.positive _ g l) declared
    (.declareLocals _ _) (fun x bound => piece (Code.mem_binders_append.mpr (Or.inl bound)))
    (.refl _ _) fun _ none => (List.not_mem_nil none).elim).weaken ?_)
  rintro names same -
  have small : l.1.val % 2 ^ 32 = l.1 := Nat.mod_eq_of_lt (l.1.isLt.trans k.record.localSize.toNat_lt)
  refine .index (n := (.bits64, l.1)) rfl (.done ⟨?_, ?_⟩)
  · refine (same.mono fun x bound => piece (Code.mem_binders_append.mpr (Or.inl bound))).bind ?_ _
    exact piece (Code.mem_binders_append.mpr (Or.inr List.mem_cons_self))
  · rw [Names.bind_self]
    exact congrArg (fun n => some (Binding.index n)) small

/-- **In the end the first worker reads its own slots.** -/
theorem alone_stint (lid : names "lid" = some (.index l.1))
    (reads : (layout k.record groups).slot l = 0 →
      ∀ array, (array, (layout k.record groups).own l) ∈ use.reads l) :
    ((kernel.team g).stint use l).Leads (Parts.alone (k.folded.map last)) names fun _ => True := by
  have decided : (Term.binary .equal lane (.number 0)).decides? ((launch k.record groups).worker g l)
      names = some (decide (l.1.val = 0)) := by
    rw [Term.decides?, lane, Term.unsigned?, lid]
    rfl
  have finishes (zero : l.1.val = 0) : ((kernel.team g).stint use l).Leads
      (Code.ofSteps (k.folded.map last)) names fun names' => names' = names := by
    refine .each fun s member => ?_
    obtain ⟨f, inside, rfl⟩ := List.mem_map.mp member
    refine folds.lasts _ rfl f inside ?_ names
    have own := reads zero (k.buffer f).name
    rwa [show (layout k.record groups).own l = [0] from congrArg (fun n => [n]) zero] at own
  exact .guarded decided (fun holds => finishes (of_decide_eq_true holds)) (fun _ => rfl)
    fun _ _ _ => .done trivial

/-- **A group is led through the code** if it counts. -/
theorem leads_team (counts : ∀ l, kernel.body.Counts ((launch k.record groups).worker g l)
    (kernel.given bindings) kernel.sizes []) :
    (kernel.team g).Leads kernel.body (layout k.record groups).publishing (fun _ => kernel.given bindings)
      fun _ _ => True := by
  have piece {x : String} (bound : x ∈ fold.binders) : x ∈ kernel.body.binders :=
    folds.code ▸ Code.mem_binders_append.mpr (Or.inr (Code.mem_binders_append.mpr (Or.inl bound)))
  rw [folds.code] at counts ⊢
  refine .append ((Team.Leads.work fun l => folds.enter_stint).weaken ?_)
  rintro use names - ⟨rfl, entered⟩
  have folded (l : (launch k.record groups).Lane) : fold.Counts ((launch k.record groups).worker g l)
      (kernel.given bindings) kernel.sizes ["lid"] := .left (counts_of_prologue (counts l))
  have indexed (l : (launch k.record groups).Lane) : (names l).Indexed ["lid"] := by
    intro x member
    obtain rfl := List.mem_singleton.mp member
    exact ⟨l.1, l.1.isLt.trans k.record.localSize.toNat_lt, (entered l).2⟩
  have each (l : (launch k.record groups).Lane) :
      ((kernel.team g).stint (layout k.record groups).publishing l).Leads fold (names l) fun names' =>
        names'.Indexed ["lid"] :=
    folds.takes.leads_of_counts (Shape.positive _ g l) (folded l) (folds.folds _ rfl) (fun x => piece)
      (entered l).1 (indexed l)
  refine .append ((Team.Leads.work each).weaken ?_)
  rintro use names' same ⟨rfl, -⟩
  have lid (l : (launch k.record groups).Lane) : names' l "lid" = some (.index l.1) :=
    (same l "lid" fun bound => absurd (folds.initials _ bound) (by decide)).trans (entered l).2
  have locates (l : (launch k.record groups).Lane) : Tree.Locates (layout k.record groups) [] lane
      ((kernel.team g).worker l) l (names' l) := by
    refine ⟨rfl, ?_⟩
    rw [lane, Term.unsigned?, lid l]
    rfl
  refine .append ((Team.Leads.work fun l => Folded.publish_leads_stint (locates l)).weaken ?_)
  rintro use names'' - ⟨rfl, kept⟩
  obtain rfl := funext kept
  have own (l : (launch k.record groups).Lane) (_ : (layout k.record groups).slot l = 0) (array : String) :
      (array, (layout k.record groups).own l) ∈ (layout k.record groups).publishing.reads l := rfl
  refine .append ((Tree.code_leads_team folds.accepted.tree (full k.record groups) locates own).weaken ?_)
  rintro use names'' - ⟨rfl, reads⟩
  exact (Team.Leads.work fun l => folds.alone_stint (lid l) (reads l)).weaken fun _ _ _ _ => trivial

/-- **Barriers stand in no loop.** -/
theorem convergent : kernel.body.Convergent kernel.sizes := by
  let q : Stint := ⟨⟨⟨1, 1, 1⟩, ⟨1, 1, 1⟩, ⟨0, 0, 0⟩, ⟨0, 0, 0⟩⟩, kernel.shared, Set.univ, Set.univ⟩
  rw [folds.code]
  refine .append (.ofSteps _) (.append (.of_free (folds.folds q rfl).free) (.append (.ofSteps _)
    (.append (Tree.convergent_code folds.accepted.tree) ⟨fun inside => ?_, trivial⟩)))
  rw [Code.steps_ofSteps] at inside
  obtain ⟨f, member, same⟩ := List.mem_map.mp inside
  exact (folds.lasts q rfl f member trivial fun _ => none).1 same

end Surrounds

/-! ### The kernels -/

/-- What the group shares. -/
theorem shared_around (accepted : Accepted op k.record k) (code : kernel.body = k.around fold last)
    (folds : fold.arrays = []) (lasts : ∀ f ∈ k.folded, (last f).array? = none) :
    kernel.shared = k.folded.map fun f => (k.buffer f).name := by
  rw [Kernel.shared, code, memories_around accepted folds lasts, List.map_map]
  rfl

/-- Partial values lie in a buffer. -/
theorem accesses_partialPlace (f : Folded) (group : Term) (plain : group.accesses = []) :
    ∀ a ∈ (partialPlace k.groups f group).accesses, a.array = scratch := by
  intro a member
  replace member : a ∈ [(⟨scratch, [.number f.position * .count k.groups + group]⟩ : Access)] ++
    ([] ++ group.accesses) := member
  rw [plain] at member
  rw [List.mem_singleton.mp member]

theorem scratch_notMem : scratch ∉ k.folded.map fun f => (k.buffer f).name := by
  intro member
  obtain ⟨f, -, same⟩ := List.mem_map.mp member
  have letter := f.initial_buffer k.type [k.lanes]
  rw [show (f.buffer k.type [k.lanes]).name = scratch from same] at letter
  exact absurd letter (by decide)

/-- Variables start from constants. -/
theorem fits_declareAccumulator (f : Folded) : q.Fits (declareAccumulator k.type k.width f) := by
  rw [declareAccumulator_eq]
  refine Or.inr ⟨nofun, fun _ => .of_notMem fun a member => ?_⟩
  have none : (if 1 < k.width then Term.cast (ValueType.packed k.type k.width).text
      (f.product.reduce.neutral k.type) else f.product.reduce.neutral k.type).accesses = [] := by
    split
    · exact Term.accesses_neutral _ _
    · exact Term.accesses_neutral _ _
  cases none ▸ (show a ∈ Term.accesses _ from member)

/-- Folding lanes binds variables only. -/
theorem plain_foldLanes {f : Folded} {scope : List String} (fresh : f.sumName ∉ scope) {s : Step}
    (member : s ∈ foldLanes k.type k.width f) : s.Plain scope := by
  unfold foldLanes at member
  split at member
  · rcases List.mem_cons.mp member with rfl | member
    · exact Step.plain_value fresh
    · obtain ⟨n, -, rfl⟩ := List.mem_map.mp member
      exact Step.plain_assign fresh
  · cases member

/-- Lanes of a variable are folded without access to memory. -/
theorem fits_foldLanes {f : Folded} {s : Step} (member : s ∈ foldLanes k.type k.width f) : q.Fits s := by
  unfold foldLanes at member
  split at member
  · rcases List.mem_cons.mp member with rfl | member
    · exact Or.inr ⟨nofun, fun _ => .of_notMem fun a none => (List.not_mem_nil none).elim⟩
    · obtain ⟨n, -, rfl⟩ := List.mem_map.mp member
      exact Folded.fits_accumulate fun a none => (List.not_mem_nil none).elim
  · cases member

/-- **The first kernel** folds operands, and stores into the scratch buffer. -/
theorem partial_surrounds (accepted : Accepted op k.record k) (takes : kernel.Takes op bindings)
    (code : kernel.body = k.partialBody) : Surrounds op k kernel bindings k.gather k.deposit := by
  have shared := shared_around accepted code arrays_gather fun _ _ => rfl
  refine ⟨accepted, takes, code, fun x => initial_of_gather, fun q same => ?_, fun q same f member reads
    names => ⟨nofun, rfl, fun a inside => ?_, fun a inside => ?_⟩⟩
  · refine .append (.ofSteps fun s inside => ?_) (.append (.split (.ofSteps fun s inside => ?_))
      (.ofSteps fun s inside => ?_))
    · obtain ⟨f, -, rfl⟩ := List.mem_map.mp inside
      exact fits_declareAccumulator f
    · obtain ⟨f, here, rfl⟩ := List.mem_map.mp inside
      refine Folded.fits_accumulate fun a reached => same ▸ takes.foreign_product accepted.numbered here ?_
      refine Product.accesses_named ⟨?_, ?_, ?_⟩ rfl (accepted.terms f here) a reached
      · exact fun t found => ⟨_, (Option.some.inj found).symm⟩
      · exact fun t found => absurd (show none = some t from found) nofun
      · exact fun t found => absurd (show none = some t from found) nofun
    · obtain ⟨f, -, inside⟩ := List.mem_flatMap.mp inside
      exact fits_foldLanes inside
  · have away := accesses_partialPlace (k := k) f (.query .groupId 0) rfl a inside
    exact Stint.confines_of_notMem (away ▸ same ▸ shared ▸ scratch_notMem)
  · rcases List.mem_append.mp inside with target | value
    · have away := accesses_partialPlace (k := k) f (.query .groupId 0) rfl a target
      exact Stint.confines_of_notMem (away ▸ same ▸ shared ▸ scratch_notMem)
    · exact Stint.confines_access (k.buffer f) (show [Term.number 0].mapM (fun s => s.word? q.worker names) =
        some [0] from rfl) reads a value

/-- **The second kernel** folds the scratch buffer, and stores into operands. -/
theorem final_surrounds (accepted : Accepted op k.record k) (takes : kernel.Takes op bindings)
    (code : kernel.body = k.finalBody) : Surrounds op k kernel bindings k.regather k.store := by
  have shared := shared_around accepted code arrays_regather fun f inside =>
    Statement.array?_storeStep (accepted.stores f inside)
  refine ⟨accepted, takes, code, fun x => initial_of_regather, fun q same => ?_, fun q same f member reads
    names => ?_⟩
  · refine .append (.ofSteps fun s inside => ?_) (.around (.ofSteps fun s inside => ?_)
      fun s none => (List.not_mem_nil none).elim)
    · obtain ⟨f, -, rfl⟩ := List.mem_map.mp inside
      exact f.fits_declareSum k.type
    · obtain ⟨f, -, rfl⟩ := List.mem_map.mp inside
      refine Folded.fits_accumulate fun a reached => ?_
      have away := accesses_partialPlace (k := k) f (.name "i") rfl a reached
      exact away ▸ same ▸ shared ▸ scratch_notMem
  · obtain ⟨name, target⟩ := accepted.targets f member
    refine Statement.allows_storeStep ⟨?_, ?_, ?_⟩ (accepted.stores f member) ?_
      (fun a named => same ▸ takes.foreign_statement accepted.numbered member named) fun p product => ?_
    · exact fun t found => absurd (show none = some t from found) nofun
    · exact fun t found => absurd (show none = some t from found) nofun
    · exact fun t found => absurd (show none = some t from found) nofun
    · rw [target]
      rfl
    · cases product
      exact Stint.confines_access (k.buffer f) (show [Term.number 0].mapM (fun s => s.word? q.worker names) =
        some [0] from rfl) reads

/-! ### Workers that do not meet -/

section Apart

variable {g : (launch k.record k.groups).Group} {l l' : (launch k.record k.groups).Lane}
  {use : Use (launch k.record k.groups)}

/-- What is done for a packed element. -/
def Parts.block (k : Parts) : Code :=
  Code.ofSteps (k.folded.map fun f => f.accumulate (.name (accumulatorName k.width f)) (k.term f))

/-- The code of the first kernel around the loop over the packed elements, if the workers stride. -/
theorem partialBody_eq (strided : k.record.strided = true) : k.partialBody =
    (prologue k.type [k.lanes] k.folded ++ Code.ofSteps (k.folded.map (declareAccumulator k.type k.width))) ++
      .loop (Walk.strided "i" 0 k.bound).loop k.block
        (Code.ofSteps (k.folded.flatMap (foldLanes k.type k.width)) ++
          (k.publish ++ (k.tree ++ Parts.alone (k.folded.map k.deposit)))) := by
  have walk : k.walk = Walk.strided "i" 0 k.bound := by
    rw [Parts.walk, strided]
    rfl
  rw [Parts.partialBody, Parts.around, Parts.gather, Parts.accumulate, walk, Code.append_assoc,
    Code.append_assoc, Code.append_assoc]
  rfl

/-- What the first kernel's worker folds, it binds. -/
theorem mem_body_of_gather (accepted : Accepted op k.record k) (code : kernel.body = k.partialBody) {x : String}
    (bound : x ∈ k.gather.binders) : x ∈ kernel.body.binders :=
  code ▸ (mem_binders_partialBody accepted).mpr (Or.inr (Or.inr bound))

/-- A worker takes its number and starts its variables. -/
theorem begin_stint (accepted : Accepted op k.record k) (takes : kernel.Takes op bindings)
    (code : kernel.body = k.partialBody) : ((kernel.team g).stint use l).Leads
      (prologue k.type [k.lanes] k.folded ++
        Code.ofSteps (k.folded.map (declareAccumulator k.type k.width))) (kernel.given bindings) fun names =>
      (kernel.given bindings).Same kernel.body.binders names ∧ names "lid" = some (.index l.1) := by
  have surrounds := partial_surrounds accepted takes code
  refine .append (surrounds.enter_stint.weaken ?_)
  rintro names₁ - ⟨settled, lid⟩
  have active {x : String}
      (bound : x ∈ (Code.ofSteps (k.folded.map (declareAccumulator k.type k.width))).binders) :
      x ∈ k.gather.binders := mem_binders_gather.mpr (Or.inl (binders_declareAccumulators ▸ bound))
  have counts : (Code.ofSteps (k.folded.map (declareAccumulator k.type k.width))).Counts
      ((launch k.record k.groups).worker g l) (kernel.given bindings) kernel.sizes [] := by
    refine .last fun f _ => ?_
    rw [declareAccumulator_eq]
    exact Step.plain_value List.not_mem_nil
  refine (takes.leads_of_counts (Shape.positive _ g l) counts (.ofSteps fun s member => ?_)
    (fun x bound => mem_body_of_gather accepted code (active bound)) settled
    fun _ none => (List.not_mem_nil none).elim).weaken fun names₂ same₂ _ => ⟨?_, ?_⟩
  · obtain ⟨f, -, rfl⟩ := List.mem_map.mp member
    exact fits_declareAccumulator f
  · exact settled.trans (same₂.mono fun x bound => mem_body_of_gather accepted code (active bound))
  · exact (same₂ "lid" fun bound => absurd (initial_of_gather (active bound)) (by decide)).trans lid

/-- For a packed element it does without the group. -/
theorem block_stint (accepted : Accepted op k.record k) (takes : kernel.Takes op bindings)
    (code : kernel.body = k.partialBody)
    (settled : (kernel.given bindings).Same kernel.body.binders names) :
    ((kernel.team g).stint use l).Leads k.block names fun _ => True := by
  have suits := (partial_surrounds accepted takes code).folds ((kernel.team g).stint use l) rfl
  have counts : k.block.Counts ((launch k.record k.groups).worker g l) (kernel.given bindings) kernel.sizes
      [] := .last fun f _ => Step.plain_assign List.not_mem_nil
  refine (takes.leads_of_counts (Shape.positive _ g l) counts (fun s member => suits s ?_)
    (fun x bound => mem_body_of_gather accepted code ?_) settled
    fun _ none => (List.not_mem_nil none).elim).weaken fun _ _ _ => trivial
  · rw [Parts.gather, Code.steps_append, Code.steps_append, Parts.accumulate, Code.steps_around]
    exact List.mem_append_right _ (List.mem_append_left _ (List.mem_append_right _
      (List.mem_append_right _ member)))
  · rw [Parts.block, binders_accumulates] at bound
    exact mem_gather_of_walk (List.mem_append_right _ (List.mem_cons_of_mem _ bound))

/-- What the loop over the packed elements binds. -/
theorem mem_gather_of_loop {x : String} (bound : x ∈ "i" :: k.block.binders) : x ∈ k.gather.binders := by
  rw [Parts.block, binders_accumulates] at bound
  exact mem_gather_of_walk (List.mem_append_right _ bound)

/-- The loop strides over the packed elements. -/
theorem loop_strides (accepted : Accepted op k.record k) (takes : kernel.Takes op bindings)
    (code : kernel.body = k.partialBody)
    (settled : (kernel.given bindings).Same kernel.body.binders names) :
    (Walk.strided "i" 0 k.bound).loop.Strides ((launch k.record k.groups).worker g l) names
      ("i" :: k.block.binders) (k.groups * k.lanes) (k.extent.size bindings / k.width) :=
  Loop.strides_of_stands rfl (Term.stands_query rfl) (accepted.bound_stands takes) fun _ same =>
    takes.agree (settled.trans (same.mono fun _ bound =>
      mem_body_of_gather accepted code (mem_gather_of_loop bound)))

theorem counter_fresh : "i" ∉ k.block.binders := by
  rw [Parts.block, binders_accumulates]
  exact walk_fresh "i" (List.mem_append_right _ List.mem_cons_self)

/-- **A worker that leaves its loop comes to the first stage.** -/
theorem collect_stint (accepted : Accepted op k.record k) (takes : kernel.Takes op bindings)
    (code : kernel.body = k.partialBody)
    (comes : ∃ i, k.extent.size bindings / k.width ≤
      (globalId g l + i * (k.groups * k.lanes)) % 2 ^ 32) :
    ((kernel.team g).stint (layout k.record k.groups).publishing l).Leads
      ((prologue k.type [k.lanes] k.folded ++
        Code.ofSteps (k.folded.map (declareAccumulator k.type k.width))) ++
          .loop (Walk.strided "i" 0 k.bound).loop k.block
            (Code.ofSteps (k.folded.flatMap (foldLanes k.type k.width)) ++ k.publish))
      (kernel.given bindings) fun _ => True := by
  refine .append ((begin_stint accepted takes code).weaken ?_)
  rintro names₁ - ⟨settled₁, lid₁⟩
  have start : (Term.query .globalId 0).unsigned? ((launch k.record k.groups).worker g l) names₁ =
      some (.bits64, globalId g l) := rfl
  refine Stint.Leads.loop (fun _ _ => True) start (loop_strides accepted takes code settled₁) counter_fresh
    comes trivial (fun c _ _ names' same _ _ => ?_) fun _ names₂ same₂ _ => ?_
  · refine block_stint accepted takes code (settled₁.trans (same.mono fun x bound => ?_))
    exact mem_body_of_gather accepted code (mem_gather_of_loop bound)
  have kept {names names' : Names Unit} {changed : List String} (lid : names "lid" = some (.index l.1))
      (same : names.Same changed names') (inside : ∀ x ∈ changed, x ∈ k.gather.binders) :
      names' "lid" = some (.index l.1) :=
    (same "lid" fun bound => absurd (initial_of_gather (inside "lid" bound)) (by decide)).trans lid
  have lid₂ := kept lid₁ same₂ fun x => mem_gather_of_loop
  have active {x : String}
      (bound : x ∈ (Code.ofSteps (k.folded.flatMap (foldLanes k.type k.width))).binders) :
      x ∈ k.gather.binders := mem_binders_gather.mpr (Or.inr (Or.inr (Or.inr bound)))
  have lanes : ((kernel.team g).stint (layout k.record k.groups).publishing l).Leads
      (Code.ofSteps (k.folded.flatMap (foldLanes k.type k.width))) names₂ fun names' =>
        names'.Indexed [] := by
    refine takes.leads_of_counts (Shape.positive _ g l) (.of_append_done (.steps (fun s member => ?_) trivial))
      (.ofSteps fun s member => ?_) (fun x bound => mem_body_of_gather accepted code (active bound))
      (settled₁.trans (same₂.mono fun x bound =>
        mem_body_of_gather accepted code (mem_gather_of_loop bound)))
      fun _ none => (List.not_mem_nil none).elim
    · obtain ⟨f, -, inside⟩ := List.mem_flatMap.mp member
      exact plain_foldLanes List.not_mem_nil inside
    · obtain ⟨f, -, inside⟩ := List.mem_flatMap.mp member
      exact fits_foldLanes inside
  refine .append (lanes.weaken ?_)
  rintro names₃ same₃ -
  have lid₃ := kept lid₂ same₃ fun x => active
  have locates : Tree.Locates (layout k.record k.groups) [] lane ((kernel.team g).worker l) l names₃ := by
    refine ⟨rfl, ?_⟩
    rw [lane, Term.unsigned?, lid₃]
    rfl
  exact (Folded.publish_leads_stint locates).weaken fun _ _ _ => trivial

/-- **A group in which one worker leaves its loop, and another one never does**, does not meet. -/
theorem partial_not_synchronizes (accepted : Accepted op k.record k) (takes : kernel.Takes op bindings)
    (code : kernel.body = k.partialBody) (g : (launch k.record k.groups).Group)
    (l l' : (launch k.record k.groups).Lane)
    (shaped : kernel.geometry.shape? bindings = some (launch k.record k.groups))
    (strided : k.record.strided = true) (several : ∃ code, k.tree = .step .barrier code)
    (never : ∀ i, (globalId g l + i * (k.groups * k.lanes)) % 2 ^ 32 < k.extent.size bindings / k.width)
    (comes : ∃ i, k.extent.size bindings / k.width ≤
      (globalId g l' + i * (k.groups * k.lanes)) % 2 ^ 32) : ¬ kernel.Synchronizes bindings := by
  intro synchronizes
  obtain ⟨stages, tree⟩ := several
  -- One worker comes to the first barrier, so the other one would have to.
  have whole : ((prologue k.type [k.lanes] k.folded ++
      Code.ofSteps (k.folded.map (declareAccumulator k.type k.width))) ++
        .loop (Walk.strided "i" 0 k.bound).loop k.block
          (Code.ofSteps (k.folded.flatMap (foldLanes k.type k.width)) ++ k.publish)) ++
            (k.tree ++ Parts.alone (k.folded.map k.deposit)) = kernel.body := by
    rw [code, partialBody_eq strided, Code.append_assoc]
    exact congrArg (fun rest => _ ++ Code.loop _ k.block rest) (Code.append_assoc ..)
  obtain ⟨names, -, -, comes⟩ := collect_stint accepted takes code comes
  have stands : Thread.barrier? ⟨[.run (k.tree ++ Parts.alone (k.folded.map k.deposit))], names⟩ =
      some [.run (stages ++ Parts.alone (k.folded.map k.deposit))] := by
    rw [tree]
    rfl
  have first : (kernel.start (fun _ => ()) bindings).Crosses ((launch k.record k.groups).worker g l')
      [[.run (stages ++ Parts.alone (k.folded.map k.deposit))]] _ :=
    whole ▸ (comes _ []).crosses (.pass stands (.refl _))
  obtain ⟨t, crosses⟩ := synchronizes.together _ shaped g l' l _ _ first
  -- That one stays in its loop.
  have starts : ((kernel.team g).stint (layout k.record k.groups).publishing l).Leads _ _ _ :=
    begin_stint accepted takes code
  obtain ⟨names₁, -, ⟨settled, -⟩, begins⟩ := starts
  rw [Kernel.start, code, partialBody_eq strided] at crosses
  refine Stint.not_crosses_loop (a := (.bits64, globalId g l)) rfl
    (loop_strides accepted takes code settled) counter_fresh never (fun names' same => ?_)
    ((begins _ []).crosses_after crosses)
  refine block_stint accepted takes code (settled.trans (same.mono fun x bound => ?_))
  exact mem_body_of_gather accepted code (mem_gather_of_loop bound)

/-- Two workers or more fold in stages. -/
theorem tree_starts (accepted : Accepted op k.record k) (several : 1 < k.lanes) :
    ∃ stages, k.tree = .step .barrier stages := by
  obtain ⟨found, strided, ok⟩ := bind_eq_ok_iff.mp accepted.tree
  obtain ⟨n, power, rfl⟩ := strides_eq_ok strided
  cases n with
  | zero => exact absurd ((le_powerAbove k.lanes).trans_eq power) (Nat.not_le.mpr several)
  | succ n =>
    rw [List.range_succ, List.map_append, List.reverse_append] at ok
    exact ⟨_, (Except.ok.inj ok).symm⟩

end Apart

/-- What a kernel takes, if no argument is hidden. -/
theorem takes_of_proper {operands : List Argument}
    (collected : collectArguments op k.record.simdWidth.toNat = .ok operands)
    (arguments : kernel.arguments = operands ++ [⟨scratch, .buffer op.numericType.text⟩])
    (proper : kernel.Proper) (sized : kernel.Sized bindings)
    (small : ∀ x n, bindings x = some n → n.toNat < 2 ^ 32) : kernel.Takes op bindings :=
  ⟨⟨_, operands, collected, fun _ _ found => arguments ▸ findArgument_append found _⟩,
    fun a inside => (proper a inside).2, sized, small⟩

/-- **Workers of a batch that do not meet**: of two workers of the first group that stride, one comes past
the end of the range, and the other never does. -/
theorem generate_not_synchronizes {p : ReductionTuning} {program : Program} (ok : generate p op = .ok program)
    (valid : p.Valid) (proper : ∀ kernel ∈ program.kernels, kernel.Proper)
    (sized : ∀ kernel ∈ program.kernels, kernel.Sized bindings)
    (small : ∀ x n, bindings x = some n → n.toNat < 2 ^ 32) (strided : p.strided = true)
    {s : Statement} (inside : s ∈ op.statements) {product : Product} (folds : product ∈ s.value.products)
    {v : VectorOperand} (extends' : product.vector? = some v) (l l' : Fin p.localSize.toNat)
    (never : ∀ i, (l.val + i * (p.numGroups.toNat * p.localSize.toNat)) % 2 ^ 32 <
      v.size.size bindings / p.simdWidth.toNat)
    (comes : ∃ i, v.size.size bindings / p.simdWidth.toNat ≤
      (l'.val + i * (p.numGroups.toNat * p.localSize.toNat)) % 2 ^ 32) :
    ∃ kernel ∈ program.kernels, ¬ kernel.Synchronizes bindings := by
  obtain ⟨k, operands, first, second, accepted, collected, -, kernels, both, geometry, -, code, -⟩ :=
    generate_eq_ok ok
  obtain rfl := accepted.record
  have member : first ∈ program.kernels := kernels ▸ List.mem_cons_self
  have takes := takes_of_proper collected (both first List.mem_cons_self).1 (proper first member)
    (sized first member) small
  have shaped : first.geometry.shape? bindings = some (launch k.record k.groups) := by
    rw [geometry]
    rfl
  have extent : v.size = k.extent := by
    refine accepted.numbered.forall_products (P := fun product => ∀ v, product.vector? = some v →
      v.size = k.extent) |>.mpr (fun f member v found => ?_) s inside product folds v extends'
    obtain ⟨v', found', same⟩ := accepted.extents f member
    cases found.symm.trans found'
    exact same
  rw [extent] at never comes
  have several : 1 < k.lanes := by
    by_contra alone
    have same : l = l' := Fin.ext (by have := l.isLt; have := l'.isLt; unfold Parts.lanes at alone; omega)
    obtain ⟨i, past⟩ := comes
    exact absurd (same ▸ never i) (Nat.not_lt.mpr past)
  refine ⟨first, member, partial_not_synchronizes accepted takes code
    (⟨0, valid.numGroups⟩, ⟨0, Nat.one_pos⟩, ⟨0, Nat.one_pos⟩) (l, ⟨0, Nat.one_pos⟩, ⟨0, Nat.one_pos⟩)
    (l', ⟨0, Nat.one_pos⟩, ⟨0, Nat.one_pos⟩) shaped strided (tree_starts accepted several) (fun i => ?_) ?_⟩
  · show (0 * k.lanes + l.val + _) % 2 ^ 32 < _
    rw [Nat.zero_mul, Nat.zero_add]
    exact never i
  · obtain ⟨i, past⟩ := comes
    refine ⟨i, ?_⟩
    show _ ≤ (0 * k.lanes + l'.val + _) % 2 ^ 32
    rw [Nat.zero_mul, Nat.zero_add]
    exact past

/-- **The kernels of a batch synchronize if it is paced**, and their barriers stand where all workers come. -/
theorem generate_synchronizes {p : ReductionTuning} {program : Program} (ok : generate p op = .ok program)
    (member : kernel ∈ program.kernels) (proper : kernel.Proper) (sized : kernel.Sized bindings)
    (small : ∀ x n, bindings x = some n → n.toNat < 2 ^ 32) :
    kernel.body.Convergent kernel.sizes ∧ (Paced p op bindings → kernel.Synchronizes bindings) := by
  obtain ⟨k, operands, first, second, accepted, collected, -, kernels, both, geometry, geometry', code,
    code'⟩ := generate_eq_ok ok
  obtain rfl := accepted.record
  rw [kernels] at member
  have takes := takes_of_proper collected (both kernel member).1 proper sized small
  rw [accepted.paced_iff]
  simp only [List.mem_cons, List.not_mem_nil, or_false] at member
  rcases member with rfl | rfl
  · have surrounds := partial_surrounds accepted takes code
    have shaped : kernel.geometry.shape? bindings = some (launch k.record k.groups) := by
      rw [geometry]
      rfl
    refine ⟨surrounds.convergent, fun paced => .of_leads shaped (fun _ => (layout k.record k.groups).publishing)
      (fun _ => (full k.record k.groups).publishing_apart) fun g => ?_⟩
    exact surrounds.leads_team fun l => code ▸ partialBody_counts accepted takes paced.1 g l
  · have surrounds := final_surrounds accepted takes code'
    have shaped : kernel.geometry.shape? bindings = some (launch k.record 1) := by
      rw [geometry']
      rfl
    refine ⟨surrounds.convergent, fun paced => .of_leads shaped (fun _ => (layout k.record 1).publishing)
      (fun _ => (full k.record 1).publishing_apart) fun g => ?_⟩
    exact surrounds.leads_team fun l => code' ▸ finalBody_counts accepted paced.2 g l

end TunedKernel.Reduction
