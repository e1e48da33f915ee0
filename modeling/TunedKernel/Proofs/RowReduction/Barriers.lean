/-
**Where the workers of a row reduction meet.**

On each trip the workers of a group hand their sums over, fold them, and stand at a last barrier before the
next trip, so that no slot is handed over anew while the first worker of a row still reads.

* `prologue_stint`, `collect_stint`, `finish_stint` — what a worker does before the loop over the rows, before
  the first barrier of a trip, and behind the last stage.
* `trip_leads_team`, `body_leads_team` — a trip leaves the slots in the use that it begins with, and the group
  is led through the code.
* `body_convergent` — barriers stand in the loop over the rows only.
* `generateFor_synchronizes` — the kernel of a batch synchronizes if it is paced.
-/

import TunedKernel.Proofs.Generation.Synchrony
import TunedKernel.Proofs.RowReduction.Loops
import TunedKernel.Proofs.RowReduction.Stages

namespace TunedKernel.RowReduction

variable {op : Operation} {k : Parts} {kernel : Kernel} {bindings : Bindings}
  {g : (launch k.record).Group} {l : (launch k.record).Lane} {names : Names Unit}
  {use : Use (launch k.record)}

/-! ### Names -/

namespace Placed

variable {given : Names Unit}

theorem locates (placed : Placed k given l names) :
    Tree.Locates (layout k.record) [.name "lid0"] (.name "lid1") ((launch k.record).worker g l) l
      names where
  row := by
    simp only [List.mapM_cons, List.mapM_nil, Term.word?, Term.unsigned?, placed.lid0]
    rfl
  slot := by rw [Term.unsigned?, placed.lid1]; rfl

/-- The names that stand for indices in the code for a row. -/
theorem indexed (placed : Placed k given l names) {c r : Nat}
    (base : names (k.outer ++ "_base") = some (.index c)) (row : names k.outer = some (.index r))
    (small : c < 2 ^ 32) (small' : r < 2 ^ 32) : names.Indexed k.places := by
  intro x member
  unfold Parts.places at member
  simp only [List.mem_cons, List.not_mem_nil, or_false] at member
  rcases member with rfl | rfl | rfl | rfl
  · exact ⟨r, small', row⟩
  · exact ⟨c, small, base⟩
  · exact ⟨l.2.1, l.2.1.isLt.trans k.record.localSize1.toNat_lt, placed.lid1⟩
  · exact ⟨l.1, l.1.isLt.trans k.record.localSize0.toNat_lt, placed.lid0⟩

end Placed

/-! ### Workers -/

/-- A worker finds its place. -/
theorem prologue_stint (takes : kernel.Takes op bindings) (code : kernel.body = k.body) :
    ((kernel.team g).stint use l).Leads k.prologue (kernel.given bindings)
      (Placed k (kernel.given bindings) l) := by
  have piece {x : String} (bound : x ∈ k.prologue.binders) : x ∈ k.body.binders :=
    Code.mem_binders_append.mpr (Or.inl bound)
  have place {x : String} (bound : x ∈ ["lid0", "lid1"]) : x ∈ k.body.binders :=
    piece (Code.mem_binders_append.mpr (Or.inr bound))
  have declared : (Code.ofSteps (k.folded.map fun f => .declareLocal (f.buffer k.type k.dims))).Counts
      ((launch k.record).worker g l) (kernel.given bindings) kernel.sizes [] :=
    .last fun f _ => Step.plain_local List.not_mem_nil
  refine .append ((takes.leads_of_counts (Shape.positive _ g l) declared (.declareLocals _ _)
    (fun x bound => code ▸ piece (Code.mem_binders_append.mpr (Or.inl bound))) (.refl _ _)
    fun _ none => (List.not_mem_nil none).elim).weaken ?_)
  rintro names₁ same₁ -
  have settled : (kernel.given bindings).Same k.body.binders names₁ :=
    same₁.mono fun x bound => piece (Code.mem_binders_append.mpr (Or.inl bound))
  have small : l.1.val % 2 ^ 32 = l.1 := Nat.mod_eq_of_lt (l.1.isLt.trans k.record.localSize0.toNat_lt)
  have small' : l.2.1.val % 2 ^ 32 = l.2.1 :=
    Nat.mod_eq_of_lt (l.2.1.isLt.trans k.record.localSize1.toNat_lt)
  refine .index (n := (.bits64, l.1)) rfl (.index (n := (.bits64, l.2.1)) rfl (.done ⟨?_, ?_, ?_⟩))
  · exact (settled.bind (place (by decide)) _).bind (place (by decide)) _
  · rw [Names.bind_of_ne (by decide), Names.bind_self]
    exact congrArg (fun n => some (Binding.index n)) small
  · rw [Names.bind_self]
    exact congrArg (fun n => some (Binding.index n)) small'

/-- A worker folds its part of a row without the arrays of the group. -/
theorem gather_suits (accepted : Accepted op k.record k) (takes : kernel.Takes op bindings) {q : Stint}
    (arrays : q.arrays = kernel.shared) :
    q.Suits (Code.ofSteps (k.folded.map fun f => f.declareSum k.type) ++ k.gather) := by
  refine .append (.ofSteps fun s member => ?_) (.ofGuard (.around (.ofSteps fun s member => ?_)
    fun s none => (List.not_mem_nil none).elim))
  · obtain ⟨f, -, rfl⟩ := List.mem_map.mp member
    exact f.fits_declareSum k.type
  · obtain ⟨f, inside, rfl⟩ := List.mem_map.mp member
    refine Folded.fits_accumulate fun a reached =>
      arrays ▸ takes.foreign_product accepted.numbered inside ?_
    refine Product.accesses_named ⟨?_, ?_, ?_⟩ rfl (accepted.terms f inside) a reached
    · exact fun t found => ⟨_, (Option.some.inj found).symm⟩
    · exact fun t found => ⟨_, (Option.some.inj found).symm⟩
    · exact fun t found => ⟨_, (Option.some.inj found).symm⟩

/-- **Before the first barrier of a trip a worker hands its sums over.** -/
theorem collect_stint (accepted : Accepted op k.record k) (takes : kernel.Takes op bindings)
    (code : kernel.body = k.body)
    (counts : k.trip.Counts ((launch k.record).worker g l) (kernel.given bindings) kernel.sizes k.places)
    (placed : Placed k (kernel.given bindings) l names) {c : Nat} (small : c < 2 ^ 32)
    (base : names (k.outer ++ "_base") = some (.index c)) :
    ((kernel.team g).stint (layout k.record).publishing l).Leads k.collect names fun names' =>
      ∃ r, names' k.outer = some (.index r) := by
  obtain ⟨n, number⟩ : ∃ n, Term.unsigned? ((launch k.record).worker g l) names
      (.name (k.outer ++ "_base") + .query .localId 0) = some n := by
    show ∃ n, Term.unsigned? _ names (.binary .add (.name (k.outer ++ "_base")) (.query .localId 0)) = some n
    rw [Term.unsigned?, Term.unsigned?, base]
    exact ⟨_, rfl⟩
  refine .index number ?_
  have apart : k.outer ++ "_base" ≠ k.outer := fun same =>
    absurd (String.append_eq_left_iff.mp same) (by decide)
  have placed' : Placed k (kernel.given bindings) l (names.bind k.outer (.wrapped n)) :=
    placed.after ((Names.Same.refl [k.outer] names).bind List.mem_cons_self _) fun x member =>
      Or.inl (by simp [List.mem_singleton.mp member])
  have row : names.bind k.outer (.wrapped n) k.outer = some (.index (n.2 % 2 ^ 32)) := Names.bind_self ..
  replace base : names.bind k.outer (.wrapped n) (k.outer ++ "_base") = some (.index c) :=
    (Names.bind_of_ne apart).trans base
  generalize names.bind k.outer (.wrapped n) = names₁ at placed' row base
  have first : (Code.ofSteps (k.folded.map fun f => f.declareSum k.type) ++ k.gather).Counts
      ((launch k.record).worker g l) (kernel.given bindings) kernel.sizes k.places := by
    have whole : k.trip = (Code.ofSteps (k.folded.map fun f => f.declareSum k.type) ++ k.gather) ++
        Code.join [Code.ofSteps (k.folded.map fun f => f.publish (f.buffer k.type k.dims)
          [.name "lid0", .name "lid1"]), k.tree, k.finish, Code.ofSteps [.barrier]] :=
      (Code.append_assoc ..).symm
    exact .left (whole ▸ counts)
  have binders {x : String} (bound : x ∈ (Code.ofSteps (k.folded.map fun f => f.declareSum k.type) ++
      k.gather).binders) : x ∈ k.inner :: k.folded.map Folded.sumName := by
    rcases Code.mem_binders_append.mp bound with declared | gathered
    · exact List.mem_cons_of_mem _ (Code.binders_declares ▸ declared)
    · exact binders_gather ▸ gathered
  have active {x : String} (bound : x ∈ k.inner :: k.folded.map Folded.sumName) : k.Active x := by
    rcases List.mem_cons.mp bound with rfl | sum
    · exact Or.inl (by simp)
    · obtain ⟨f, inside, rfl⟩ := List.mem_map.mp sum
      exact Or.inr ⟨f, inside, rfl⟩
  rw [← Code.append_assoc]
  refine .append ((takes.leads_of_counts (Shape.positive _ g l) first (gather_suits accepted takes rfl)
    (fun x bound => code ▸ mem_body_of_active (active (binders bound))) (code ▸ placed'.settled)
    (placed'.indexed base row small (Nat.mod_lt _ (by decide)))).weaken ?_)
  rintro names₂ same₂ -
  have placed₂ := placed'.after same₂ fun x bound => active (binders bound)
  refine (Folded.publish_leads_stint (q := kernel.team g) placed₂.locates).weaken ?_
  rintro names₃ - rfl
  exact ⟨_, (same₂ _ fun bound => outer_fresh k (binders bound)).trans row⟩

/-- **Behind the last stage the first worker of a row reads its own slots.** -/
theorem finish_stint (accepted : Accepted op k.record k) (takes : kernel.Takes op bindings)
    (code : kernel.body = k.body) (placed : Placed k (kernel.given bindings) l names) {r : Nat}
    (row : names k.outer = some (.index r))
    (reads : (layout k.record).slot l = 0 → ∀ array, (array, (layout k.record).own l) ∈ use.reads l) :
    ((kernel.team g).stint use l).Leads k.finish names fun _ => True := by
  obtain ⟨rows, -⟩ := accepted.stands (w := (launch k.record).worker g l) takes
  obtain ⟨word, bound⟩ := rows.value
  rw [← rows.indexes.unsigned_congr (takes.agree (code ▸ placed.settled))] at bound
  have decided : (Term.binary .both (.binary .equal (.name "lid1") (.count 0)) k.inside).decides?
      ((launch k.record).worker g l) names =
      some (decide (l.2.1.val = 0) && decide (r < k.rows.size bindings)) := by
    simp only [Parts.inside, Term.decides?, Term.unsigned?, placed.lid1, row, bound]
    rfl
  have stores (zero : (layout k.record).slot l = 0) : ((kernel.team g).stint use l).Leads
      (Code.ofSteps (k.folded.map k.store)) names fun names' => names' = names := by
    refine .each fun s member => ?_
    obtain ⟨f, inside, rfl⟩ := List.mem_map.mp member
    obtain ⟨v, target⟩ := accepted.targets f inside
    refine Statement.allows_storeStep ⟨?_, ?_, ?_⟩ (accepted.stores f inside) ?_
      (fun a => takes.foreign_statement accepted.numbered inside) fun p product => ?_
    · exact fun t found => ⟨_, (Option.some.inj found).symm⟩
    · exact fun t found => (Option.some_ne_none t (show none = some t from found).symm).elim
    · exact fun t found => (Option.some_ne_none t (show none = some t from found).symm).elim
    · rw [target]
      rfl
    · cases product
      have values := Term.mapM_words_append placed.locates.row
        (show (Term.number 0).word? ((launch k.record).worker g l) names = some 0 from rfl)
      refine Stint.confines_access (f.buffer k.type k.dims) values ?_
      have own := reads zero (f.buffer k.type k.dims).name
      rwa [Tree.Layout.own, zero] at own
  refine .guarded decided (fun holds => stores ?_) (fun _ => rfl) fun _ _ _ => .done trivial
  exact of_decide_eq_true (Bool.and_eq_true_iff.mp holds).1

/-! ### Groups -/

/-- **A trip leaves the slots in the use that it begins with.** -/
theorem trip_leads_team (accepted : Accepted op k.record k) (takes : kernel.Takes op bindings)
    (code : kernel.body = k.body)
    (counts : ∀ l, k.trip.Counts ((launch k.record).worker g l) (kernel.given bindings) kernel.sizes
      k.places) {names : (launch k.record).Lane → Names Unit}
    (placed : ∀ l, Placed k (kernel.given bindings) l (names l)) {c : Nat} (small : c < 2 ^ 32)
    (base : ∀ l, names l (k.outer ++ "_base") = some (.index c)) :
    (kernel.team g).Leads (Code.ofSteps (Walk.uniform k.outer 0 k.rows.term).inside ++ k.trip)
      (layout k.record).publishing names fun use _ => use = (layout k.record).publishing := by
  rw [trip_eq]
  refine .append ((Team.Leads.work fun l => collect_stint accepted takes code (counts l) (placed l) small
    (base l)).weaken ?_)
  rintro use₁ names₁ same₁ ⟨rfl, rows⟩
  have placed₁ (l : (launch k.record).Lane) := (placed l).after (same₁ l) fun x => active_of_collect
  have own (l : (launch k.record).Lane) (_ : (layout k.record).slot l = 0) (array : String) :
      (array, (layout k.record).own l) ∈ (layout k.record).publishing.reads l := rfl
  refine .append ((Tree.code_leads_team accepted.tree (full k.record) (fun l => (placed₁ l).locates)
    own).weaken ?_)
  rintro use₂ names₂ - ⟨rfl, reads⟩
  have finishes (l : (launch k.record).Lane) :
      ((kernel.team g).stint use₂ l).Leads k.finish (names₂ l) fun _ => True := by
    obtain ⟨r, row⟩ := rows l
    exact finish_stint accepted takes code (placed₁ l) row (reads l)
  refine .append ((Team.Leads.work finishes).weaken ?_)
  rintro use₃ names₃ - -
  exact (Team.Leads.barrier (full k.record).publishing_apart).weaken fun _ _ _ next => next.1

/-- **A group is led through the code** if the workers reach the ends of both ranges. -/
theorem body_leads_team (accepted : Accepted op k.record k) (takes : kernel.Takes op bindings)
    (code : kernel.body = k.body) (paced : Paced k.record op bindings) :
    (kernel.team g).Leads k.body (layout k.record).publishing (fun _ => kernel.given bindings)
      fun _ _ => True := by
  obtain ⟨reaches, inner⟩ := accepted.paced_iff.mp paced
  refine .append ((Team.Leads.work fun l => prologue_stint takes code).weaken ?_)
  rintro use names - ⟨rfl, placed⟩
  have kept : k.outer ++ "_base" ∉ k.outer :: k.trip.binders := fun bound =>
    (List.mem_cons.mp bound).elim
      (fun same => absurd (String.append_eq_left_iff.mp same) (by decide)) (base_fresh accepted)
  show (kernel.team g).Leads (.loop (Walk.uniform k.outer 0 k.rows.term).loop (Code.ofSteps
    (Walk.uniform k.outer 0 k.rows.term).inside ++ k.trip) .done) _ names _
  have start (i : (launch k.record).Lane) : ∃ word, (Walk.uniform k.outer 0 k.rows.term).loop.first.unsigned?
      ((kernel.team g).worker i) (names i) =
        some (word, g.1.val * k.record.localSize0.toNat % Word.bits64.limit) := ⟨.bits64, rfl⟩
  refine .loop start (fun i => ?_) kept reaches (fun c below names' same base => ?_)
    fun _ _ => .done trivial
  · obtain ⟨rows, -⟩ := accepted.stands (w := (launch k.record).worker g i) takes
    refine Loop.strides_of_stands rfl (Term.stands_query rfl) rows fun names' same => ?_
    exact takes.agree (code ▸ ((placed i).after same fun x => active_of_binders accepted).settled)
  · refine trip_leads_team accepted takes code (fun l => ?_)
      (fun i => (placed i).after (same i) fun x => active_of_binders accepted)
      (Nat.lt_of_lt_of_le below (Nat.le_of_add_right_le reaches)) base
    obtain ⟨rows, cols⟩ := accepted.stands (w := (launch k.record).worker g l) takes
    exact trip_counts accepted rows.indexes (d := k.record.localSize1.toNat)
      (congrArg some (Nat.one_mul _)) cols (inner (Nat.zero_lt_of_lt below))

/-! ### The kernel -/

/-- **Barriers stand in the loop over the rows only**, through which all workers of a group go together. -/
theorem body_convergent (accepted : Accepted op k.record k) (takes : kernel.Takes op bindings) :
    k.body.Convergent kernel.sizes := by
  obtain ⟨rows, -⟩ := accepted.stands (w := ⟨⟨1, 1, 1⟩, ⟨1, 1, 1⟩, ⟨0, 0, 0⟩, ⟨0, 0, 0⟩⟩) takes
  have uniform : (Walk.uniform k.outer 0 k.rows.term).loop.Uniform kernel.sizes :=
    ⟨⟨Or.inl rfl, Or.inr (Or.inl rfl)⟩, Extent.uniform_term rows.indexes,
      fun stride same => Option.some.inj same ▸ Or.inr (Or.inr rfl)⟩
  refine .append (.append (.ofSteps _) (.append (.ofSteps _) trivial)) (.around uniform (.join ?_))
  intro piece member
  simp only [List.mem_cons, List.not_mem_nil, or_false] at member
  rcases member with rfl | rfl | rfl | rfl | rfl | rfl
  · exact .ofSteps _
  · refine ⟨fun inside => ?_, trivial⟩
    rw [Code.steps_around, Code.steps_ofSteps] at inside
    obtain ⟨f, -, same⟩ := List.mem_map.mp (show _ ∈ k.folded.map _ from inside)
    cases same
  · exact .ofSteps _
  · exact Tree.convergent_code accepted.tree
  · refine ⟨fun inside => ?_, trivial⟩
    rw [Code.steps_ofSteps] at inside
    obtain ⟨f, member, same⟩ := List.mem_map.mp inside
    obtain ⟨_, _, -, -, store⟩ := Statement.storeStep_eq_ok (accepted.stores f member)
    cases store.symm.trans same
  · exact .ofSteps _

/-- **The kernel of a batch synchronizes if it is paced**, and its barriers stand where all workers come. -/
theorem generateFor_synchronizes {kind : Operation.Kind} {transposed : Bool} {demand : Demand}
    {p : RowTuning} {program : Program} (ok : generateFor kind transposed demand p op = .ok program)
    (member : kernel ∈ program.kernels) (proper : kernel.Proper) (sized : kernel.Sized bindings)
    (small : ∀ x n, bindings x = some n → n.toNat < 2 ^ 32) :
    kernel.body.Convergent kernel.sizes ∧ (Paced p op bindings → kernel.Synchronizes bindings) := by
  obtain ⟨k, operands, kernel', -, accepted, collected, kernels, arguments, -, geometry, code⟩ :=
    generateFor_eq_ok ok
  obtain rfl := accepted.record
  obtain rfl := List.mem_singleton.mp (kernels ▸ member)
  have takes : kernel.Takes op bindings := ⟨⟨_, operands, collected, fun name a found => arguments ▸ found⟩,
    fun a inside => (proper a inside).2, sized, small⟩
  have shaped : kernel.geometry.shape? bindings = some (launch k.record) := by
    rw [geometry]
    rfl
  refine ⟨code ▸ body_convergent accepted takes, fun paced => .of_leads shaped
    (fun _ => (layout k.record).publishing) (fun _ => (full k.record).publishing_apart) fun g => ?_⟩
  exact code ▸ body_leads_team accepted takes code paced

end TunedKernel.RowReduction
