/-
**Folding local memory.**

At a stage of stride `σ` a slot below `σ` takes in the slot `σ` further on, as far as there is one.
What is folded out of the slots below a power of two stays the same while the power is halved, so at
the end slot zero holds it all.

* `taken`, `settled` — the content of a slot after a stage, and after all of them; `prod_settled` — the
  fold does not change.
* `powerAbove_eq`, `halvings_half` — the strides are the powers of two below the extent.
* `Tree.Layout` — which slot of the buffers belongs to which worker.
* `Tree.Level` — before a stage every worker below the power of two knows its slot.
* `Tree.stage_leads`, `Tree.code_settles` — what a stage does, and all of them, whatever the operators are.
* `Tree.code_leads` — with lawful operators they fold the slots of a row into its first slot.
-/

import Mathlib.Algebra.BigOperators.Group.Finset.Basic
import Mathlib.Data.Nat.Log
import TunedKernel.Kernel.Tree
import TunedKernel.Proofs.Execution.Footing
import TunedKernel.Proofs.Execution.Items

namespace TunedKernel

variable {α : Type}

/-! ### Strides -/

theorem le_powerAbove (n : Nat) : n ≤ powerAbove n := by
  unfold powerAbove
  split
  · next small => exact small
  · next large =>
    have below := (n - 1).lt_log2_self
    show n ≤ 2 ^ ((n - 1).log2 + 1)
    omega

/-- The power of two at or above a number has its logarithm, rounded up. -/
theorem powerAbove_eq (n : Nat) : powerAbove n = 2 ^ Nat.clog 2 n := by
  by_cases small : n ≤ 1
  · rw [powerAbove, if_pos small, Nat.clog_of_right_le_one small, Nat.pow_zero]
  · rw [powerAbove, if_neg small]
    show 2 ^ _ = _
    congr 1
    have below := Nat.log2_self_le (n := n - 1) (by omega)
    have above := Nat.lt_log2_self (n := n - 1)
    refine Nat.le_antisymm (Nat.lt_of_not_le fun le => ?_) ?_
    · have reached := (Nat.clog_le_iff_le_pow (by decide)).mp le
      omega
    · exact (Nat.clog_le_iff_le_pow (by decide)).mpr (by omega)

/-- The strides are the powers of two, largest first. -/
theorem halvings_half (k : Nat) :
    halvings (2 ^ k / 2) = ((List.range k).map (2 ^ ·)).reverse := by
  induction k with
  | zero => rw [halvings, dif_pos (by decide)]; rfl
  | succ k ih =>
    have half : 2 ^ (k + 1) / 2 = 2 ^ k := by
      rw [Nat.pow_succ, Nat.mul_div_cancel _ (Nat.succ_pos 1)]
    rw [half, halvings, dif_neg (Nat.ne_of_gt (Nat.two_pow_pos k)), ih, List.range_succ,
      List.map_append, List.reverse_append]
    rfl

/-- The strides that fold an extent. -/
theorem strides_eq_ok {ε : Type} {extent : Nat} {found : List Nat}
    (ok : strides (ε := ε) extent = .ok found) :
    ∃ k, powerAbove extent = 2 ^ k ∧ found = ((List.range k).map (2 ^ ·)).reverse := by
  refine ⟨_, powerAbove_eq extent, ?_⟩
  unfold strides at ok
  dsimp only at ok
  split at ok
  · cases ok
    rw [powerAbove_eq, halvings_half]
  · cases ok

/-! ### What a stage does to the slots -/

/-- The content of a slot after a stage. -/
def taken (op : α → α → α) (extent stride : Nat) (x : Nat → α) (j : Nat) : α :=
  if j < stride ∧ j + stride < extent then op (x j) (x (j + stride)) else x j

/-- **A stage leaves the fold of the slots in use as it was.** -/
theorem prod_taken [CommMonoid α] (extent stride : Nat) (x : Nat → α) :
    ∏ j ∈ Finset.range (min extent stride), taken (· * ·) extent stride x j =
      ∏ j ∈ Finset.range (min extent (stride + stride)), x j := by
  by_cases short : extent ≤ stride
  · rw [Nat.min_eq_left short, Nat.min_eq_left (short.trans (Nat.le_add_left ..))]
    refine Finset.prod_congr rfl fun j _ => if_neg fun ⟨_, beyond⟩ => ?_
    exact absurd (beyond.trans_le short) (Nat.not_lt.mpr (Nat.le_add_left ..))
  · obtain ⟨rest, total⟩ : ∃ rest, min extent (stride + stride) = stride + rest ∧ rest ≤ stride :=
      ⟨min extent (stride + stride) - stride, by omega, by omega⟩
    have within {j : Nat} (below : j < stride) : j < rest ↔ j < stride ∧ j + stride < extent := by
      omega
    rw [Nat.min_eq_right (Nat.le_of_not_le short), total.1, Finset.prod_range_add]
    have split : ∀ j ∈ Finset.range stride, taken (· * ·) extent stride x j =
        x j * if j < rest then x (stride + j) else 1 := by
      intro j member
      unfold taken
      rw [Nat.add_comm stride j]
      by_cases below : j < rest
      · rw [if_pos below, if_pos ((within (Finset.mem_range.mp member)).mp below)]
      · rw [if_neg below, mul_one,
          if_neg fun holds => below ((within (Finset.mem_range.mp member)).mpr holds)]
    rw [Finset.prod_congr rfl split, Finset.prod_mul_distrib]
    congr 1
    rw [← Finset.prod_filter]
    congr 1
    ext j
    simp only [Finset.mem_filter, Finset.mem_range]
    omega

/-- The contents of the slots after the stages for the powers of two below `2 ^ n`, largest first. -/
def settled (op : α → α → α) (extent : Nat) : Nat → (Nat → α) → Nat → α
  | 0, x => x
  | n + 1, x => settled op extent n (taken op extent (2 ^ n) x)

/-- **The stages leave the fold of the slots in use as it was.** -/
theorem prod_settled [CommMonoid α] (extent n : Nat) (x : Nat → α) :
    ∏ j ∈ Finset.range (min extent 1), settled (· * ·) extent n x j =
      ∏ j ∈ Finset.range (min extent (2 ^ n)), x j := by
  induction n generalizing x with
  | zero => rfl
  | succ n ih => rw [settled, ih, prod_taken, ← Nat.two_mul, Nat.pow_succ']

namespace Tree

/-! ### Slots -/

variable {shape : Shape}

/-- The slot of every worker: the row of the buffers, and where the slot stands in it. -/
structure Layout (shape : Shape) where
  row : shape.Lane → List Nat
  slot : shape.Lane → Nat

/-- The subscripts of a worker's slot. -/
def Layout.own (layout : Layout shape) (l : shape.Lane) : List Nat :=
  layout.row l ++ [layout.slot l]

/-- Every slot of a row below the extent belongs to one worker. -/
structure Layout.Full (layout : Layout shape) (extent : Nat) : Prop where
  below : ∀ l, layout.slot l < extent
  unique : ∀ l l', layout.row l = layout.row l' → layout.slot l = layout.slot l' → l = l'
  full : ∀ l, ∀ j < extent, ∃ l', layout.row l' = layout.row l ∧ layout.slot l' = j

namespace Layout

variable {layout : Layout shape} {extent : Nat} {l l' : shape.Lane}

/-- Before the first stage a worker uses its own slot. -/
def publishing (layout : Layout shape) : Use shape where
  writes l := {slot | slot.2 = layout.own l}
  reads l := {slot | slot.2 = layout.own l}

/-- At a stage a worker below the stride uses its own slot, and reads the one further on. -/
def folding (layout : Layout shape) (stride : Nat) : Use shape where
  writes l := {slot | layout.slot l < stride ∧ slot.2 = layout.own l}
  reads l := {slot | layout.slot l < stride ∧
    (slot.2 = layout.own l ∨ slot.2 = layout.row l ++ [layout.slot l + stride])}

theorem append_singleton_inj {ns ms : List Nat} {i j : Nat} (same : ns ++ [i] = ms ++ [j]) :
    ns = ms ∧ i = j := by
  obtain ⟨first, last⟩ := List.append_inj' same rfl
  exact ⟨first, List.singleton_inj.mp last⟩

theorem Full.own_unique (full : layout.Full extent) (same : layout.own l = layout.own l') :
    l = l' := by
  obtain ⟨row, slot⟩ := append_singleton_inj same
  exact full.unique l l' row slot

theorem Full.publishing_apart (full : layout.Full extent) : layout.publishing.Apart where
  sub := id
  apart written read := full.own_unique (written.symm.trans read)

theorem Full.folding_apart (full : layout.Full extent) (stride : Nat) :
    (layout.folding stride).Apart where
  sub written := ⟨written.1, Or.inl written.2⟩
  apart := by
    rintro i j slot ⟨below, written⟩ ⟨-, read | further⟩
    · exact full.own_unique (written.symm.trans read)
    · have beyond := (append_singleton_inj (written.symm.trans further)).2
      omega

end Layout

/-- The names of a worker lead it to its slot of every buffer. -/
structure Finds (layout : Layout shape) (bs : Buffers) (before : List Term) (lane : Term)
    (extent : Nat) (g : shape.Group) (l : shape.Lane) (names : Names α) : Prop where
  row : before.mapM (fun s => s.number? (shape.worker g l) names) = some (layout.row l)
  slot : lane.number? (shape.worker g l) names = some (layout.slot l)
  arrays : ∀ b ∈ bs, names b.1.name = some (.sharedArray b.1.dims)
  inside : ∀ b ∈ bs, ∀ j < extent, Term.inside (layout.row l ++ [j]) b.1.dims = true

/-- A slot of a buffer. -/
theorem Finds.at {layout : Layout shape} {bs : Buffers} {before : List Term} {lane : Term}
    {extent : Nat} {g : shape.Group} {l : shape.Lane} {names : Names α} {q : Station α}
    (worker : q.worker = shape.worker g l) (finds : Finds layout bs before lane extent g l names)
    {b : LocalMemory × ReduceOp} (member : b ∈ bs) {t : Term} {j : Nat}
    (number : t.number? (shape.worker g l) names = some j) (below : j < extent) :
    q.At names (b.1.access (before ++ [t])) (.shared g.triple b.1.name (layout.row l ++ [j])) := by
  have here := Station.at_shared (q := q) (finds.arrays b member)
    (Term.mapM_append_singleton (worker ▸ finds.row) (worker ▸ number)) (finds.inside b member j below)
  rw [worker] at here
  exact here

theorem access_ne_name (buffer : LocalMemory) (before : List Term) (t : Term) (name : String) :
    buffer.access (before ++ [t]) ≠ .name name := by
  rw [LocalMemory.access, Term.element_append]
  exact Term.noConfusion

/-- The content of a slot. -/
theorem gives_access {q : Station α} {names : Names α} {m : Memory α} {buffer : LocalMemory}
    {before : List Term} {t : Term} {p : Place}
    (here : q.At names (buffer.access (before ++ [t])) p) (inside : p ∈ q.reads) :
    q.Gives names m (buffer.access (before ++ [t])) fun _ => (m p).value := by
  rw [LocalMemory.access, Term.element_append] at here ⊢
  exact .at here inside

/-! ### A stage -/

/-- Whether a worker takes part in a stage. -/
theorem holds?_active {w : Worker} {names : Names α} {lane : Term} {extent stride j : Nat}
    (number : lane.number? w names = some j)
    (whole : powerAbove extent = extent → stride + stride ≤ extent) :
    (active lane extent stride).holds? w names =
      some (decide (j < stride ∧ j + stride < extent)) := by
  have below : (Term.binary .less lane (.number stride)).holds? w names =
      some (decide (j < stride)) := by
    rw [Term.holds?, number]
    rfl
  have further : (Term.binary .less (lane + .number stride) (.number extent)).holds? w names =
      some (decide (j + stride < extent)) := by
    rw [Term.holds?, Term.number?_add number rfl]
    rfl
  unfold active
  dsimp only
  split
  · next power =>
    rw [below]
    congr 1
    have enough := whole power
    exact decide_eq_decide.mpr ⟨fun small => ⟨small, by omega⟩, And.left⟩
  · rw [Term.holds?, below, further, Bool.decide_and]
    rfl

variable {f : Footing shape} {e : Elements α} {g : shape.Group} {layout : Layout shape}
  {bs : Buffers} {before : List Term} {lane : Term} {extent stride : Nat}

/-- **A worker that takes part takes in one slot of every buffer**, and changes nothing else. -/
theorem folds_lead {l : shape.Lane} {names : Names α} {m : Memory α}
    (finds : Finds layout bs before lane extent g l names)
    (distinct : (bs.map fun b => b.1.name).Nodup) (positive : 0 < stride)
    (below : layout.slot l < stride) (further : layout.slot l + stride < extent) :
    ((f.phase g (layout.folding stride)).station e g l).Leads
      (Code.ofSteps (bs.map (fold before lane stride))) names m fun _ m' =>
      (∀ b ∈ bs, (m' (.shared g.triple b.1.name (layout.own l))).value =
        e.reduce b.2 (m (.shared g.triple b.1.name (layout.own l))).value
          (m (.shared g.triple b.1.name (layout.row l ++ [layout.slot l + stride]))).value) ∧
      ∀ p, (∀ array, p ≠ .shared g.triple array (layout.own l)) → m' p = m p := by
  have other : layout.row l ++ [layout.slot l + stride] ≠ layout.own l := fun same => by
    have slot := (Layout.append_singleton_inj same).2
    omega
  have own (b : LocalMemory × ReduceOp) (member : b ∈ bs) :
      ((f.phase g (layout.folding stride)).station e g l).At names (b.1.access (before ++ [lane]))
        (.shared g.triple b.1.name (layout.own l)) :=
    finds.at rfl member finds.slot (Nat.lt_of_le_of_lt (Nat.le_add_right _ _) further)
  have next (b : LocalMemory × ReduceOp) (member : b ∈ bs) :=
    finds.at (q := (f.phase g (layout.folding stride)).station e g l) rfl member
      (t := lane + .number stride) (Term.number?_add finds.slot rfl) further
  have places : (bs.map fun b => Place.shared g.triple b.1.name (layout.own l)).Nodup := by
    refine distinct.of_map.map_on fun b member b' member' same => ?_
    exact List.inj_on_of_nodup_map distinct member member' (Place.shared.inj same).2.1
  refine (Station.Leads.storeEach _ (fun b _ => e.reduce b.2
      (m (.shared g.triple b.1.name (layout.own l))).value
      (m (.shared g.triple b.1.name (layout.row l ++ [layout.slot l + stride]))).value)
    (fun b _ => access_ne_name b.1 before lane) own
    (fun b _ => ⟨⟨rfl, below, Or.inl rfl⟩, rfl, below, rfl⟩) places
    fun b member m' fresh others => ?_).weaken ?_
  · rw [← fresh, ← others (.shared g.triple b.1.name (layout.row l ++ [layout.slot l + stride]))
      fun b' _ same => other (Place.shared.inj same).2.2]
    exact .combine (gives_access (own b member) ⟨rfl, below, Or.inl rfl⟩)
      (gives_access (next b member) ⟨rfl, below, Or.inr rfl⟩)
  · rintro _ m' - ⟨-, folded, others⟩
    exact ⟨folded, fun p outside => others p fun b _ => outside b.1.name⟩

/-- Every worker whose slot stands below a bound knows its slot of every buffer. The group sees the
buffers of the device as in a memory. -/
structure Level (f : Footing shape) (g : shape.Group) (layout : Layout shape) (bs : Buffers)
    (k : Memory α) (x : LocalMemory × ReduceOp → List Nat → Nat → α) (live : Nat)
    (stage : Stage shape α) : Prop where
  view : ∃ use, f.Shows g use k stage ∧ ∀ l, layout.slot l < live → ∀ b ∈ bs,
    (b.1.name, layout.own l) ∈ use.reads l
  values : ∀ l, layout.slot l < live → ∀ b ∈ bs,
    (stage.seen l (.shared g.triple b.1.name (layout.own l))).value =
      x b (layout.row l) (layout.slot l)

theorem binders_guarded (condition : Term) :
    (Code.ofGuard condition (Code.ofSteps (bs.map (fold before lane stride)))).binders = [] := by
  show (Code.ofSteps (bs.map (fold before lane stride))).binders ++ [] = []
  rw [List.append_nil]
  refine Code.binders_ofSteps_nil fun s member => ?_
  obtain ⟨b, -, rfl⟩ := List.mem_map.mp member
  exact Step.binder?_store (access_ne_name _ _ _)

/-- The stages bind no names. -/
theorem binders_code {ε : Type} {code : Code}
    (ok : Tree.code (ε := ε) bs before lane extent = .ok code) : code.binders = [] := by
  obtain ⟨found, -, ok⟩ := bind_eq_ok_iff.mp ok
  cases ok
  refine List.eq_nil_iff_forall_not_mem.mpr fun x bound => ?_
  obtain ⟨piece, member, bound⟩ := Code.mem_binders_join.mp bound
  obtain ⟨stride, -, rfl⟩ := List.mem_map.mp member
  have none : (stage bs before lane extent stride).binders = [] :=
    binders_guarded (active lane extent stride)
  exact List.not_mem_nil (none ▸ bound)

/-- **A stage halves the number of the slots in use**, and keeps what is folded out of them. -/
theorem stage_leads (separate : f.Separate) (full : layout.Full extent)
    (distinct : (bs.map fun b => b.1.name).Nodup) (positive : 0 < stride)
    (whole : powerAbove extent = extent → stride + stride ≤ extent) {k : Memory α}
    {x : LocalMemory × ReduceOp → List Nat → Nat → α} {here : Stage shape α}
    (finds : ∀ l, Finds layout bs before lane extent g l (here.names l))
    (level : Level f g layout bs k x (stride + stride) here) :
    Stage.Leads e g (f.reads g) (f.writes g) (stage bs before lane extent stride) here fun next =>
      Level f g layout bs k (fun b row => taken (e.reduce b.2) extent stride (x b row)) stride next ∧
        next.names = here.names := by
  obtain ⟨use, view, reads⟩ := level.view
  show Stage.Leads e g _ _ (Code.ofSteps [.barrier] ++ Code.ofGuard _ _) here _
  refine .append ((view.barrier separate (full.folding_apart stride)).weaken ?_)
  rintro after - ⟨view', names, seen, joins⟩
  -- Behind the barrier every worker sees every slot in use.
  have content (l : shape.Lane) (j : Nat) (live : j < stride + stride) (below : j < extent)
      (b : LocalMemory × ReduceOp) (member : b ∈ bs) :
      (after.start (.shared g.triple b.1.name (layout.row l ++ [j]))).value =
        x b (layout.row l) j := by
    obtain ⟨l', row, rfl⟩ := full.full l j below
    rw [← row]
    refine (congrArg Cell.value (Footing.joins_shared joins (reads l' live b member))).trans ?_
    exact level.values l' live b member
  have each (l : shape.Lane) : (after.phase.station e g l).Leads
      (Code.ofGuard (active lane extent stride) (Code.ofSteps (bs.map (fold before lane stride))))
      (after.names l) (after.seen l) fun _ m' =>
      (layout.slot l < stride → ∀ b ∈ bs,
        (m' (.shared g.triple b.1.name (layout.own l))).value =
          taken (e.reduce b.2) extent stride (x b (layout.row l)) (layout.slot l)) ∧
      ∀ buffer n, m' (.global buffer n) = after.seen l (.global buffer n) := by
    have finds' : Finds layout bs before lane extent g l (after.names l) := names ▸ finds l
    rw [view'.phase, seen l]
    refine .guarded (holds?_active finds'.slot whole) ?_
    by_cases takes : layout.slot l < stride ∧ layout.slot l + stride < extent
    · rw [decide_eq_true takes, if_pos rfl]
      refine (folds_lead finds' distinct positive takes.1 takes.2).weaken ?_
      rintro names' m' - ⟨folded, others⟩
      refine .done ⟨fun _ b member => ?_, fun buffer n => others _ fun _ => Place.noConfusion⟩
      have own := content l (layout.slot l) (by omega) (full.below l) b member
      rw [folded b member, taken, if_pos takes, content l _ (by omega) takes.2 b member]
      rw [← own]
      rfl
    · rw [decide_eq_false takes, if_neg Bool.false_ne_true]
      refine .done ⟨fun below b member => ?_, fun _ _ => rfl⟩
      rw [taken, if_neg takes]
      exact content l (layout.slot l) (by omega) (full.below l) b member
  refine (Stage.Leads.work each).weaken ?_
  rintro next same ⟨phase, start, worked⟩
  refine ⟨⟨⟨layout.folding stride, view'.keep phase start fun l => (worked l).2,
    fun l below b _ => ⟨below, Or.inl rfl⟩⟩, fun l below b member => (worked l).1 below b member⟩,
    funext fun l => funext fun name => ?_⟩
  rw [same l name (by rw [binders_guarded]; exact List.not_mem_nil), names]

/-! ### All stages -/

/-- The stages for the powers of two below a power settle the slots below it. -/
theorem stages_settle (separate : f.Separate) (full : layout.Full extent)
    (distinct : (bs.map fun b => b.1.name).Nodup) {k : Memory α} (n : Nat)
    (whole : powerAbove extent = extent → 2 ^ n ≤ extent)
    (x : LocalMemory × ReduceOp → List Nat → Nat → α) (here : Stage shape α)
    (finds : ∀ l, Finds layout bs before lane extent g l (here.names l))
    (level : Level f g layout bs k x (2 ^ n) here) :
    Stage.Leads e g (f.reads g) (f.writes g)
      (stages bs before lane extent ((List.range n).map (2 ^ ·)).reverse) here fun next =>
      next.names = here.names ∧
        Level f g layout bs k (fun b row => settled (e.reduce b.2) extent n (x b row)) 1 next := by
  induction n generalizing x here with
  | zero => exact .done ⟨rfl, level⟩
  | succ n ih =>
    have double : 2 ^ (n + 1) = 2 ^ n + 2 ^ n := by rw [Nat.pow_succ, Nat.mul_two]
    have strides : ((List.range (n + 1)).map (2 ^ ·)).reverse =
        2 ^ n :: ((List.range n).map (2 ^ ·)).reverse := by
      rw [List.range_succ, List.map_append, List.reverse_append]
      rfl
    rw [double] at whole level
    rw [strides]
    show Stage.Leads e g _ _ (stage bs before lane extent (2 ^ n) ++ stages ..) here _
    refine .append ((stage_leads separate full distinct (Nat.two_pow_pos n) whole finds
      level).weaken ?_)
    rintro next - ⟨level', names⟩
    refine (ih (fun power => (Nat.le_add_left ..).trans (whole power)) _ next
      (fun l => names ▸ finds l) level').weaken ?_
    rintro last - ⟨names', level''⟩
    exact ⟨names'.trans names, level''⟩

/-- **The stages settle the slots below the extent**, whatever the operators are. -/
theorem code_settles {ε : Type} {code : Code}
    (ok : Tree.code (ε := ε) bs before lane extent = .ok code) (separate : f.Separate)
    (full : layout.Full extent) (distinct : (bs.map fun b => b.1.name).Nodup) {k : Memory α}
    (x : LocalMemory × ReduceOp → List Nat → Nat → α) {here : Stage shape α}
    (finds : ∀ l, Finds layout bs before lane extent g l (here.names l))
    (view : f.Shows g layout.publishing k here)
    (values : ∀ l, ∀ b ∈ bs, (here.seen l (.shared g.triple b.1.name (layout.own l))).value =
      x b (layout.row l) (layout.slot l)) :
    ∃ n, extent ≤ 2 ^ n ∧
      Stage.Leads e g (f.reads g) (f.writes g) code here fun next => next.names = here.names ∧
        Level f g layout bs k (fun b row => settled (e.reduce b.2) extent n (x b row)) 1 next := by
  obtain ⟨found, strided, ok⟩ := bind_eq_ok_iff.mp ok
  cases ok
  obtain ⟨n, power, rfl⟩ := strides_eq_ok strided
  exact ⟨n, power ▸ le_powerAbove extent, stages_settle separate full distinct n
    (fun same => (power.symm.trans same).le) x here finds
    ⟨⟨_, view, fun l _ b _ => rfl⟩, fun l _ => values l⟩⟩

/-- With a lawful operator slot zero settles at the fold of all slots. -/
theorem settled_zero {type : NumericType} {op : ReduceOp} (lawful : e.Lawful type op) {n : Nat}
    (positive : 0 < extent) (enough : extent ≤ 2 ^ n) (x : Nat → α) :
    settled (e.reduce op) extent n x 0 = e.fold type op ((List.range extent).map x) := by
  let := lawful.monoid
  have folded := prod_settled extent n x
  rw [Nat.min_eq_right positive, Nat.min_eq_left enough, Finset.prod_range_one] at folded
  rw [lawful.fold_range]
  exact folded

/-- **The stages fold the slots of a row into its first slot**, for every buffer. -/
theorem code_leads {ε : Type} {type : NumericType} {code : Code}
    (ok : Tree.code (ε := ε) bs before lane extent = .ok code) (positive : 0 < extent)
    (separate : f.Separate) (full : layout.Full extent)
    (distinct : (bs.map fun b => b.1.name).Nodup) (lawful : ∀ b ∈ bs, e.Lawful type b.2)
    {k : Memory α} {x : LocalMemory × ReduceOp → List Nat → Nat → α} {here : Stage shape α}
    (finds : ∀ l, Finds layout bs before lane extent g l (here.names l))
    (view : f.Shows g layout.publishing k here)
    (values : ∀ l, ∀ b ∈ bs, (here.seen l (.shared g.triple b.1.name (layout.own l))).value =
      x b (layout.row l) (layout.slot l)) :
    Stage.Leads e g (f.reads g) (f.writes g) code here fun next => next.names = here.names ∧
      (∃ use, f.Shows g use k next ∧ ∀ l, layout.slot l = 0 → ∀ b ∈ bs,
        (b.1.name, layout.own l) ∈ use.reads l) ∧
      ∀ l, layout.slot l = 0 → ∀ b ∈ bs,
        (next.seen l (.shared g.triple b.1.name (layout.own l))).value =
          e.fold type b.2 ((List.range extent).map (x b (layout.row l))) := by
  obtain ⟨n, enough, leads⟩ := code_settles ok separate full distinct x finds view values
  refine leads.weaken ?_
  rintro next - ⟨names, level⟩
  obtain ⟨use, view', reads⟩ := level.view
  refine ⟨names, ⟨use, view', fun l first => reads l (by omega)⟩, fun l first b member => ?_⟩
  rw [level.values l (by omega) b member, first, settled_zero (lawful b member) positive enough]

end Tree

end TunedKernel
