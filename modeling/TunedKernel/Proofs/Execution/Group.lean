/-
**What a group does from barrier to barrier.**

From one barrier to the next the workers of a group keep out of each other's way, so each may be
followed alone from the memory they all began with. At a barrier the memories that they see come
together again.

* `Phase`, `Phase.Apart` — what each worker reads and writes until the next barrier, and that no
  one writes what another one reads.
* `Proceeds` — the group can be followed to its end, phase by phase. `Proceeds.confined`: then it
  gets there in every order of moves.
* `Stage`, `Stage.Leads` — a group in the middle of a phase, and code that leads it from there to a
  goal. `Leads.work`, `Leads.barrier`, `Leads.append` and `Leads.range` are the rules: code without
  barriers, a barrier, one piece after another, and a loop that all workers go through together.
-/

import TunedKernel.Proofs.Execution.Worker

namespace TunedKernel

variable {α : Type} {shape : Shape} {e : Elements α} {g : shape.Group}

/-! ### Phases -/

/-- What each worker of a group reads and writes until the next barrier. -/
structure Phase (shape : Shape) where
  reads : shape.Lane → Set Place
  writes : shape.Lane → Set Place

/-- In a phase no worker writes what another one reads. Each may read what it writes, and all of
them keep inside what the group reads and writes. -/
structure Phase.Apart (phase : Phase shape) (reads writes : Set Place) : Prop where
  apart : ∀ i j, i ≠ j → Disjoint (phase.writes i) (phase.reads j)
  writes_reads : ∀ l, phase.writes l ⊆ phase.reads l
  reads_sub : ∀ l, phase.reads l ⊆ reads
  writes_sub : ∀ l, phase.writes l ⊆ writes

/-- A worker with what it reads and writes in a phase. -/
def Phase.station (phase : Phase shape) (e : Elements α) (g : shape.Group) (l : shape.Lane) :
    Station α := ⟨shape.worker g l, e, phase.reads l, phase.writes l⟩

/-- A memory in which those that the workers see come together, at the end of a phase that began
with `m`. -/
def Phase.Joins (phase : Phase shape) (m : Memory α) (seen : shape.Lane → Memory α)
    (k : Memory α) : Prop :=
  (∀ l, Set.EqOn k (seen l) (phase.reads l)) ∧ Set.EqOn k m (⋃ l, phase.writes l)ᶜ

/-- There is at most one memory in which those that the workers see come together. -/
theorem Phase.Apart.joins_unique {phase : Phase shape} {reads writes : Set Place}
    (apart : phase.Apart reads writes) {m k k' : Memory α} {seen : shape.Lane → Memory α}
    (joins : phase.Joins m seen k) (joins' : phase.Joins m seen k') : k = k' := by
  funext p
  by_cases written : p ∈ ⋃ l, phase.writes l
  · obtain ⟨l, here⟩ := Set.mem_iUnion.mp written
    have read := apart.writes_reads l here
    rw [joins.1 l read, joins'.1 l read]
  · rw [joins.2 written, joins'.2 written]

open Classical in
/-- A memory that agrees with the workers on what they read, and is unchanged where the group reads
and they do not write, is as good as one in which their memories come together. -/
theorem Phase.Apart.exists_joins {phase : Phase shape} {reads writes : Set Place}
    (apart : phase.Apart reads writes) {m k : Memory α} {seen : shape.Lane → Memory α}
    (agree : ∀ l, Set.EqOn k (seen l) (phase.reads l))
    (kept : Set.EqOn k m (reads \ ⋃ l, phase.writes l)) :
    ∃ k', Set.EqOn k k' reads ∧ phase.Joins m seen k' := by
  refine ⟨reads.piecewise k m, ((Set.piecewise_eqOn reads k m).symm), fun l p read => ?_,
    fun p outside => ?_⟩
  · rw [Set.piecewise_eq_of_mem _ _ _ (apart.reads_sub l read), agree l read]
  · by_cases read : p ∈ reads
    · rw [Set.piecewise_eq_of_mem _ _ _ read, kept ⟨read, outside⟩]
    · rw [Set.piecewise_eq_of_notMem _ _ _ read]

/-- In a phase that began with `m`, a group whose threads have come to `threads`, each with a memory
it sees, can be followed to its end, with the memory then in the goal. -/
inductive Proceeds (e : Elements α) (g : shape.Group) (reads writes : Set Place)
    (goal : Memory α → Prop) :
    Phase shape → Memory α → (shape.Lane → Thread α) → (shape.Lane → Memory α) → Prop
  | finish {phase : Phase shape} {m : Memory α} {threads : shape.Lane → Thread α}
      {seen : shape.Lane → Memory α} (ended : ∀ l, (threads l).todo = [])
      (reached : ∀ k, phase.Joins m seen k → goal k) :
      Proceeds e g reads writes goal phase m threads seen
  | barrier {phase : Phase shape} {m : Memory α} {threads : shape.Lane → Thread α}
      {seen : shape.Lane → Memory α} (code : Code) (rest : List Frame)
      (waiting : ∀ l, (threads l).todo = .run (.step .barrier code) :: rest)
      (next : Phase shape) (apart : next.Apart reads writes)
      (further : ∀ k, phase.Joins m seen k →
        Proceeds e g reads writes goal next k (fun l => ⟨.run code :: rest, (threads l).names⟩)
          fun _ => k) :
      Proceeds e g reads writes goal phase m threads seen
  | work {phase : Phase shape} {m : Memory α} {threads threads' : shape.Lane → Thread α}
      {seen seen' : shape.Lane → Memory α}
      (run : ∀ l, ∃ n, (phase.station e g l).Reaches n (threads l) (seen l) (threads' l) (seen' l))
      (further : Proceeds e g reads writes goal phase m threads' seen') :
      Proceeds e g reads writes goal phase m threads seen

/-! ### Every order of moves -/

/-- The moves of one worker. -/
def WorkerMove (w : Worker) (e : Elements α) : Moves (Thread α) Place (Cell α) :=
  fun t m t' k => t.step? w e m = some (t', k)

/-- A worker that is followed to a point where it has no move is confined to its reads and writes. -/
theorem Station.Reaches.confined {q : Station α} {n : Nat} {t t' : Thread α} {m m' : Memory α}
    (run : q.Reaches n t m t' m') (stuck : ∀ k, t'.step? q.worker q.elements k = none) :
    Confined (WorkerMove q.worker q.elements) q.reads q.writes
      (fun s k => s = t' ∧ Set.EqOn k m' q.reads) n t m := by
  induction run with
  | refl t m =>
    refine .of_rest fun k same => ⟨⟨rfl, same⟩, fun s k' move => ?_⟩
    exact Option.some_ne_none _ (move.symm.trans (stuck k))
  | head move _ ih =>
    refine Or.inr fun k same => ?_
    obtain ⟨k', next, agree, kept⟩ := move k same
    refine ⟨⟨_, k', next⟩, fun s k'' other => ?_⟩
    cases next.symm.trans other
    exact ⟨kept, (ih stuck).congr agree⟩

/-- The workers of a group, each followed to a point where it has no move, get there in every order
of their moves. -/
theorem Phase.Apart.confined {phase : Phase shape} {reads writes : Set Place}
    (apart : phase.Apart reads writes) {m : Memory α} {threads ends : shape.Lane → Thread α}
    {seen : shape.Lane → Memory α}
    (run : ∀ l, ∃ n, (phase.station e g l).Reaches n (threads l) m (ends l) (seen l))
    (stuck : ∀ l k, (ends l).step? (shape.worker g l) e k = none) :
    ∃ n, Confined (Together fun l => WorkerMove (shape.worker g l) e) reads (⋃ l, phase.writes l)
      (fun s k => (s = ends ∧ ∀ l, Set.EqOn k (seen l) (phase.reads l)) ∧
        Set.EqOn k m (reads \ ⋃ l, phase.writes l)) n threads m := by
  choose count run using run
  refine ⟨∑ l, count l, ?_⟩
  have each (l : shape.Lane) := (run l).confined (stuck l)
  have joined := Confined.together apart.apart each
  refine (joined.frame (Set.iUnion_subset apart.reads_sub)).weaken (subset_refl _) ?_
  rintro s k ⟨ended, kept⟩
  exact ⟨⟨funext fun l => (ended l).1, fun l => (ended l).2⟩, kept⟩

/-- Until its workers have no more moves a group makes theirs. -/
theorem Confined.phase [Nonempty shape.Lane] {reads inner writes : Set Place} (sub : inner ⊆ writes)
    {here goal : (shape.Lane → Thread α) → Memory α → Prop} {n n' : Nat}
    {threads : shape.Lane → Thread α} {m : Memory α}
    (confined : Confined (Together fun l => WorkerMove (shape.worker g l) e) reads inner here n
      threads m)
    (next : ∀ s k, here s k → Confined (GroupMove shape e g) reads writes goal n' s k) :
    Confined (GroupMove shape e g) reads writes goal (n + n') threads m := by
  induction n generalizing threads m with
  | zero => exact (next threads m (confined m (Set.eqOn_refl _ _)).1).mono (Nat.le_add_left ..)
  | succ n ih =>
    rcases confined with rest | moving
    · exact (next threads m (rest m (Set.eqOn_refl _ _)).1).mono (Nat.le_add_left ..)
    · rw [Nat.succ_add]
      refine Or.inr fun k same => ?_
      obtain ⟨⟨s, k', l, t, able, -⟩, further⟩ := moving k same
      refine ⟨⟨_, _, .work l able⟩, fun s k' move => ?_⟩
      cases move with
      | work l next =>
        obtain ⟨outside, confined⟩ := further _ _ ⟨l, _, next, rfl⟩
        exact ⟨outside.mono (Set.compl_subset_compl.mpr sub), ih confined⟩
      | pass code rest waiting =>
        -- A worker with a move does not stand at a barrier.
        have none : (threads l).step? (shape.worker g l) e k = none := by
          rw [Thread.step?, waiting l]
          rfl
        exact absurd (able.symm.trans none) (Option.some_ne_none _)

/-- **A group that can be followed to its end gets there in every order of moves.** -/
theorem Proceeds.confined [Nonempty shape.Lane] {reads writes : Set Place}
    {goal : Memory α → Prop} {phase : Phase shape} {m : Memory α}
    {threads : shape.Lane → Thread α} {seen : shape.Lane → Memory α}
    (proceeds : Proceeds e g reads writes goal phase m threads seen)
    (apart : phase.Apart reads writes) :
    ∀ first : shape.Lane → Thread α,
      (∀ l, ∃ n, (phase.station e g l).Reaches n (first l) m (threads l) (seen l)) →
      ∃ n, Confined (GroupMove shape e g) reads writes
        (fun s k => (∀ l, (s l).todo = []) ∧ ∃ k', Set.EqOn k k' reads ∧ goal k') n first m := by
  induction proceeds with
  | @finish phase m threads seen ended reached =>
    intro first run
    have stuck (l : shape.Lane) (k : Memory α) :
        (threads l).step? (shape.worker g l) e k = none := by
      rw [Thread.step?, ended l]
    obtain ⟨n, confined⟩ := apart.confined run stuck
    refine ⟨n + 0, confined.phase (Set.iUnion_subset apart.writes_sub) ?_⟩
    rintro s k ⟨⟨rfl, agree⟩, kept⟩ k₁ same
    refine ⟨⟨ended, ?_⟩, fun s' k' move => ?_⟩
    · obtain ⟨k', agree', joins⟩ := apart.exists_joins agree kept
      exact ⟨k', same.trans agree', reached k' joins⟩
    · cases move with
      | work l next => exact Option.some_ne_none _ (next.symm.trans (stuck l k₁))
      | pass code rest waiting =>
        obtain ⟨l⟩ := ‹Nonempty shape.Lane›
        have none := (ended l).symm.trans (waiting l)
        cases none
  | @barrier phase m threads seen code rest waiting next apart' further ih =>
    intro first run
    have stuck (l : shape.Lane) (k : Memory α) :
        (threads l).step? (shape.worker g l) e k = none := by
      rw [Thread.step?, waiting l]
      rfl
    obtain ⟨n, confined⟩ := apart.confined run stuck
    by_cases possible : ∃ k, phase.Joins m seen k
    · obtain ⟨k', joins'⟩ := possible
      obtain ⟨n', later⟩ := ih k' joins' apart' _ fun l => ⟨0, .refl _ _⟩
      refine ⟨n + (n' + 1), confined.phase (Set.iUnion_subset apart.writes_sub) ?_⟩
      rintro s k ⟨⟨rfl, agree⟩, kept⟩
      obtain ⟨k₁, same, joins⟩ := apart.exists_joins agree kept
      obtain rfl := apart.joins_unique joins joins'
      refine Or.inr fun k₂ same₂ => ⟨⟨_, _, .pass code rest waiting⟩, fun s' k₃ move => ?_⟩
      cases move with
      | work l next => exact absurd (next.symm.trans (stuck l k₂)) (Option.some_ne_none _)
      | pass code' rest' waiting' =>
        obtain ⟨l⟩ := ‹Nonempty shape.Lane›
        cases (waiting l).symm.trans (waiting' l)
        exact ⟨Set.eqOn_refl _ _, later.congr (same₂.trans same)⟩
    · refine ⟨n + 0, confined.phase (Set.iUnion_subset apart.writes_sub) ?_⟩
      rintro s k ⟨⟨rfl, agree⟩, kept⟩
      obtain ⟨k₁, -, joins⟩ := apart.exists_joins agree kept
      exact absurd ⟨k₁, joins⟩ possible
  | @work phase m threads threads' seen seen' run further ih =>
    intro first begun
    refine ih apart first fun l => ?_
    obtain ⟨n, one⟩ := begun l
    obtain ⟨n', two⟩ := run l
    exact one.trans two

/-! ### Code of a group -/

/-- A group in the middle of a phase: the memory that the phase began with, and for each worker its
names and the memory it sees. -/
structure Stage (shape : Shape) (α : Type) where
  phase : Phase shape
  start : Memory α
  names : shape.Lane → Names α
  seen : shape.Lane → Memory α

/-- Code leads a group to a goal: whatever comes after it, the group can be followed to its end if
it can be followed from every stage of the goal. Nothing but the code's own names is bound. -/
def Stage.Leads (e : Elements α) (g : shape.Group) (reads writes : Set Place) (code : Code)
    (stage : Stage shape α) (reached : Stage shape α → Prop) : Prop :=
  ∀ after rest goal,
    (∀ next : Stage shape α, (∀ l, (stage.names l).Same code.binders (next.names l)) →
      reached next →
      Proceeds e g reads writes goal next.phase next.start
        (fun l => ⟨.run after :: rest, next.names l⟩) next.seen) →
    Proceeds e g reads writes goal stage.phase stage.start
      (fun l => ⟨.run (code ++ after) :: rest, stage.names l⟩) stage.seen

namespace Stage.Leads

variable {reads writes : Set Place} {stage : Stage shape α} {reached : Stage shape α → Prop}

/-- The goal may be weakened, also by what the code leaves alone. -/
theorem weaken {code : Code} {stronger : Stage shape α → Prop}
    (leads : Stage.Leads e g reads writes code stage stronger)
    (implies : ∀ next : Stage shape α, (∀ l, (stage.names l).Same code.binders (next.names l)) →
      stronger next → reached next) : Stage.Leads e g reads writes code stage reached :=
  fun after rest goal further => leads after rest goal fun next same strong =>
    further next same (implies next same strong)

/-- Code without barriers: every worker is followed alone. -/
theorem work {code : Code} {here : shape.Lane → Names α → Memory α → Prop}
    (each : ∀ l, (stage.phase.station e g l).Leads code (stage.names l) (stage.seen l) (here l)) :
    Stage.Leads e g reads writes code stage fun next => next.phase = stage.phase ∧
      next.start = stage.start ∧ ∀ l, here l (next.names l) (next.seen l) := by
  intro after rest goal further
  choose names seen reached same run using each
  refine .work (fun l => run l after rest) ?_
  exact further ⟨stage.phase, stage.start, names, seen⟩ same ⟨rfl, rfl, reached⟩

/-- A barrier: the memories that the workers see come together, and a new phase begins. -/
theorem barrier (next : Phase shape) (apart : next.Apart reads writes) :
    Stage.Leads e g reads writes (.step .barrier .done) stage fun after =>
      after.phase = next ∧ after.names = stage.names ∧ (∀ l, after.seen l = after.start) ∧
        stage.phase.Joins stage.start stage.seen after.start := by
  intro after rest goal further
  refine .barrier after rest (fun l => rfl) next apart fun k joins => ?_
  exact further ⟨next, k, stage.names, fun _ => k⟩ (fun l => Names.Same.refl _ _)
    ⟨rfl, rfl, fun l => rfl, joins⟩

theorem done (here : reached stage) : Stage.Leads e g reads writes .done stage reached :=
  fun _ _ _ further => further stage (fun _ => Names.Same.refl _ _) here

theorem append {first second : Code}
    (leads : Stage.Leads e g reads writes first stage fun next =>
      Stage.Leads e g reads writes second next reached) :
    Stage.Leads e g reads writes (first ++ second) stage reached := by
  intro after rest goal further
  rw [Code.append_assoc]
  refine leads (second ++ after) rest goal fun next same leads' => ?_
  refine leads' after rest goal fun last same' here => further last (fun l => ?_) here
  exact ((same l).mono fun x member => Code.mem_binders_append.mpr (Or.inl member)).trans
    ((same' l).mono fun x member => Code.mem_binders_append.mpr (Or.inr member))

end Stage.Leads

/-- A stage with a name bound anew by every worker. -/
def Stage.bind (stage : Stage shape α) (name : String) (binding : Binding α) : Stage shape α :=
  { stage with names := fun l => (stage.names l).bind name binding }

/-- **A loop that all workers of a group go through together.** Its counter has the same value for
all of them, and so have its bound and its stride. -/
theorem Stage.Leads.range {reads writes : Set Place} {stage : Stage shape α}
    {reached : Stage shape α → Prop} {l : Loop} {body code : Code} {a d b : Nat} (positive : 0 < d)
    (counts : ∀ i, l.Counts (shape.worker g i) (stage.names i) (l.counter :: body.binders) a d b)
    (invariant : Nat → Stage shape α → Prop)
    (kept : l.counter ∉ body.binders)
    (start : invariant 0 (stage.bind l.counter (.index a)))
    (trip : ∀ t, a + t * d < b → ∀ here : Stage shape α,
      (∀ i, (stage.names i).Same (l.counter :: body.binders) (here.names i)) →
      (∀ i, here.names i l.counter = some (.index (a + t * d))) → invariant t here →
      Stage.Leads e g reads writes body here fun next =>
        invariant (t + 1) (next.bind l.counter (.index (a + (t + 1) * d))))
    (finish : ∀ here : Stage shape α,
      (∀ i, (stage.names i).Same (l.counter :: body.binders) (here.names i)) →
      invariant (trips a d b) here → Stage.Leads e g reads writes code here reached) :
    Stage.Leads e g reads writes (.loop l body code) stage reached := by
  intro after rest goal further
  -- From the check before trip `t` the remaining trips are made one after the other.
  have remaining (k : Nat) : ∀ t, t + k = trips a d b → ∀ here : Stage shape α,
      (∀ i, (stage.names i).Same (l.counter :: body.binders) (here.names i)) →
      (∀ i, here.names i l.counter = some (.index (a + t * d))) → invariant t here →
      Proceeds e g reads writes goal here.phase here.start
        (fun i => ⟨.check l body :: .run (code ++ after) :: rest, here.names i⟩) here.seen := by
    induction k with
    | zero =>
      intro t total here same at' holds
      rw [Nat.add_zero] at total
      subst total
      have above : ¬ a + trips a d b * d < b :=
        fun below => Nat.lt_irrefl _ ((lt_trips_iff positive).mpr below)
      refine .work (fun i => ⟨1, .single (.over (at' i) ((counts i).bound _ (same i)) above)⟩) ?_
      refine finish here same holds after rest goal fun last same' done => further last (fun i => ?_)
        done
      refine ((same i).mono fun x member => ?_).trans ((same' i).mono fun x member => ?_)
      · rcases List.mem_cons.mp member with rfl | member
        · exact List.mem_cons_self
        · exact List.mem_cons_of_mem _ (List.mem_append_left _ member)
      · exact List.mem_cons_of_mem _ (List.mem_append_right _ member)
    | succ k ih =>
      intro t total here same at' holds
      have below : a + t * d < b := (lt_trips_iff positive).mp (by omega)
      refine .work (fun i => ⟨1, .single (.again (at' i) ((counts i).bound _ (same i)) below)⟩) ?_
      have body' := trip t below here same at' holds .done
        (.advance l body :: .run (code ++ after) :: rest) goal
      rw [Code.append_done] at body'
      refine body' fun next same' holds' => ?_
      have sameNext (i : shape.Lane) : (stage.names i).Same (l.counter :: body.binders)
          (next.names i) := (same i).trans ((same' i).mono fun x => List.mem_cons_of_mem _)
      have at₁ (i : shape.Lane) : next.names i l.counter = some (.index (a + t * d)) :=
        (same' i _ kept).trans (at' i)
      have moved := ih (t + 1) (by omega) (next.bind l.counter (.index (a + (t + 1) * d)))
        (fun i => (sameNext i).bind List.mem_cons_self _) (fun i => Names.bind_self ..) holds'
      rw [Nat.succ_mul, ← Nat.add_assoc] at moved
      refine .work (fun i => ⟨2, .head .leave (.single ?_)⟩) moved
      exact .advance (at₁ i) ((counts i).stride _ (sameNext i))
  refine .work (fun i => ⟨1, .single (.enter ((counts i).first _ (.refl _ _)))⟩) ?_
  refine remaining (trips a d b) 0 (Nat.zero_add _) (stage.bind l.counter (.index a)) (fun i => ?_)
    (fun i => ?_) start
  · exact (Names.Same.refl _ _).bind List.mem_cons_self _
  · rw [Nat.zero_mul, Nat.add_zero]
    exact Names.bind_self ..

/-! ### Launches -/

/-- The stage at which a group begins. -/
def Stage.first (phase : Phase shape) (names : Names α) (m : Memory α) : Stage shape α :=
  ⟨phase, m, fun _ => names, fun _ => m⟩

/-- A group that is led to a goal from the beginning of a phase gets there in every order of moves. -/
theorem Stage.Leads.confined [Nonempty shape.Lane] {reads writes : Set Place} {code : Code}
    {phase : Phase shape} {names : shape.Lane → Names α} {m : Memory α} {goal : Memory α → Prop}
    (apart : phase.Apart reads writes)
    (leads : Stage.Leads e g reads writes code ⟨phase, m, names, fun _ => m⟩ fun last =>
      ∀ k, last.phase.Joins last.start last.seen k → goal k) :
    ∃ n, Confined (GroupMove shape e g) reads writes
      (fun s k => (∀ l, (s l).todo = []) ∧ ∃ k', Set.EqOn k k' reads ∧ goal k') n
      (fun l => ⟨[.run code], names l⟩) m := by
  have proceeds := leads .done [] goal fun last _ reached =>
    .work (fun l => ⟨1, .single .leave⟩) (.finish (fun _ => rfl) reached)
  rw [Code.append_done] at proceeds
  exact proceeds.confined apart _ fun l => ⟨0, .refl _ _⟩

/-- **A kernel whose groups keep out of each other's way ends as each of them alone does**, and
nothing is changed but what they write. -/
theorem Kernel.ends_of_groups {kernel : Kernel} {host : String → α} {bindings : Bindings}
    {m : Memory α} {final : Memory α → Prop} [Nonempty shape.Lane]
    (shaped : kernel.geometry.shape? bindings = some shape)
    (reads writes : shape.Group → Set Place)
    (apart : ∀ g g', g ≠ g' → Disjoint (writes g) (reads g'))
    (phase : shape.Group → Phase shape) (begins : ∀ g, (phase g).Apart (reads g) (writes g))
    (goal : shape.Group → Memory α → Prop)
    (each : ∀ g, Stage.Leads e g (reads g) (writes g) kernel.body
      (.first (phase g) (kernel.names host bindings) m) fun last =>
        ∀ k, last.phase.Joins last.start last.seen k → goal g k)
    (reached : ∀ k, (∀ g, ∃ k', Set.EqOn k k' (reads g) ∧ goal g k') →
      Set.EqOn k m (⋃ g, writes g)ᶜ → final k) :
    kernel.Ends host bindings e m final := by
  have confined (g : shape.Group) := (each g).confined (begins g)
  choose n confined using confined
  refine ⟨shape, shaped, (Confined.together apart confined).inevitable.weaken ?_⟩
  rintro threads k ⟨ended, kept⟩
  exact ⟨fun g => (ended g).1, reached k (fun g => (ended g).2) kept⟩

end TunedKernel
