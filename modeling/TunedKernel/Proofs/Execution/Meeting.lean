/-
**How the workers of a group meet at barriers.**

Each worker is followed alone, past the barriers of a plan that all of them have in common. The plan says how
they use the slots of their arrays behind each barrier.

* `Team`, `Team.Follows` — a group with its arrays, and a worker that follows a plan to its end.
  `Follows.split`, `Follows.crosses`: wherever it has come to, it has gone past the first barriers of the
  plan, and it can go past any number of them.
* `Team.Meets` — the workers of a group follow one plan. `Meets.together`, `Meets.apart`: then they go past
  the same barriers, and between two of them none uses a slot that another one stores into.
* `Team.Leads` — code that leads a group to a goal. `Leads.work`, `Leads.barrier`, `Leads.append` and
  `Leads.loop` are the rules: code without barriers, a barrier, one piece after another, and a loop that all
  workers go through together.
-/

import TunedKernel.Proofs.Execution.Footing
import TunedKernel.Proofs.Execution.Stints

namespace TunedKernel

variable {shape : Shape}

/-- A group of workers, with the names of the arrays that it shares. -/
structure Team (shape : Shape) where
  group : shape.Group
  arrays : List String

namespace Team

variable {q : Team shape} {l l' : shape.Lane} {use next : Use shape}
  {t t₁ t₂ : Thread Unit} {barriers : List (List Frame)} {slot : String × List Nat}

/-- The workers of a group. -/
abbrev worker (q : Team shape) (l : shape.Lane) : Worker := shape.worker q.group l

/-- What a worker may use until the next barrier. -/
def stint (q : Team shape) (use : Use shape) (l : shape.Lane) : Stint where
  worker := q.worker l
  arrays := q.arrays
  writes := use.writes l
  reads := use.reads l

/-! ### Plans -/

/-- The barriers that a worker goes past, told apart by what is still to do behind them, and how the slots
are used from there on. -/
abbrev Plan (shape : Shape) := List (List Frame × Use shape)

/-- A worker follows a plan to its end, and keeps to its stints on the way. -/
inductive Follows (q : Team shape) (l : shape.Lane) : Use shape → Plan shape → Thread Unit → Prop
  | finish {use : Use shape} (names : Names Unit) : Follows q l use [] ⟨[], names⟩
  | move {use : Use shape} {plan : Plan shape} {t t' : Thread Unit} (keeps : (q.stint use l).Keeps t)
      (moves : t.wrapped? (q.worker l) = some t') (further : Follows q l use plan t') :
      Follows q l use plan t
  | pass {use next : Use shape} {plan : Plan shape} {t : Thread Unit} {todo : List Frame}
      (stands : t.barrier? = some todo) (further : Follows q l next plan ⟨todo, t.names⟩) :
      Follows q l use ((todo, next) :: plan) t

/-- The use of the slots behind the last barrier of a plan. -/
def Plan.last (plan : Plan shape) (use : Use shape) : Use shape := (plan.map Prod.snd).getLastD use

/-- The accesses of a worker that stands at a barrier are none. -/
theorem accesses_of_barrier? {todo : List Frame} (stands : t.barrier? = some todo) : t.accesses = [] := by
  unfold Thread.barrier? at stands
  split at stands
  · next here => rw [Thread.accesses, here]; rfl
  · cases stands

theorem stores_sub {a : Access} (member : a ∈ t.stores) : a ∈ t.accesses := by
  unfold Thread.stores at member
  unfold Thread.accesses
  split at member
  · next s code rest here =>
    rw [here]
    exact Step.accesses_of_stores member
  · cases member

namespace Follows

/-- Whatever a worker uses next is in its stint. -/
theorem confines {plan : Plan shape} (follows : q.Follows l use plan t) (shared : slot.1 ∈ q.arrays) :
    (t.Uses (q.worker l) slot → slot ∈ use.reads l) ∧
      (t.Stores (q.worker l) slot → slot ∈ use.writes l) := by
  cases follows with
  | finish names =>
    exact ⟨fun ⟨_, member, _⟩ => (List.not_mem_nil member).elim,
      fun ⟨_, member, _⟩ => (List.not_mem_nil member).elim⟩
  | move keeps _ _ =>
    exact ⟨fun ⟨a, member, meets⟩ => keeps.reads a member slot shared meets,
      fun ⟨a, member, meets⟩ => keeps.writes a member slot shared meets⟩
  | pass stands _ =>
    have none (a : Access) : a ∉ t.accesses := accesses_of_barrier? stands ▸ List.not_mem_nil
    exact ⟨fun ⟨a, member, _⟩ => absurd member (none a),
      fun ⟨a, member, _⟩ => absurd (stores_sub member) (none a)⟩

/-- **Wherever a worker has come to, it has gone past the first barriers of its plan.** Moves are unique. -/
theorem split {plan : Plan shape} (follows : q.Follows l use plan t)
    (crosses : t.Crosses (q.worker l) barriers t₁) :
    ∃ past later : Plan shape, plan = past ++ later ∧ barriers = past.map Prod.fst ∧
      q.Follows l (past.last use) later t₁ := by
  induction crosses generalizing use plan with
  | refl t => exact ⟨[], plan, rfl, rfl, follows⟩
  | move free moves _ ih =>
    cases follows with
    | finish names => cases moves
    | move _ moves' further =>
      cases moves.symm.trans moves'
      exact ih further
    | pass stands _ => cases free.symm.trans stands
  | pass stands _ ih =>
    cases follows with
    | finish names => cases stands
    | move keeps _ _ => cases keeps.free.symm.trans stands
    | @pass _ next _ _ _ stands' further =>
      cases stands.symm.trans stands'
      obtain ⟨past, later, rfl, rfl, follows⟩ := ih further
      refine ⟨(_, next) :: past, later, rfl, rfl, ?_⟩
      rw [Plan.last, List.map_cons, List.getLastD_cons]
      exact follows

/-- It can go past any number of them. -/
theorem crosses {past later : Plan shape} (follows : q.Follows l use (past ++ later) t) :
    ∃ t₁, t.Crosses (q.worker l) (past.map Prod.fst) t₁ := by
  generalize whole : past ++ later = plan at follows
  induction follows generalizing past with
  | finish names =>
    obtain ⟨rfl, -⟩ := List.append_eq_nil_iff.mp whole
    exact ⟨_, .refl _⟩
  | move keeps moves _ ih =>
    obtain ⟨t₁, crosses⟩ := ih whole
    exact ⟨t₁, .move keeps.free moves crosses⟩
  | pass stands _ ih =>
    cases past with
    | nil => exact ⟨_, .refl _⟩
    | cons entry past =>
      obtain ⟨rfl, further⟩ := List.cons.inj whole
      obtain ⟨t₁, crosses⟩ := ih further
      exact ⟨t₁, .pass stands crosses⟩

/-- Moves in a stint come before what follows a plan. -/
theorem of_runs {plan : Plan shape} (runs : (q.stint use l).Runs t t₁)
    (follows : q.Follows l use plan t₁) : q.Follows l use plan t := by
  induction runs using Relation.ReflTransGen.head_induction_on with
  | refl => exact follows
  | head moves _ ih => exact .move moves.1 moves.2 ih

end Follows

/-! ### Groups -/

/-- The workers of a group follow one plan, in which they keep out of each other's way. -/
def Meets (q : Team shape) (use : Use shape) (threads : shape.Lane → Thread Unit) : Prop :=
  ∃ plan : Plan shape, (∀ entry ∈ plan, entry.2.Apart) ∧ ∀ l, q.Follows l use plan (threads l)

namespace Meets

variable {threads threads' : shape.Lane → Thread Unit}

/-- **Workers that meet go past the same barriers.** -/
theorem together (meets : q.Meets use threads)
    (crosses : (threads l).Crosses (q.worker l) barriers t₁) :
    ∃ t₂, (threads l').Crosses (q.worker l') barriers t₂ := by
  obtain ⟨plan, -, follows⟩ := meets
  obtain ⟨past, later, rfl, rfl, -⟩ := (follows l).split crosses
  exact (follows l').crosses

/-- **Between two barriers no worker uses a slot that another one stores into.** -/
theorem apart (meets : q.Meets use threads) (begins : use.Apart) (other : l ≠ l')
    (crosses : (threads l).Crosses (q.worker l) barriers t₁)
    (crosses' : (threads l').Crosses (q.worker l') barriers t₂) (shared : slot.1 ∈ q.arrays)
    (stores : t₁.Stores (q.worker l) slot) : ¬ t₂.Uses (q.worker l') slot := by
  obtain ⟨plan, uses, follows⟩ := meets
  obtain ⟨past, later, rfl, rfl, here⟩ := (follows l).split crosses
  obtain ⟨past', later', same, barriers, here'⟩ := (follows l').split crosses'
  have count : past.length = past'.length := by simpa using congrArg List.length barriers
  obtain ⟨rfl, -⟩ := List.append_inj same count
  -- Both have the same use of the slots now.
  have now : (past.last use).Apart := by
    rcases List.mem_cons.mp (List.getLastD_mem_cons (l := past.map Prod.snd) (a := use)) with first | member
    · rw [Plan.last, first]
      exact begins
    · obtain ⟨entry, inside, same⟩ := List.mem_map.mp member
      rw [Plan.last, ← same]
      exact uses entry (List.mem_append_left _ inside)
  exact fun reads => other (now.apart ((here.confines shared).2 stores) ((here'.confines shared).1 reads))

theorem finish (names : shape.Lane → Names Unit) : q.Meets use fun l => ⟨[], names l⟩ :=
  ⟨[], List.forall_mem_nil _, fun l => .finish (names l)⟩

theorem work (runs : ∀ l, (q.stint use l).Runs (threads l) (threads' l)) (meets : q.Meets use threads') :
    q.Meets use threads := by
  obtain ⟨plan, uses, follows⟩ := meets
  exact ⟨plan, uses, fun l => .of_runs (runs l) (follows l)⟩

theorem barrier {names : shape.Lane → Names Unit} {code : Code} {rest : List Frame} (apart : next.Apart)
    (meets : q.Meets next fun l => ⟨.run code :: rest, names l⟩) :
    q.Meets use fun l => ⟨.run (.step .barrier code) :: rest, names l⟩ := by
  obtain ⟨plan, uses, follows⟩ := meets
  exact ⟨(.run code :: rest, next) :: plan, List.forall_mem_cons.mpr ⟨apart, uses⟩,
    fun l => .pass rfl (follows l)⟩

end Meets

/-! ### Code of a group -/

/-- Code leads a group to a goal: whatever comes after it, the workers meet if they do so wherever the goal
holds. Nothing but the code's own names is bound. -/
def Leads (q : Team shape) (code : Code) (use : Use shape) (names : shape.Lane → Names Unit)
    (goal : Use shape → (shape.Lane → Names Unit) → Prop) : Prop :=
  ∀ after rest, (∀ use' names', (∀ l, (names l).Same code.binders (names' l)) → goal use' names' →
    q.Meets use' fun l => ⟨.run after :: rest, names' l⟩) →
    q.Meets use fun l => ⟨.run (code ++ after) :: rest, names l⟩

namespace Leads

variable {names : shape.Lane → Names Unit} {goal : Use shape → (shape.Lane → Names Unit) → Prop}
  {first second body code : Code}

/-- The goal may be weakened, also by what the code leaves alone. -/
theorem weaken {stronger : Use shape → (shape.Lane → Names Unit) → Prop}
    (leads : q.Leads code use names stronger)
    (implies : ∀ use' names', (∀ l, (names l).Same code.binders (names' l)) → stronger use' names' →
      goal use' names') : q.Leads code use names goal :=
  fun after rest further => leads after rest fun use' names' same reached =>
    further use' names' same (implies use' names' same reached)

theorem done (reached : goal use names) : q.Leads .done use names goal :=
  fun _ _ further => further use names (fun _ => .refl _ _) reached

/-- Code without barriers: every worker is followed alone. -/
theorem work {here : shape.Lane → Names Unit → Prop}
    (each : ∀ l, (q.stint use l).Leads code (names l) (here l)) :
    q.Leads code use names fun use' names' => use' = use ∧ ∀ l, here l (names' l) := by
  intro after rest further
  choose names' same reached runs using each
  exact .work (fun l => runs l after rest) (further use names' same ⟨rfl, reached⟩)

/-- A barrier: the slots are used in another way from there on. -/
theorem barrier (apart : next.Apart) : q.Leads (Code.ofSteps [.barrier]) use names fun use' names' =>
    use' = next ∧ names' = names :=
  fun _ _ further => .barrier apart (further next names (fun _ => .refl _ _) ⟨rfl, rfl⟩)

theorem append (leads : q.Leads first use names fun use' names' => q.Leads second use' names' goal) :
    q.Leads (first ++ second) use names goal := by
  intro after rest further
  rw [Code.append_assoc]
  refine leads (second ++ after) rest fun use' names' same leads' => ?_
  refine leads' after rest fun last names'' same' reached => further last names'' (fun l => ?_) reached
  exact ((same l).mono fun x member => Code.mem_binders_append.mpr (Or.inl member)).trans
    ((same' l).mono fun x member => Code.mem_binders_append.mpr (Or.inr member))

/-- **A loop that all workers of a group go through together.** They begin with the same number, and have the
same stride and bound; each trip leaves the slots in the use that it begins with. -/
theorem loop {l : Loop} {a d b : Nat}
    (start : ∀ i, ∃ word, l.first.unsigned? (q.worker i) (names i) = some (word, a))
    (strides : ∀ i, l.Strides (q.worker i) (names i) (l.counter :: body.binders) d b)
    (kept : l.counter ∉ body.binders) (reaches : Reaches d b)
    (trip : ∀ c < b, ∀ names', (∀ i, (names i).Same (l.counter :: body.binders) (names' i)) →
      (∀ i, names' i l.counter = some (.index c)) → q.Leads body use names' fun use' _ => use' = use)
    (finish : ∀ names', (∀ i, (names i).Same (l.counter :: body.binders) (names' i)) →
      q.Leads code use names' goal) : q.Leads (.loop l body code) use names goal := by
  intro after rest further
  -- From a check on, as many strides as lead the counter to the bound.
  have remaining (k : Nat) : ∀ c < 2 ^ 32, b ≤ (c + k * d) % 2 ^ 32 →
      ∀ names' : shape.Lane → Names Unit, (∀ i, (names i).Same (l.counter :: body.binders) (names' i)) →
      (∀ i, names' i l.counter = some (.index c)) →
      q.Meets use fun i => ⟨.check l body :: .run (code ++ after) :: rest, names' i⟩ := by
    have leave (c : Nat) (above : ¬ c < b) (names' : shape.Lane → Names Unit)
        (same : ∀ i, (names i).Same (l.counter :: body.binders) (names' i))
        (at' : ∀ i, names' i l.counter = some (.index c)) :
        q.Meets use fun i => ⟨.check l body :: .run (code ++ after) :: rest, names' i⟩ := by
      have past (i : shape.Lane) := (strides i).decides (same i) (at' i)
      refine .work (fun i => .check ((past i).trans (congrArg some (decide_eq_false above)))) ?_
      refine finish names' same after rest fun use' names'' same' reached => further use' names''
        (fun i => ((same i).mono fun x bound => ?_).trans ((same' i).mono fun x bound =>
          List.mem_cons_of_mem _ (List.mem_append_right _ bound))) reached
      exact (List.mem_cons.mp bound).elim (fun here => here ▸ List.mem_cons_self)
        fun here => List.mem_cons_of_mem _ (List.mem_append_left _ here)
    induction k with
    | zero =>
      intro c small comes names' same at'
      rw [Nat.zero_mul, Nat.add_zero, Nat.mod_eq_of_lt small] at comes
      exact leave c (Nat.not_lt.mpr comes) names' same at'
    | succ k ih =>
      intro c small comes names' same at'
      by_cases below : c < b
      case neg => exact leave c below names' same at'
      have enters (i : shape.Lane) := (strides i).decides (same i) (at' i)
      refine .work (fun i => .check ((enters i).trans (congrArg some (decide_eq_true below)))) ?_
      have around := trip c below names' same at' .done (.advance l body :: .run (code ++ after) :: rest)
      rw [Code.append_done] at around
      refine around fun use' names₁ same₁ kept' => ?_
      subst kept'
      have same₂ (i : shape.Lane) : (names i).Same (l.counter :: body.binders) (names₁ i) :=
        (same i).trans ((same₁ i).mono fun x => List.mem_cons_of_mem _)
      refine .work (fun i => Stint.Runs.leave.trans (Stint.Runs.advance ((strides i).next (same₂ i)
        ((same₁ i _ kept).trans (at' i))))) (ih _ (Nat.mod_lt _ (by decide)) ?_ _ (fun i =>
          (same₂ i).bind List.mem_cons_self _) fun i => Names.bind_self ..)
      rw [Nat.mod_add_mod, Nat.add_assoc, Nat.add_comm d, ← Nat.succ_mul]
      exact comes
  obtain ⟨k, comes⟩ := reaches.exists_le (a % 2 ^ 32)
  choose word start using start
  refine .work (fun i => .enter (start i)) (remaining k _ (Nat.mod_lt _ (by decide)) comes _ (fun i =>
    (Names.Same.refl _ _).bind List.mem_cons_self _) fun i => ?_)
  exact Names.bind_self ..

/-- Workers that are led through all that there is to do meet. -/
theorem meets (leads : q.Leads code use names goal) :
    q.Meets use fun l => ⟨[.run code], names l⟩ := by
  have whole := leads .done [] fun use' names' _ _ => .work (fun l => .leave) (.finish names')
  rwa [Code.append_done] at whole

end Leads

end Team

end TunedKernel
