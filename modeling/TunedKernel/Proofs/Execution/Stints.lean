/-
**What a worker does between two barriers.**

Until a worker comes to the next barrier it uses only some of the slots that its group shares.

* `Stint`, `Stint.Keeps`, `Stint.Runs` — the slots that a worker may store into and access until the next
  barrier, and moves that keep to them and go past no barrier.
* `Stint.Leads` — code that leads a worker to a goal in one stint, whatever comes after it. `Leads.step`,
  `Leads.append`, `Leads.guarded` and `Leads.loop` are its rules, one for each form of code.
* `Stint.Suits`, `Stint.Leads.of_counts` — code without barriers whose accesses are allowed under any names
  leads to its end if it counts.
-/

import TunedKernel.Proofs.Execution.Barriers
import TunedKernel.Proofs.Execution.Counting

namespace TunedKernel

/-- A worker between two barriers: the arrays that its group shares, and the slots of them that it may store
into and access. -/
structure Stint where
  worker : Worker
  arrays : List String
  writes : Set (String × List Nat)
  reads : Set (String × List Nat)

namespace Stint

variable {q : Stint} {names names' : Names Unit} {goal here : Names Unit → Prop}

/-- An access to an array of the group is to one of these slots. -/
def Confines (q : Stint) (slots : Set (String × List Nat)) (names : Names Unit) (a : Access) : Prop :=
  ∀ slot, slot.1 ∈ q.arrays → a.MayMeet q.worker names slot → slot ∈ slots

/-- Other arrays, and buffers, may be accessed at will. -/
theorem confines_of_notMem {slots : Set (String × List Nat)} {a : Access} (other : a.array ∉ q.arrays) :
    q.Confines slots names a :=
  fun _ shared meets => absurd (meets.1 ▸ shared) other

/-- A step stores into and accesses slots of the stint. -/
structure Allows (q : Stint) (names : Names Unit) (s : Step) : Prop where
  writes : ∀ a ∈ s.stores, q.Confines q.writes names a
  reads : ∀ a ∈ s.accesses, q.Confines q.reads names a

theorem Allows.of_notMem {s : Step} (other : ∀ a ∈ s.accesses, a.array ∉ q.arrays) : q.Allows names s where
  writes a member := confines_of_notMem (other a (Step.accesses_of_stores member))
  reads a member := confines_of_notMem (other a member)

/-- An index is declared without access to memory. -/
theorem Allows.of_index {x : String} {value : Term} {n : Word × Nat}
    (number : value.unsigned? q.worker names = some n) : q.Allows names (.declare .index x value) := by
  refine .of_notMem fun a member => ?_
  rw [Step.accesses, Term.accesses_of_unsigned? number] at member
  cases member

/-- The next move of a thread goes past no barrier, and uses slots of the stint. -/
structure Keeps (q : Stint) (t : Thread Unit) : Prop where
  free : t.barrier? = none
  writes : ∀ a ∈ t.stores, q.Confines q.writes t.names a
  reads : ∀ a ∈ t.accesses, q.Confines q.reads t.names a

/-- A number of moves in a stint. -/
def Runs (q : Stint) : Thread Unit → Thread Unit → Prop :=
  Relation.ReflTransGen fun t t' => q.Keeps t ∧ t.wrapped? q.worker = some t'

/-- Code leads a worker in its stint to a goal, whatever comes after it. Nothing but the code's own names is
bound. -/
def Leads (q : Stint) (code : Code) (names : Names Unit) (goal : Names Unit → Prop) : Prop :=
  ∃ names', names.Same code.binders names' ∧ goal names' ∧
    ∀ after rest, q.Runs ⟨.run (code ++ after) :: rest, names⟩ ⟨.run after :: rest, names'⟩

/-! ### Single moves -/

theorem Keeps.of_step {s : Step} {code : Code} {rest : List Frame} (other : s ≠ .barrier)
    (allowed : q.Allows names s) : q.Keeps ⟨.run (.step s code) :: rest, names⟩ where
  free := by
    cases s with
    | barrier => exact absurd rfl other
    | declare | declareLocal | declareArray | store => rfl
  writes := allowed.writes
  reads := allowed.reads

/-- What is not a step stores nothing, and forms indices without access to memory. -/
theorem Keeps.of_none {t : Thread Unit} (free : t.barrier? = none) (stores : t.stores = [])
    (accesses : t.accesses = []) : q.Keeps t where
  free := free
  writes _ member := absurd (stores ▸ member) List.not_mem_nil
  reads _ member := absurd (accesses ▸ member) List.not_mem_nil

namespace Runs

variable {l : Loop} {condition : Term} {body code : Code} {rest : List Frame}

theorem leave : q.Runs ⟨.run .done :: rest, names⟩ ⟨rest, names⟩ := .single ⟨.of_none rfl rfl rfl, rfl⟩

theorem enter {n : Word × Nat} (start : l.first.unsigned? q.worker names = some n) :
    q.Runs ⟨.run (.loop l body code) :: rest, names⟩
      ⟨.check l body :: .run code :: rest, names.bind l.counter (.wrapped n)⟩ := by
  refine .single ⟨.of_none rfl rfl (Term.accesses_of_unsigned? start), ?_⟩
  show (l.first.unsigned? q.worker names).map _ = _
  rw [start]
  rfl

theorem guard {holds : Bool} (decided : condition.decides? q.worker names = some holds) :
    q.Runs ⟨.run (.guarded condition body code) :: rest, names⟩
      ⟨if holds then .run body :: .run code :: rest else .run code :: rest, names⟩ := by
  refine .single ⟨.of_none rfl rfl (Term.accesses_of_decides? decided), ?_⟩
  show (condition.decides? q.worker names).map _ = _
  rw [decided]
  rfl

theorem check {holds : Bool} (decided : l.condition.decides? q.worker names = some holds) :
    q.Runs ⟨.check l body :: rest, names⟩
      ⟨if holds then .run body :: .advance l body :: rest else rest, names⟩ := by
  refine .single ⟨.of_none rfl rfl (Term.accesses_of_decides? decided), ?_⟩
  show (l.condition.decides? q.worker names).map _ = _
  rw [decided]
  rfl

theorem advance {binding : Binding Unit}
    (next : (l.next.unsigned? q.worker names).map Binding.wrapped = some binding) :
    q.Runs ⟨.advance l body :: rest, names⟩ ⟨.check l body :: rest, names.bind l.counter binding⟩ := by
  obtain ⟨n, number, rfl⟩ := Option.map_eq_some_iff.mp next
  refine .single ⟨.of_none rfl rfl (Term.accesses_of_unsigned? number), ?_⟩
  show (l.next.unsigned? q.worker names).map _ = _
  rw [number]
  rfl

end Runs

/-! ### Code -/

namespace Leads

variable {first second body code : Code}

theorem done (reached : goal names) : q.Leads .done names goal :=
  ⟨names, .refl _ _, reached, fun _ _ => .refl⟩

/-- The goal may be weakened, also by what the code leaves alone. -/
theorem weaken {stronger : Names Unit → Prop} (leads : q.Leads code names stronger)
    (implies : ∀ names', names.Same code.binders names' → stronger names' → goal names') :
    q.Leads code names goal := by
  obtain ⟨names', same, reached, runs⟩ := leads
  exact ⟨names', same, implies names' same reached, runs⟩

/-- Code with nothing behind it. -/
theorem exists_runs (leads : q.Leads code names goal) :
    ∃ names', names.Same code.binders names' ∧ goal names' ∧
      ∀ rest, q.Runs ⟨.run code :: rest, names⟩ ⟨rest, names'⟩ := by
  obtain ⟨names', same, reached, runs⟩ := leads
  refine ⟨names', same, reached, fun rest => ?_⟩
  have run := runs .done rest
  rw [Code.append_done] at run
  exact run.trans Runs.leave

theorem step {s : Step} (other : s ≠ .barrier) (allowed : q.Allows names s)
    (moves : s.wrapped? q.worker names = some names') (same : names.Same s.binder?.toList names')
    (next : q.Leads code names' goal) : q.Leads (.step s code) names goal := by
  obtain ⟨names'', same', reached, runs⟩ := next
  refine ⟨names'', (same.mono fun x => List.mem_append_left _).trans
    (same'.mono fun x => List.mem_append_right _), reached, fun after rest => ?_⟩
  refine .head ⟨.of_step other allowed, ?_⟩ (runs after rest)
  show (s.wrapped? q.worker names).map _ = _
  rw [moves]
  rfl

/-- A declaration of an index. -/
theorem index {x : String} {value : Term} {n : Word × Nat}
    (number : value.unsigned? q.worker names = some n)
    (next : q.Leads code (names.bind x (.wrapped n)) goal) :
    q.Leads (.step (.declare .index x value) code) names goal := by
  exact step nofun (.of_index number) (Option.map_eq_some_iff.mpr ⟨n, number, rfl⟩)
    ((Names.Same.refl _ names).bind List.mem_cons_self _) next

/-- Steps one after the other that bind nothing. -/
theorem each {steps : List Step} (allowed : ∀ s ∈ steps, s ≠ .barrier ∧
    s.wrapped? q.worker names = some names ∧ q.Allows names s) :
    q.Leads (Code.ofSteps steps) names fun names' => names' = names := by
  induction steps with
  | nil => exact done rfl
  | cons s steps ih =>
    obtain ⟨other, moves, allows⟩ := allowed s List.mem_cons_self
    exact step other allows moves (.refl _ _) (ih fun s member => allowed s (List.mem_cons_of_mem _ member))

theorem append (leads : q.Leads first names fun names' => q.Leads second names' goal) :
    q.Leads (first ++ second) names goal := by
  obtain ⟨names₁, same₁, ⟨names₂, same₂, reached, runs₂⟩, runs₁⟩ := leads
  refine ⟨names₂, (same₁.mono fun x member => Code.mem_binders_append.mpr (Or.inl member)).trans
    (same₂.mono fun x member => Code.mem_binders_append.mpr (Or.inr member)), reached,
    fun after rest => ?_⟩
  rw [Code.append_assoc]
  exact (runs₁ (second ++ after) rest).trans (runs₂ after rest)

/-- A block under a condition, which need lead somewhere only where the condition holds. -/
theorem guarded {condition : Term} {holds : Bool}
    (decided : condition.decides? q.worker names = some holds)
    (inner : holds = true → q.Leads body names here) (skipped : holds = false → here names)
    (next : ∀ names', names.Same body.binders names' → here names' → q.Leads code names' goal) :
    q.Leads (.guarded condition body code) names goal := by
  cases holds with
  | false =>
    obtain ⟨names', same, reached, runs⟩ := next names (.refl _ _) (skipped rfl)
    exact ⟨names', same.mono fun x => List.mem_append_right _, reached,
      fun after rest => (Runs.guard decided).trans (runs after rest)⟩
  | true =>
    obtain ⟨names₁, same₁, reached₁, runs₁⟩ := (inner rfl).exists_runs
    obtain ⟨names₂, same₂, reached₂, runs₂⟩ := next names₁ same₁ reached₁
    exact ⟨names₂, (same₁.mono fun x => List.mem_append_left _).trans
      (same₂.mono fun x => List.mem_append_right _), reached₂,
      fun after rest => (Runs.guard decided).trans ((runs₁ _).trans (runs₂ after rest))⟩

variable {l : Loop} {d b : Nat}

/-- The trips of a loop, as many as lead the counter to its bound. An invariant is kept by each. -/
theorem trips (invariant : Nat → Names Unit → Prop)
    (strides : l.Strides q.worker names (l.counter :: body.binders) d b)
    (kept : l.counter ∉ body.binders)
    (trip : ∀ c < b, c < 2 ^ 32 → ∀ names', names.Same (l.counter :: body.binders) names' →
      names' l.counter = some (.index c) → invariant c names' → q.Leads body names' fun names₁ =>
        invariant ((c + d) % 2 ^ 32) (names₁.bind l.counter (.index ((c + d) % 2 ^ 32))))
    (k : Nat) {c : Nat} (small : c < 2 ^ 32) (comes : b ≤ (c + k * d) % 2 ^ 32)
    (same : names.Same (l.counter :: body.binders) names') (at' : names' l.counter = some (.index c))
    (holds : invariant c names') :
    ∃ c' names₁, names.Same (l.counter :: body.binders) names₁ ∧ invariant c' names₁ ∧
      ∀ rest, q.Runs ⟨.check l body :: rest, names'⟩ ⟨rest, names₁⟩ := by
  induction k generalizing c names' with
  | zero =>
    rw [Nat.zero_mul, Nat.add_zero, Nat.mod_eq_of_lt small] at comes
    have past := strides.decides same at'
    rw [decide_eq_false (Nat.not_lt.mpr comes)] at past
    exact ⟨c, names', same, holds, fun rest => Runs.check past⟩
  | succ k ih =>
    have decided := strides.decides same at'
    by_cases below : c < b
    case neg =>
      rw [decide_eq_false below] at decided
      exact ⟨c, names', same, holds, fun rest => Runs.check decided⟩
    rw [decide_eq_true below] at decided
    obtain ⟨names₁, same₁, holds₁, runs₁⟩ := (trip c below small names' same at' holds).exists_runs
    have further : names.Same (l.counter :: body.binders) names₁ :=
      same.trans (same₁.mono fun x => List.mem_cons_of_mem _)
    have next := strides.next further ((same₁ _ kept).trans at')
    have comes' : b ≤ ((c + d) % 2 ^ 32 + k * d) % 2 ^ 32 := by
      rw [Nat.mod_add_mod, Nat.add_assoc, Nat.add_comm d, ← Nat.succ_mul]
      exact comes
    obtain ⟨c', names₂, same₂, holds₂, runs₂⟩ := ih (Nat.mod_lt _ (by decide)) comes'
      (further.bind List.mem_cons_self _) (Names.bind_self ..) holds₁
    exact ⟨c', names₂, same₂, holds₂, fun rest =>
      (Runs.check decided).trans ((runs₁ _).trans ((Runs.advance next).trans (runs₂ rest)))⟩

/-- **A loop that comes to its bound.** -/
theorem loop (invariant : Nat → Names Unit → Prop) {a : Word × Nat} (start : l.first.unsigned? q.worker names = some a)
    (strides : l.Strides q.worker names (l.counter :: body.binders) d b)
    (kept : l.counter ∉ body.binders) (comes : ∃ k, b ≤ (a.2 + k * d) % 2 ^ 32)
    (begins : invariant (a.2 % 2 ^ 32) (names.bind l.counter (.wrapped a)))
    (trip : ∀ c < b, c < 2 ^ 32 → ∀ names', names.Same (l.counter :: body.binders) names' →
      names' l.counter = some (.index c) → invariant c names' → q.Leads body names' fun names₁ =>
        invariant ((c + d) % 2 ^ 32) (names₁.bind l.counter (.index ((c + d) % 2 ^ 32))))
    (next : ∀ c names', names.Same (l.counter :: body.binders) names' → invariant c names' →
      q.Leads code names' goal) : q.Leads (.loop l body code) names goal := by
  obtain ⟨k, comes⟩ := comes
  rw [← Nat.mod_add_mod] at comes
  obtain ⟨c, names₁, same₁, holds₁, runs₁⟩ := trips invariant strides kept trip k (Nat.mod_lt _ (by decide)) comes
    ((Names.Same.refl _ names).bind List.mem_cons_self _) (Names.bind_self ..) begins
  obtain ⟨names₂, same₂, reached, runs₂⟩ := next c names₁ same₁ holds₁
  refine ⟨names₂, (same₁.mono fun x bound => ?_).trans (same₂.mono fun x bound =>
    List.mem_cons_of_mem _ (List.mem_append_right _ bound)), reached, fun after rest => ?_⟩
  · exact (List.mem_cons.mp bound).elim (fun here => here ▸ List.mem_cons_self)
      fun here => List.mem_cons_of_mem _ (List.mem_append_left _ here)
  · exact (Runs.enter start).trans ((runs₁ _).trans (runs₂ after rest))

end Leads

/-! ### Workers that never come to a barrier -/

namespace Runs

variable {t t₁ t₂ : Thread Unit} {barriers : List (List Frame)} {todo : List Frame}

/-- Moves in a stint go past no barrier. -/
theorem crosses (runs : q.Runs t t₁) (further : t₁.Crosses q.worker barriers t₂) :
    t.Crosses q.worker barriers t₂ := by
  induction runs using Relation.ReflTransGen.head_induction_on with
  | refl => exact further
  | head moves _ ih => exact .move moves.1.free moves.2 ih

/-- Moves are unique, so the barriers are still ahead behind them. -/
theorem crosses_after (runs : q.Runs t t₁) (crosses : t.Crosses q.worker (todo :: barriers) t₂) :
    t₁.Crosses q.worker (todo :: barriers) t₂ := by
  induction runs using Relation.ReflTransGen.head_induction_on with
  | refl => exact crosses
  | head moves _ ih =>
    cases crosses with
    | move _ moves' further =>
      cases moves.2.symm.trans moves'
      exact ih further
    | pass stands _ => cases moves.1.free.symm.trans stands

end Runs

/-- **A thread that always comes to a further one of its kind goes past no barrier.** -/
theorem not_crosses_of_cycle (kind : Thread Unit → Prop)
    (further : ∀ t, kind t → ∃ t₁ t₂, q.Keeps t ∧ t.wrapped? q.worker = some t₁ ∧ q.Runs t₁ t₂ ∧ kind t₂)
    {t t' : Thread Unit} (here : kind t) {todo : List Frame} {barriers : List (List Frame)} :
    ¬ t.Crosses q.worker (todo :: barriers) t' := by
  intro crosses
  generalize whole : todo :: barriers = past at crosses
  suffices none : ∀ t', q.Runs t t' → ¬ kind t' from none t .refl here
  clear here
  induction crosses with
  | refl => cases whole
  | move _ moves _ ih =>
    intro t' runs there
    rcases Relation.ReflTransGen.cases_head runs with rfl | ⟨_, moves', runs⟩
    · obtain ⟨_, t₂, -, moves', runs, again⟩ := further _ there
      cases moves.symm.trans moves'
      exact ih whole t₂ runs again
    · cases moves.symm.trans moves'.2
      exact ih whole t' runs there
  | pass stands _ _ =>
    intro t' runs there
    rcases Relation.ReflTransGen.cases_head runs with rfl | ⟨_, moves, -⟩
    · obtain ⟨_, _, keeps, -⟩ := further _ there
      cases keeps.free.symm.trans stands
    · cases moves.1.free.symm.trans stands

/-- **Nor does one in a loop whose counter always is below the bound.** -/
theorem not_crosses_loop {l : Loop} {body code : Code} {d b : Nat} {a : Word × Nat} {rest : List Frame}
    (start : l.first.unsigned? q.worker names = some a)
    (strides : l.Strides q.worker names (l.counter :: body.binders) d b)
    (kept : l.counter ∉ body.binders) (never : ∀ k, (a.2 + k * d) % 2 ^ 32 < b)
    (trip : ∀ names', names.Same (l.counter :: body.binders) names' → q.Leads body names' fun _ => True)
    {todo : List Frame} {barriers : List (List Frame)} {t : Thread Unit} :
    ¬ Thread.Crosses q.worker ⟨.run (.loop l body code) :: rest, names⟩ (todo :: barriers) t := by
  let kind (t : Thread Unit) : Prop := ∃ k names', names.Same (l.counter :: body.binders) names' ∧
    names' l.counter = some (.index ((a.2 + k * d) % 2 ^ 32)) ∧
      t = ⟨.check l body :: .run code :: rest, names'⟩
  intro crosses
  refine not_crosses_of_cycle kind ?_ ⟨0, _, (Names.Same.refl _ names).bind List.mem_cons_self _, ?_, rfl⟩
    ((Runs.enter start).crosses_after crosses)
  · rintro _ ⟨k, names', same, at', rfl⟩
    have decided := strides.decides same at'
    rw [decide_eq_true (never k)] at decided
    obtain ⟨names₁, same₁, -, runs⟩ := (trip names' same).exists_runs
    have further : names.Same (l.counter :: body.binders) names₁ :=
      same.trans (same₁.mono fun x => List.mem_cons_of_mem _)
    have next := strides.next further ((same₁ _ kept).trans at')
    refine ⟨⟨.run body :: .advance l body :: .run code :: rest, names'⟩, _,
      .of_none rfl rfl (Term.accesses_of_decides? decided), ?_, (runs _).trans (Runs.advance next), k + 1, _,
      further.bind List.mem_cons_self _, ?_, rfl⟩
    · show (l.condition.decides? q.worker names').map _ = _
      rw [decided]
      rfl
    · rw [Names.bind_self, Nat.mod_add_mod, Nat.succ_mul, Nat.add_assoc]
  · rw [Names.bind_self, Nat.zero_mul, Nat.add_zero]
    rfl

/-! ### Code that counts -/

/-- A declaration of an index, or another step that is no barrier and allowed under any names. -/
def Fits (q : Stint) (s : Step) : Prop :=
  (∃ x value, s = .declare .index x value) ∨ s ≠ .barrier ∧ ∀ names, q.Allows names s

/-- Code without barriers whose accesses are allowed under any names. -/
def Suits (q : Stint) (code : Code) : Prop := ∀ s ∈ code.steps, q.Fits s

namespace Suits

variable {first second body : Code}

theorem free (suits : q.Suits body) : .barrier ∉ body.steps := by
  intro member
  rcases suits _ member with ⟨x, value, same⟩ | ⟨other, -⟩
  · cases same
  · exact other rfl

theorem append (one : q.Suits first) (two : q.Suits second) : q.Suits (first ++ second) := by
  intro s member
  rw [Code.steps_append] at member
  exact (List.mem_append.mp member).elim (one s) (two s)

theorem ofSteps {steps : List Step} (each : ∀ s ∈ steps, q.Fits s) : q.Suits (Code.ofSteps steps) := by
  intro s member
  rw [Code.steps_ofSteps] at member
  exact each s member

/-- The arrays of a group are declared without access to them. -/
theorem declareLocals {β : Type} (memory : β → LocalMemory) (items : List β) :
    q.Suits (Code.ofSteps (items.map fun b => .declareLocal (memory b))) := by
  refine ofSteps fun s member => Or.inr ?_
  obtain ⟨b, -, rfl⟩ := List.mem_map.mp member
  exact ⟨nofun, fun _ => .of_notMem fun a none => (List.not_mem_nil none).elim⟩

theorem join {pieces : List Code} (each : ∀ piece ∈ pieces, q.Suits piece) : q.Suits (Code.join pieces) := by
  intro s member
  rw [Code.steps_join] at member
  obtain ⟨piece, inside, here⟩ := List.mem_flatMap.mp member
  exact each piece inside s here

theorem ofGuard {condition : Term} (inner : q.Suits body) : q.Suits (Code.ofGuard condition body) := by
  intro s member
  rw [Code.steps_ofGuard] at member
  exact inner s member

/-- A walk declares indices only. -/
theorem around {walk : Walk} (inner : q.Suits body)
    (declares : ∀ s ∈ walk.before ++ walk.inside, ∃ x value, s = .declare .index x value) :
    q.Suits (walk.around body) := by
  intro s member
  rw [Code.steps_around] at member
  rcases List.mem_append.mp member with before | member
  · exact Or.inl (declares s (List.mem_append_left _ before))
  · rcases List.mem_append.mp member with inside | here
    · exact Or.inl (declares s (List.mem_append_right _ inside))
    · exact inner s here

/-- A walk over a range that is split, in one of the two ways. -/
theorem split {strided : Bool} {counter : String} {dimension : Nat} {bound : Term} (inner : q.Suits body) :
    q.Suits ((Walk.split strided counter dimension bound).around body) := by
  refine around inner fun s member => ?_
  cases strided with
  | true => cases member
  | false =>
    replace member : s ∈ (Walk.chunked counter dimension bound).before ++ [] := member
    simp only [Walk.chunked, List.append_nil, List.mem_cons, List.not_mem_nil, or_false] at member
    rcases member with rfl | rfl | rfl
    · exact ⟨_, _, rfl⟩
    · exact ⟨_, _, rfl⟩
    · exact ⟨_, _, rfl⟩

end Suits

variable {given : Names Unit} {sizes scope : List String}

/-- **Suitable code that counts leads to its end**, and the names of its scope stand for indices then. By
induction on the code. -/
theorem Leads.of_counts {code : Code} (counts : code.Counts q.worker given sizes scope)
    (suits : q.Suits code) (positive : q.worker.Positive) (known : given.Indexed sizes)
    (fixed : ∀ x ∈ sizes, x ∉ code.binders) (agree : ∀ x ∈ sizes, names x = given x)
    (indexed : names.Indexed scope) : q.Leads code names fun names' => names'.Indexed scope := by
  have kept {names names₁ : Names Unit} {changed : List String}
      (agree : ∀ x ∈ sizes, names x = given x) (other : ∀ x ∈ sizes, x ∉ changed)
      (same : names.Same changed names₁) : ∀ x ∈ sizes, names₁ x = given x :=
    fun x member => (same x (other x member)).trans (agree x member)
  induction code generalizing scope names with
  | done => exact .done indexed
  | step s rest ih =>
    obtain ⟨names', more, moves, same, indexed', sub, further⟩ :=
      counts.exists_step positive known agree indexed
    obtain ⟨other, allowed⟩ : s ≠ .barrier ∧ q.Allows names s := by
      rcases suits s List.mem_cons_self with ⟨x, value, rfl⟩ | ⟨other, allowed⟩
      · obtain ⟨n, number, -⟩ := Option.map_eq_some_iff.mp moves
        exact ⟨nofun, .of_index number⟩
      · exact ⟨other, allowed names⟩
    refine .step other allowed moves same ((ih further (fun s member => suits s
      (List.mem_cons_of_mem _ member)) (fun x member bound => ?_) (kept agree (fun x member bound => ?_)
        same) indexed').weaken fun _ _ here => here.mono sub)
    · exact fixed x member (List.mem_append_right _ bound)
    · exact fixed x member (List.mem_append_left _ bound)
  | loop l body rest inner after =>
    obtain ⟨⟨first, steady, keeps⟩, counted, further⟩ := counts
    have around : ∀ x ∈ sizes, x ∉ l.counter :: body.binders := fun x member bound =>
      fixed x member ((List.mem_cons.mp bound).elim (fun here => here ▸ List.mem_cons_self)
        fun here => List.mem_cons_of_mem _ (List.mem_append_left _ here))
    obtain ⟨a, start⟩ := first.exists_unsigned positive (indexed.append known agree)
    obtain ⟨d, b, strides, reaches⟩ := steady.exists_strides
      (fun names₁ same => kept agree around same) indexed
    refine .loop (fun _ names' => names'.Indexed (l.counter :: scope)) start strides keeps
      (reaches.exists_le _) (indexed.bind_index l.counter (Nat.mod_lt _ (by decide)))
      (fun c enters _ names' same _ holds => ?_) fun c names' same holds => ?_
    · rcases counted with idle | counted
      · exact absurd (idle.bound_eq strides agree) (Nat.zero_lt_of_lt enters).ne'
      · refine (inner counted (fun s member => suits s (List.mem_append_left _ member))
          (fun x member bound => around x member (List.mem_cons_of_mem _ bound))
          (kept agree around same) holds).weaken fun names₁ _ indexed₁ => ?_
        exact (indexed₁.bind_index l.counter (Nat.mod_lt _ (by decide))).mono fun x =>
          List.mem_cons_of_mem _
    · refine after further (fun s member => suits s (List.mem_append_right _ member))
        (fun x member bound => ?_) (kept agree around same) (holds.mono fun x => List.mem_cons_of_mem _)
      exact fixed x member (List.mem_cons_of_mem _ (List.mem_append_right _ bound))
  | guarded condition body rest inner after =>
    obtain ⟨decides, counted, further⟩ := counts
    obtain ⟨holds, decided⟩ := decides.exists_decides positive (indexed.append known agree)
    have within : ∀ x ∈ sizes, x ∉ body.binders := fun x member bound =>
      fixed x member (List.mem_append_left _ bound)
    refine .guarded decided (fun _ => inner counted (fun s member => suits s
      (List.mem_append_left _ member)) within agree indexed) (fun _ => indexed) fun names₁ same => ?_
    exact after further (fun s member => suits s (List.mem_append_right _ member))
      (fun x member bound => fixed x member (List.mem_append_right _ bound)) (kept agree within same)

end Stint

end TunedKernel
