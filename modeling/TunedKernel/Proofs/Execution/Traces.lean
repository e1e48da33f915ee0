/-
**What a thread shows on its way.**

Moves are unique, so a thread that comes to its end passes the same steps every time. An observer picks
some of the steps, with what the names stand for there, and so tells how often a step is taken, with which
numbers, and in which order. No index is read from memory, so a thread is observed alone.

* `Arithmetic` — the numbers that a thread counts in.
* `Observer`, `Thread.Shows` — what is looked for, and all of it that a thread shows until it comes to its
  end; `Shows.unique` — there is one list of it.
* `Observer.Sees` — what code shows, whatever comes after it. `Sees.step`, `Sees.append` and `Sees.loop` are
  its rules, `Sees.grid` is that of two loops.
* `visited` — the numbers that a loop counts through; `Loop.Runs` — a loop counts so, in either arithmetic.
* `Observer.ofStores` — the observer of the stores into an array.
* `Observer.Ignores` — code that shows nothing, whatever the names stand for.
-/

import Mathlib.Data.List.ProdSigma
import TunedKernel.Proofs.Execution.Counting

namespace TunedKernel

variable {β : Type}

/-! ### Moves -/

/-- The numbers that a thread counts in: all of them, or words that wrap. -/
inductive Arithmetic where
  | exact
  | words
deriving DecidableEq

/-- The next move of a thread that counts so. -/
def Thread.moves? (c : Arithmetic) (w : Worker) : Thread Unit → Option (Thread Unit) :=
  match c with
  | .exact => next? w
  | .words => wrapped? w

/-- The names after a step of such a thread. -/
def Step.binds? (c : Arithmetic) (w : Worker) : Names Unit → Step → Option (Names Unit) :=
  match c with
  | .exact => names? w
  | .words => wrapped? w

theorem Thread.moves?_step {c : Arithmetic} {w : Worker} {s : Step} {names names' : Names Unit}
    (binds : s.binds? c w names = some names') (code : Code) (rest : List Frame) :
    moves? c w ⟨.run (.step s code) :: rest, names⟩ = some ⟨.run code :: rest, names'⟩ := by
  cases c <;> exact Option.map_eq_some_iff.mpr ⟨names', binds, rfl⟩

theorem Thread.moves?_done (c : Arithmetic) (w : Worker) (rest : List Frame) (names : Names Unit) :
    moves? c w ⟨.run .done :: rest, names⟩ = some ⟨rest, names⟩ := by
  cases c <;> rfl

/-! ### Observers -/

/-- A worker who counts in some numbers, and what is told of the steps that it takes. -/
structure Observer (β : Type) where
  arithmetic : Arithmetic
  worker : Worker
  event : Names Unit → Step → Option β

namespace Observer

/-- The next move of a thread. -/
abbrev moves? (o : Observer β) : Thread Unit → Option (Thread Unit) := Thread.moves? o.arithmetic o.worker

/-- What is told of the next move of a thread. -/
def told? (o : Observer β) (t : Thread Unit) : Option β :=
  match t.todo with
  | .run (.step s _) :: _ => o.event t.names s
  | _ => none

end Observer

/-- A thread comes to its end, and shows an observer these events on the way, in this order. -/
inductive Thread.Shows (o : Observer β) : Thread Unit → List β → Prop
  | ended (names : Names Unit) : Shows o ⟨[], names⟩ []
  | move {t t' : Thread Unit} {es : List β} (moves : o.moves? t = some t') (further : Shows o t' es) :
      Shows o t ((o.told? t).toList ++ es)

namespace Thread.Shows

variable {o : Observer β} {t t' : Thread Unit} {es es' : List β}

/-- Moves are unique, and so is what is shown. -/
theorem unique (shows : t.Shows o es) (shows' : t.Shows o es') : es = es' := by
  have stuck (names : Names Unit) : o.moves? ⟨[], names⟩ = none := by
    obtain ⟨c, w, event⟩ := o
    cases c <;> rfl
  induction shows generalizing es' with
  | ended names =>
    cases shows' with
    | ended => rfl
    | move moves _ => cases (stuck names).symm.trans moves
  | move moves _ ih =>
    cases shows' with
    | ended => cases (stuck _).symm.trans moves
    | move moves' further =>
      cases moves.symm.trans moves'
      rw [ih further]

/-- A move that shows nothing. -/
theorem silent (moves : o.moves? t = some t') (none : o.told? t = none) (further : t'.Shows o es) :
    t.Shows o es := by
  have shows : t.Shows o _ := .move moves further
  rwa [none] at shows

end Thread.Shows

/-! ### Code -/

namespace Observer

variable {o : Observer β} {names names' : Names Unit} {es fs : List β} {s : Step}
  {code first second body : Code}

/-- A block comes to its end and shows these events on the way, whatever a thread has still to do. -/
def SeesBlock (o : Observer β) (body : Code) (names : Names Unit) (es : List β) : Prop :=
  ∃ last, names.Same body.binders last ∧ ∀ rest fs, Thread.Shows o ⟨rest, last⟩ fs →
    Thread.Shows o ⟨.run body :: rest, names⟩ (es ++ fs)

/-- Code shows these events on the way to its end, whatever comes after it; it binds none but its own names,
and leads to a goal on them. -/
def Sees (o : Observer β) (code : Code) (names : Names Unit) (es : List β) (goal : Names Unit → Prop) :
    Prop :=
  ∃ last, names.Same code.binders last ∧ goal last ∧ ∀ after rest fs,
    Thread.Shows o ⟨.run after :: rest, last⟩ fs →
      Thread.Shows o ⟨.run (code ++ after) :: rest, names⟩ (es ++ fs)

theorem SeesBlock.step (binds : s.binds? o.arithmetic o.worker names = some names')
    (same : names.Same s.binder?.toList names') (next : o.SeesBlock code names' es) :
    o.SeesBlock (.step s code) names ((o.event names s).toList ++ es) := by
  obtain ⟨last, same', run⟩ := next
  refine ⟨last, (same.mono fun x => List.mem_append_left _).trans
    (same'.mono fun x => List.mem_append_right _), fun rest fs further => ?_⟩
  rw [List.append_assoc]
  exact .move (Thread.moves?_step binds _ _) (run rest fs further)

namespace Sees

variable {goal : Names Unit → Prop}

theorem done (here : goal names) : o.Sees .done names [] goal := ⟨names, .refl _ _, here, fun _ _ _ => id⟩

/-- Code that is the block of a loop. -/
theorem block (sees : o.Sees body names es goal) : o.SeesBlock body names es := by
  obtain ⟨last, same, -, run⟩ := sees
  refine ⟨last, same, fun rest fs further => ?_⟩
  have shows := run .done rest fs (.silent (Thread.moves?_done ..) rfl further)
  rwa [Code.append_done] at shows

/-- All that a thread shows that has only this code to do. -/
theorem shows (sees : o.Sees code names es goal) : Thread.Shows o ⟨[.run code], names⟩ es := by
  obtain ⟨last, -, run⟩ := sees.block
  have shows := run [] [] (.ended last)
  rwa [List.append_nil] at shows

theorem step (binds : s.binds? o.arithmetic o.worker names = some names')
    (same : names.Same s.binder?.toList names') (next : o.Sees code names' es goal) :
    o.Sees (.step s code) names ((o.event names s).toList ++ es) goal := by
  obtain ⟨last, same', here, run⟩ := next
  refine ⟨last, (same.mono fun x => List.mem_append_left _).trans
    (same'.mono fun x => List.mem_append_right _), here, fun after rest fs further => ?_⟩
  rw [List.append_assoc]
  exact .move (Thread.moves?_step binds _ _) (run after rest fs further)

/-- A step that shows nothing. -/
theorem silent (binds : s.binds? o.arithmetic o.worker names = some names')
    (same : names.Same s.binder?.toList names') (none : o.event names s = none)
    (next : o.Sees code names' es goal) : o.Sees (.step s code) names es goal := by
  have sees := step binds same next
  rwa [none] at sees

theorem append {middle : Names Unit → Prop} (one : o.Sees first names es middle)
    (two : ∀ names', names.Same first.binders names' → middle names' → o.Sees second names' fs goal) :
    o.Sees (first ++ second) names (es ++ fs) goal := by
  obtain ⟨between, same, reached, run⟩ := one
  obtain ⟨last, same', here, run'⟩ := two between same reached
  refine ⟨last, (same.mono fun x member => Code.mem_binders_append.mpr (Or.inl member)).trans
    (same'.mono fun x member => Code.mem_binders_append.mpr (Or.inr member)), here,
    fun after rest gs further => ?_⟩
  rw [Code.append_assoc, List.append_assoc]
  exact run _ rest _ (run' after rest gs further)

end Sees

end Observer

/-! ### Loops -/

/-- The numbers that a loop counts through, from `a` by `d` while below `b`. -/
def visited (a d b : Nat) : List Nat := List.range' a (trips a d b) d

theorem mem_visited {a d b i : Nat} (positive : 0 < d) : i ∈ visited a d b ↔ Visits a d b i := by
  rw [visited, List.mem_range']
  constructor
  · rintro ⟨t, less, rfl⟩
    rw [Nat.mul_comm]
    exact ⟨t, rfl, (lt_trips_iff positive).mp less⟩
  · rintro ⟨t, rfl, below⟩
    exact ⟨t, (lt_trips_iff positive).mpr below, by rw [Nat.mul_comm]⟩

theorem nodup_visited {a d b : Nat} (positive : 0 < d) : (visited a d b).Nodup :=
  List.nodup_range' d positive

/-- Ones leave out no number. -/
theorem visited_one (n : Nat) : visited 0 1 n = List.range n := by
  have all : trips 0 1 n = n := (Nat.mul_one _).symm.trans (trips_of_dvd Nat.one_pos (Nat.one_dvd n))
  rw [visited, all, List.range_eq_range']

/-- The pairs of two lists are taken up along the first one. -/
theorem flatMap_product {α γ δ : Type} (as : List α) (cs : List γ) (f : α × γ → List δ) :
    (as ×ˢ cs).flatMap f = as.flatMap fun x => cs.flatMap fun y => f (x, y) := by
  simp [SProd.sprod, List.product, List.flatMap_assoc, List.flatMap_map]

/-- A loop counts from `a` by `d` while below `b`, where other names of some list may change. -/
structure Loop.Runs (c : Arithmetic) (w : Worker) (l : Loop) (names : Names Unit) (changed : List String)
    (a d b : Nat) : Prop where
  positive : 0 < d
  start (body code : Code) (rest : List Frame) :
    Thread.moves? c w ⟨.run (.loop l body code) :: rest, names⟩ =
      some ⟨.check l body :: .run code :: rest, names.bind l.counter (.index a)⟩
  check (names' : Names Unit) (same : names.Same changed names') (i : Nat)
    (at' : names' l.counter = some (.index i)) (body : Code) (rest : List Frame) :
    Thread.moves? c w ⟨.check l body :: rest, names'⟩ =
      some ⟨if i < b then .run body :: .advance l body :: rest else rest, names'⟩
  advance (names' : Names Unit) (same : names.Same changed names') (i : Nat) (below : i < b)
    (at' : names' l.counter = some (.index i)) (body : Code) (rest : List Frame) :
    Thread.moves? c w ⟨.advance l body :: rest, names'⟩ =
      some ⟨.check l body :: rest, names'.bind l.counter (.index (i + d))⟩

section Loops

variable {w : Worker} {l : Loop} {names : Names Unit} {changed less : List String} {a d b : Nat}

/-- A loop that counts runs, where numbers have no bound. -/
theorem Loop.Counts.runs (counts : l.Counts w names changed a d b) : l.Runs .exact w names changed a d b where
  positive := counts.positive
  start body code rest :=
    Option.map_eq_some_iff.mpr ⟨a, counts.first names (.refl _ _), rfl⟩
  check names' same i at' body rest := by
    have decided : l.condition.holds? w names' = some (decide (i < b)) := by
      rw [Loop.condition, Term.holds?, Term.number?_name at', counts.bound names' same]
      rfl
    refine Option.map_eq_some_iff.mpr ⟨_, decided, ?_⟩
    simp only [decide_eq_true_eq]
  advance names' same i below at' body rest :=
    Option.map_eq_some_iff.mpr
      ⟨i + d, Term.number?_add (Term.number?_name at') (counts.stride names' same), rfl⟩

/-- A loop runs in words, whose bound lies a stride below their limit. -/
theorem Loop.Strides.runs (strides : l.Strides w names changed d b) (positive : 0 < d)
    (first : ∃ word, l.first.unsigned? w names = some (word, a)) (small : a < 2 ^ 32)
    (fits : b + d ≤ 2 ^ 32) : l.Runs .words w names changed a d b where
  positive := positive
  start body code rest := by
    obtain ⟨word, first⟩ := first
    refine Option.map_eq_some_iff.mpr ⟨_, first, ?_⟩
    rw [show Binding.wrapped (word, a) = .index a from congrArg Binding.index (Nat.mod_eq_of_lt small)]
  check names' same i at' body rest := by
    refine Option.map_eq_some_iff.mpr ⟨_, strides.decides same at', ?_⟩
    simp only [decide_eq_true_eq]
  advance names' same i below at' body rest := by
    have next := strides.next same at'
    rw [Nat.mod_eq_of_lt (by omega)] at next
    obtain ⟨n, value, wraps⟩ := Option.map_eq_some_iff.mp next
    refine Option.map_eq_some_iff.mpr ⟨n, value, ?_⟩
    rw [wraps]

namespace Observer.Sees

variable {o : Observer β} {body : Code} {counter : String} {n : Nat}

/-- **A loop shows what its trips show**, one after the other. By induction on the trips that are left. -/
theorem loop (runs : l.Runs o.arithmetic o.worker names (l.counter :: body.binders) a d b)
    (kept : l.counter ∉ body.binders) (es : Nat → List β)
    (trip : ∀ i, Visits a d b i → ∀ names', names.Same (l.counter :: body.binders) names' →
      names' l.counter = some (.index i) → o.SeesBlock body names' (es i)) :
    o.Sees (Code.ofLoop l body) names ((visited a d b).flatMap es) fun _ => True := by
  have whole : (Code.ofLoop l body).binders = l.counter :: body.binders :=
    congrArg (l.counter :: ·) (List.append_nil _)
  -- From the check before trip `t` the remaining trips are made one after the other.
  have remaining (k : Nat) : ∀ t, (∀ u, u < k ↔ a + (t + u) * d < b) → ∀ names',
      names.Same (l.counter :: body.binders) names' → names' l.counter = some (.index (a + t * d)) →
      ∃ last, names.Same (l.counter :: body.binders) last ∧ ∀ rest fs, Thread.Shows o ⟨rest, last⟩ fs →
        Thread.Shows o ⟨.check l body :: rest, names'⟩ ((List.range' (a + t * d) k d).flatMap es ++ fs) := by
    induction k with
    | zero =>
      intro t count names' same at'
      refine ⟨names', same, fun rest fs further => ?_⟩
      have past : ¬a + t * d < b := fun below => Nat.not_lt_zero 0 ((count 0).mpr below)
      have leaves := runs.check names' same _ at' body rest
      rw [if_neg past] at leaves
      exact further.silent leaves rfl
    | succ k ih =>
      intro t count names' same at'
      have below : a + t * d < b := (count 0).mp (Nat.succ_pos k)
      obtain ⟨middle, same₁, run⟩ := trip _ ⟨t, rfl, below⟩ names' same at'
      have same₂ : names.Same (l.counter :: body.binders) middle :=
        same.trans (same₁.mono fun x => List.mem_cons_of_mem _)
      have next : a + t * d + d = a + (t + 1) * d := by rw [Nat.succ_mul, Nat.add_assoc]
      obtain ⟨last, same₃, run'⟩ := ih (t + 1)
        (fun u => by rw [Nat.add_right_comm, Nat.add_assoc, ← count, Nat.succ_lt_succ_iff])
        (middle.bind l.counter (.index (a + (t + 1) * d))) (same₂.bind List.mem_cons_self _)
        (Names.bind_self ..)
      refine ⟨last, same₃, fun rest fs further => ?_⟩
      have enters := runs.check names' same _ at' body rest
      have advances := runs.advance middle same₂ _ below ((same₁ _ kept).trans at') body rest
      rw [if_pos below] at enters
      rw [next] at advances
      rw [List.range'_succ, List.flatMap_cons, List.append_assoc, next]
      refine .silent enters rfl (run _ _ (.silent advances rfl ?_))
      exact run' rest fs further
  obtain ⟨last, same, run⟩ := remaining (trips a d b) 0
    (fun u => by rw [Nat.zero_add]; exact lt_trips_iff runs.positive) (names.bind l.counter (.index a))
    ((Names.Same.refl _ _).bind List.mem_cons_self _) (by rw [Nat.zero_mul]; exact Names.bind_self ..)
  rw [Nat.zero_mul, Nat.add_zero] at run
  refine ⟨last, whole ▸ same, trivial, fun after rest fs further => ?_⟩
  exact .silent (runs.start body after rest) rfl (run _ fs further)

/-- **Two loops, one inside the other**, show what their block shows at the elements of a grid. -/
theorem grid {l₁ l₂ : Loop} {a₁ d₁ b₁ a₂ d₂ b₂ : Nat}
    (runs₁ : l₁.Runs o.arithmetic o.worker names (l₁.counter :: l₂.counter :: body.binders) a₁ d₁ b₁)
    (runs₂ : ∀ names', names.Same (l₁.counter :: l₂.counter :: body.binders) names' →
      l₂.Runs o.arithmetic o.worker names' (l₂.counter :: body.binders) a₂ d₂ b₂)
    (apart : l₁.counter ≠ l₂.counter) (kept₁ : l₁.counter ∉ body.binders)
    (kept₂ : l₂.counter ∉ body.binders) (es : Nat → Nat → List β)
    (sees : ∀ i j, Visits a₁ d₁ b₁ i → Visits a₂ d₂ b₂ j → ∀ names',
      names.Same (l₁.counter :: l₂.counter :: body.binders) names' →
      names' l₁.counter = some (.index i) → names' l₂.counter = some (.index j) →
      o.Sees body names' (es i j) fun _ => True) :
    o.Sees (Code.ofLoop l₁ (Code.ofLoop l₂ body)) names
      ((visited a₁ d₁ b₁ ×ˢ visited a₂ d₂ b₂).flatMap fun x => es x.1 x.2) fun _ => True := by
  rw [flatMap_product]
  have bound : (Code.ofLoop l₂ body).binders = l₂.counter :: body.binders :=
    congrArg (l₂.counter :: ·) (List.append_nil _)
  have fresh : l₁.counter ∉ l₂.counter :: body.binders :=
    fun member => (List.mem_cons.mp member).elim apart kept₁
  refine loop (by rw [bound]; exact runs₁) (by rw [bound]; exact fresh) _ fun i row names₁ same₁ at₁ => ?_
  rw [bound] at same₁
  refine (loop (runs₂ names₁ same₁) kept₂ _ fun j col names₂ same₂ at₂ => ?_).block
  exact (sees i j row col names₂ (same₁.trans (same₂.mono fun x => List.mem_cons_of_mem _))
    ((same₂ _ fresh).trans at₁) at₂).block

end Observer.Sees

end Loops

/-! ### Numbers without a bound -/

/-- An observer of a worker whose numbers have no bound. -/
abbrev Observer.exact (w : Worker) (event : Names Unit → Step → Option β) : Observer β := ⟨.exact, w, event⟩

/-- What is told of the stores into an array: from the names, and from the two sides. -/
def Step.stored (array : String) (tell : Names Unit → Term → Term → β) (names : Names Unit) : Step → Option β
  | .store slot _ source =>
    if slot.access?.map Prod.fst = some array then some (tell names slot source) else none
  | _ => none

/-- An observer of the stores into an array. -/
abbrev Observer.ofStores (w : Worker) (array : String) (tell : Names Unit → Term → Term → β) : Observer β :=
  .exact w (Step.stored array tell)

section Stores

variable {array : String} {tell : Names Unit → Term → Term → β} {names : Names Unit} {slot value : Term}
  {how : AssignOp}

theorem Step.stored_here (here : slot.access?.map Prod.fst = some array) :
    (Step.store slot how value).stored array tell names = some (tell names slot value) := if_pos here

theorem Step.stored_elsewhere (elsewhere : slot.access?.map Prod.fst ≠ some array) :
    (Step.store slot how value).stored array tell names = none := if_neg elsewhere

end Stores

/-- Code comes to its end and shows nothing, whatever the names stand for. -/
def Observer.Ignores (o : Observer β) (code : Code) : Prop := ∀ names, o.Sees code names [] fun _ => True

section Exact

variable {w : Worker} {event : Names Unit → Step → Option β} {names names' : Names Unit} {es : List β}
  {first second body code : Code} {s : Step} {counter : String}

namespace Observer.Sees

variable {goal : Names Unit → Prop}

/-- A declaration that shows nothing. -/
theorem declare (binds : s.names? w names = some names') (none : event names s = none)
    (next : (exact w event).Sees code names' es goal) : (exact w event).Sees (.step s code) names es goal :=
  silent binds (Step.names?_same binds) none next

/-- Declarations of indices that show nothing. -/
theorem declares {steps : List Step} (declares : names.Declares w steps names')
    (none : ∀ s ∈ steps, ∀ names, event names s = none) (next : (exact w event).Sees code names' es goal) :
    (exact w event).Sees (Code.ofSteps steps ++ code) names es goal := by
  induction declares with
  | nil => exact next
  | index number _ ih =>
    exact declare (Option.map_eq_some_iff.mpr ⟨_, number, rfl⟩) (none _ List.mem_cons_self _)
      (ih (fun s member => none s (List.mem_cons_of_mem _ member)) next)

end Observer.Sees

namespace Observer.Ignores

theorem done : (exact w event).Ignores .done := fun _ => .done trivial

/-- A step that changes no names. -/
theorem step (stays : ∀ names, s.names? w names = some names) (none : ∀ names, event names s = none)
    (next : (exact w event).Ignores code) : (exact w event).Ignores (.step s code) :=
  fun names => .declare (stays names) (none names) (next names)

theorem append (one : (exact w event).Ignores first) (two : (exact w event).Ignores second) :
    (exact w event).Ignores (first ++ second) :=
  fun names => Sees.append (one names) fun names' _ _ => two names'

/-- A loop whose trips show nothing. -/
theorem loop {l : Loop} {a d b : Nat}
    (counts : ∀ names : Names Unit, l.Counts w names (l.counter :: body.binders) a d b)
    (kept : l.counter ∉ body.binders) (inner : (exact w event).Ignores body) :
    (exact w event).Ignores (Code.ofLoop l body) := fun names => by
  have sees : (exact w event).Sees (Code.ofLoop l body) names ((visited a d b).flatMap fun _ => [])
      fun _ => True := .loop (counts names).runs kept _ fun _ _ names' _ _ => (inner names').block
  rwa [List.flatMap_eq_nil_iff.mpr fun _ _ => rfl] at sees

/-- A loop up to a constant. -/
theorem counted {n : Nat} (kept : counter ∉ body.binders) (inner : (exact w event).Ignores body) :
    (exact w event).Ignores ((Walk.counted counter n).around body) :=
  loop (fun _ => Walk.counts_counted ..) kept inner

end Observer.Ignores

end Exact

end TunedKernel
