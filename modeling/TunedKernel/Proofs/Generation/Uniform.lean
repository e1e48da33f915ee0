/-
**A loop that the workers of a group go through together.**

A barrier inside a loop asks for the same trips of all workers of a group. The loop therefore counts the
bases of the groups, whole groups apart, and its block adds the number of the worker; on the last trip the
sum may lie beyond the range, where the block has to guard it.

* `Observer.ofVariable` — what a variable is declared with; `Thread.Halts.seesBlock` — a block that halts and
  leaves the variable alone shows nothing of it.
* `Walk.sees_uniform` — what the walk declares its variable with; `Walk.makes_uniform` — the trips of its loop.
* `filter_visited`, `flatMap_range_mul` — what the workers have below the range, and the workers of all groups.
* `Walk.uniform_covers` — the workers of a group make the same trips, and all together have every element of
  the range once.
-/

import TunedKernel.Proofs.Execution.Traces
import TunedKernel.Proofs.Generation.Trips

namespace TunedKernel

/-! ### Declarations of a variable -/

/-- What a step declares a variable with, in 32 bits. -/
def Step.declared (w : Worker) (x : String) (names : Names Unit) : Step → Option Nat
  | declare .index y value =>
    if y = x then (value.unsigned? w names).map fun n => n.2 % Word.bits32.limit else none
  | _ => none

/-- An observer of what a variable is declared with. -/
def Observer.ofVariable (w : Worker) (x : String) : Observer Nat := ⟨.words, w, Step.declared w x⟩

section Blocks

variable {w : Worker} {x : String} {names : Names Unit} {s : Step}

theorem Step.declared_eq_none (other : x ∉ s.binder?.toList) : s.declared w x names = none := by
  cases s with
  | declare type y value =>
    cases type with
    | index => exact if_neg fun same => other (List.mem_singleton.mpr same.symm)
    | packed type width => rfl
  | declareLocal _ | declareArray _ _ _ | store _ _ _ | barrier => rfl

theorem Observer.told?_ofVariable {frame : Frame} (other : x ∉ frame.binders) (rest : List Frame)
    (names : Names Unit) : (ofVariable w x).told? ⟨frame :: rest, names⟩ = none := by
  match frame with
  | .run (.step s code) =>
    exact Step.declared_eq_none fun member => other (List.mem_append_left _ member)
  | .run .done | .run (.loop _ _ _) | .run (.guarded _ _ _) | .check _ _ | .advance _ _ => rfl

/-- What leaves a variable alone shows nothing of it. By induction on the moves to the end. -/
theorem Thread.Winds.shows {t : Thread Unit} {last : Names Unit} (ends : t.Winds w ⟨[], last⟩)
    (other : x ∉ t.binders) :
    t.names.Same t.binders last ∧ ∀ rest es, Shows (.ofVariable w x) ⟨rest, last⟩ es →
      Shows (.ofVariable w x) ⟨t.todo ++ rest, t.names⟩ es := by
  induction ends using Relation.ReflTransGen.head_induction_on with
  | refl => exact ⟨.refl _ _, fun _ _ => id⟩
  | @head t t₁ moves further ih =>
    obtain ⟨_ | ⟨frame, before⟩, names⟩ := t
    · cases moves
    obtain ⟨parts, todo, fewer, same⟩ := wrapped?_frame moves
    have sub : t₁.binders ⊆ Thread.binders ⟨frame :: before, names⟩ := by
      rw [Thread.binders, todo]
      exact Frame.flatMap_binders_sub parts fewer
    have here : frame.binders ⊆ Thread.binders ⟨frame :: before, names⟩ := List.subset_append_left _ _
    obtain ⟨same', later⟩ := ih fun member => other (sub member)
    refine ⟨(same.mono here).trans (same'.mono sub), fun rest es after => ?_⟩
    exact (later rest es after).silent (wrapped?_append moves rest)
      (Observer.told?_ofVariable (fun member => other (here member)) _ _)

/-- **A block that halts and leaves a variable alone** shows nothing of it. -/
theorem Thread.Halts.seesBlock {body : Code} (halts : Thread.Halts w ⟨[.run body], names⟩)
    (other : x ∉ body.binders) : (Observer.ofVariable w x).SeesBlock body names [] := by
  obtain ⟨last, ends⟩ := halts
  have within : Thread.binders (α := Unit) ⟨[.run body], names⟩ = body.binders := List.append_nil _
  obtain ⟨same, later⟩ := ends.shows (x := x) (by rwa [within])
  rw [within] at same
  exact ⟨last, same, later⟩

end Blocks

/-! ### The elements of a worker -/

/-- What the workers of all groups do is what the workers do, counted through. -/
theorem flatMap_range_mul {β : Type} (f : Nat → List β) (a b : Nat) :
    ((List.range a).flatMap fun i => (List.range b).flatMap fun j => f (i * b + j)) =
      (List.range (a * b)).flatMap f := by
  induction a with
  | zero => simp
  | succ a ih =>
    rw [List.range_succ, List.flatMap_append, ih, List.flatMap_singleton, Nat.succ_mul, List.range_add,
      List.flatMap_append, List.flatMap_map]

/-- Shifted trips that stay below the bound are those of a loop that starts as much later. -/
theorem filter_visited {a d n l : Nat} (positive : 0 < d) :
    ((visited a d n).map (· + l)).filter (· < n) = visited (a + l) d n := by
  obtain ⟨k, more⟩ : ∃ k, trips a d n = trips (a + l) d n + k := by
    refine ⟨trips a d n - trips (a + l) d n, (Nat.add_sub_cancel' (Nat.le_of_not_lt fun less => ?_)).symm⟩
    have inside := (lt_trips_iff positive).mp less
    exact Nat.lt_irrefl _ ((lt_trips_iff positive).mpr (by omega : a + trips a d n * d < n))
  have shifted : (visited a d n).map (· + l) = visited (a + l) d n ++
      List.range' (a + l + d * trips (a + l) d n) k d := by
    rw [visited, visited, List.range'_append, ← more, Nat.add_comm a, ← List.map_add_range']
    exact List.map_congr_left fun i _ => Nat.add_comm i l
  have below : ∀ i ∈ visited (a + l) d n, i < n := fun i member => by
    obtain ⟨_, _, below⟩ := (mem_visited positive).mp member
    exact below
  have beyond : ∀ i ∈ List.range' (a + l + d * trips (a + l) d n) k d, ¬i < n := fun i member less => by
    obtain ⟨t, -, rfl⟩ := List.mem_range'.mp member
    refine Nat.not_lt_of_le (Nat.le_add_right (trips (a + l) d n) t) ((lt_trips_iff positive).mpr ?_)
    rwa [Nat.add_mul, Nat.mul_comm _ d, Nat.mul_comm t, ← Nat.add_assoc]
  rw [shifted, List.filter_append, List.filter_eq_self.mpr (by simpa using below),
    List.filter_eq_nil_iff.mpr (by simpa using beyond), List.append_nil]

/-! ### The walk -/

/-- What a worker finds out about its place along a dimension. -/
structure Worker.Stands (w : Worker) (dimension size groups g l : Nat) : Prop where
  localId : w.answer? .localId dimension = some l
  groupId : w.answer? .groupId dimension = some g
  localSize : w.answer? .localSize dimension = some size
  globalSize : w.answer? .globalSize dimension = some (groups * size)

namespace Walk

variable {w : Worker} {names names' : Names Unit} {counter : String} {dimension : Nat} {bound : Term}
  {body : Code} {size groups n g l b : Nat}

/-- The declaration of the variable of the walk. -/
def lifted (counter : String) (dimension : Nat) : Step :=
  .declare .index counter (.name (counter ++ "_base") + .query .localId dimension)

theorem base_ne (counter : String) : counter ++ "_base" ≠ counter := by
  rw [Ne, String.append_eq_left_iff]
  decide

theorem binders_uniform : ((uniform counter dimension bound).around body).binders =
    (counter ++ "_base") :: counter :: body.binders :=
  congrArg ((counter ++ "_base") :: ·) (List.append_nil _)

/-- A worker of a group is one of all workers. -/
theorem worker_lt (group : g < groups) (lane : l < size) : g * size + l < groups * size :=
  calc g * size + l < g * size + size := Nat.add_lt_add_left lane _
    _ = (g + 1) * size := (Nat.succ_mul ..).symm
    _ ≤ groups * size := Nat.mul_le_mul_right _ group

/-- The first base of a group is the number of its first worker. -/
theorem first_uniform (stands : w.Stands dimension size groups g l) (small : g * size < 2 ^ 32) :
    (uniform counter dimension bound).loop.first.Worth w names (g * size) :=
  (Term.Worth.query stands.groupId).mul (.query stands.localSize) small

/-- The bases of a group are as far apart as there are workers. -/
theorem strides_uniform {changed : List String} (stands : w.Stands dimension size groups g l)
    (known : ∀ names', names.Same changed names' → bound.Worth w names' n) :
    (uniform counter dimension bound).loop.Strides w names changed (groups * size) n where
  stride _ _ := Term.Worth.query stands.globalSize
  bound := known

/-- The variable of the walk is a base with the number of the worker added to it. -/
theorem lifted_moves (stands : w.Stands dimension size groups g l) (small : b + l < 2 ^ 32)
    (at' : names (counter ++ "_base") = some (.index b)) :
    (lifted counter dimension).wrapped? w names = some (names.bind counter (.index (b + l))) ∧
      (lifted counter dimension).declared w counter names = some (b + l) := by
  obtain ⟨word, sum⟩ : Term.Worth w names (.name (counter ++ "_base") + .query .localId dimension) (b + l) :=
    (Term.Worth.name at').add (.query stands.localId) small
  have same : (b + l) % Word.bits32.limit = b + l := Word.mod_limit small
  constructor
  · refine Option.map_eq_some_iff.mpr ⟨_, sum, ?_⟩
    rw [Binding.wrapped, same]
  · refine (if_pos rfl).trans ?_
    rw [sum, Option.map_some, same]

section

variable (stands : w.Stands dimension size groups g l) (lane : l < size) (group : g < groups)
  (fits : n + size * groups ≤ 2 ^ 32) (kept : counter ++ "_base" ∉ body.binders)
  (known : ∀ names', names.Same ((uniform counter dimension bound).around body).binders names' →
    bound.Worth w names' n)
  (ends : ∀ b < n, ∀ names', names.Same ((uniform counter dimension bound).around body).binders names' →
    names' (counter ++ "_base") = some (.index b) → names' counter = some (.index (b + l)) →
      Thread.Halts w ⟨[.run body], names'⟩)

include stands lane group fits kept known ends

/-- **What the walk declares its variable with**: the bases of the group, each with the number of the worker
added to it. -/
theorem sees_uniform (own : counter ∉ body.binders) :
    (Observer.ofVariable w counter).Sees ((uniform counter dimension bound).around body) names
      ((visited (g * size) (groups * size) n).map (· + l)) fun _ => True := by
  have first := worker_lt group lane
  rw [Nat.mul_comm] at fits
  rw [binders_uniform] at known ends
  have fresh : counter ++ "_base" ∉ counter :: body.binders :=
    fun member => (List.mem_cons.mp member).elim (base_ne counter) kept
  rw [List.map_eq_flatMap]
  show (Observer.ofVariable w counter).Sees (Code.ofLoop (uniform counter dimension bound).loop
    (.step (lifted counter dimension) body)) _ _ _
  refine .loop ((strides_uniform stands known).runs (by omega) (first_uniform stands (by omega)) (by omega)
    (by omega)) fresh _ ?_
  rintro b ⟨_, -, below⟩ names' same at'
  obtain ⟨binds, shown⟩ := lifted_moves stands (by omega) at'
  have halts := ends b below _ (same.bind (List.mem_cons_of_mem _ List.mem_cons_self) _)
    ((Names.bind_of_ne (base_ne counter)).trans at') (Names.bind_self ..)
  have sees : (Observer.ofVariable w counter).SeesBlock (.step (lifted counter dimension) body) names'
      (((lifted counter dimension).declared w counter names').toList ++ []) :=
    .step binds ((Names.Same.refl _ _).bind List.mem_cons_self _) (halts.seesBlock own)
  rwa [shown] at sees

/-- **The trips of its loop** are the bases of the group, whatever the number of the worker. -/
theorem makes_uniform : Thread.Trips w (counter ++ "_base")
    ⟨[.run ((uniform counter dimension bound).around body)], names⟩
      (visited (g * size) (groups * size) n) := by
  have first := worker_lt group lane
  rw [Nat.mul_comm] at fits
  rw [binders_uniform] at known ends
  have fresh : counter ++ "_base" ∉ counter :: body.binders :=
    fun member => (List.mem_cons.mp member).elim (base_ne counter) kept
  have finish : g * size + trips (g * size) (groups * size) n * (groups * size) < n + groups * size :=
    @Split.visited_end_lt true _ _ _ (by omega)
  have makes := @Loop.Strides.makes_ofLoop (uniform counter dimension bound).loop
    (.step (lifted counter dimension) body) w names
  refine makes (strides_uniform stands known) fresh (by omega) (first_uniform stands (by omega))
    (by omega) ?_
  intro b below names' same at'
  obtain ⟨binds, -⟩ := lifted_moves stands (by omega) at'
  obtain ⟨last, halts⟩ := ends b below _ (same.bind (List.mem_cons_of_mem _ List.mem_cons_self) _)
    ((Names.bind_of_ne (base_ne counter)).trans at') (Names.bind_self ..)
  exact ⟨last, .head (Option.map_eq_some_iff.mpr ⟨_, binds, rfl⟩) halts⟩

end

/-- **The loop of a group is uniform and covers its range.** Every worker comes to its end. All workers of a
group make the same trips, with the same bases; a worker has the bases with its own number added, which stay
less than a group beyond the range. What the workers of all groups have of the range is every element once. -/
theorem uniform_covers {worker : Nat → Nat → Worker} {names : Nat → Nat → Names Unit}
    (positive : 0 < size) (populated : 0 < groups) (fits : n + size * groups ≤ 2 ^ 32)
    (stands : ∀ g < groups, ∀ l < size, (worker g l).Stands dimension size groups g l)
    (kept : counter ++ "_base" ∉ body.binders) (own : counter ∉ body.binders)
    (known : ∀ g < groups, ∀ l < size, ∀ names',
      (names g l).Same ((uniform counter dimension bound).around body).binders names' →
        bound.Worth (worker g l) names' n)
    (ends : ∀ g < groups, ∀ l < size, ∀ b < n, ∀ names',
      (names g l).Same ((uniform counter dimension bound).around body).binders names' →
        names' (counter ++ "_base") = some (.index b) → names' counter = some (.index (b + l)) →
          Thread.Halts (worker g l) ⟨[.run body], names'⟩) :
    (∀ g < groups, ∀ l < size,
      let thread : Thread Unit := ⟨[.run ((uniform counter dimension bound).around body)], names g l⟩
      let bases := visited (g * size) (groups * size) n
      thread.Halts (worker g l) ∧
        (∀ is, thread.Trips (worker g l) (counter ++ "_base") is ↔ is = bases) ∧
        (∀ es, thread.Shows (.ofVariable (worker g l) counter) es ↔ es = bases.map (· + l)) ∧
        ∀ b ∈ bases, b + l < n + size) ∧
    ((List.range groups).flatMap fun g => (List.range size).flatMap fun l =>
      ((visited (g * size) (groups * size) n).map (· + l)).filter (· < n)).Perm (List.range n) := by
  have workers : 0 < groups * size := Nat.mul_pos populated positive
  refine ⟨fun g group l lane => ?_, ?_⟩
  · have makes := makes_uniform (stands g group l lane) lane group fits kept (known g group l lane)
      (ends g group l lane)
    have sees := sees_uniform (stands g group l lane) lane group fits kept (known g group l lane)
      (ends g group l lane) own
    refine ⟨makes.halts, fun is => ⟨fun other => other.unique makes, ?_⟩,
      fun es => ⟨fun other => other.unique sees.shows, ?_⟩, fun b member => ?_⟩
    · rintro rfl
      exact makes
    · rintro rfl
      exact sees.shows
    · obtain ⟨_, _, below⟩ := (mem_visited workers).mp member
      omega
  · simp only [filter_visited workers]
    rw [flatMap_range_mul fun x => visited x (groups * size) n]
    exact @Split.visited_perm true _ _ workers

/-- Two groups of two workers over five elements. On its second trip the first group goes beyond them. -/
theorem uniform_covers_five :
    let worker (g l : Nat) : Worker := ⟨⟨2, 1, 1⟩, ⟨2, 1, 1⟩, ⟨g, 0, 0⟩, ⟨l, 0, 0⟩⟩
    let names : Names Unit := Names.bind (fun _ => none) "n" (.index 5)
    let body := Code.ofSteps
      [.store (.index (.name "y") (.name "i")) .assign (.index (.name "x") (.name "i")), .barrier]
    let thread : Thread Unit := ⟨[.run ((Walk.uniform "i" 0 (.name "n")).around body)], names⟩
    let has (g l : Nat) (es : List Nat) : Prop := thread.Shows (.ofVariable (worker g l) "i") es
    (∀ l < 2, thread.Trips (worker 0 l) "i_base" [0, 4] ∧ thread.Trips (worker 1 l) "i_base" [2]) ∧
      (has 0 0 [0, 4] ∧ has 0 1 [1, 5] ∧ has 1 0 [2] ∧ has 1 1 [3]) := by
  intro worker names body thread has
  have known (names' : Names Unit)
      (same : names.Same ((Walk.uniform "i" 0 (.name "n")).around body).binders names') :
      names' "n" = some (.index 5) := (same "n" (by decide)).trans (Names.bind_self ..)
  have all := (@uniform_covers "i" 0 (.name "n") body 2 2 5 worker (fun _ _ => names) (by decide) (by decide)
    (by decide) (fun _ _ _ _ => ⟨rfl, rfl, rfl, rfl⟩) (by decide) (by decide)
    (fun _ _ _ _ names' same => .name (known names' same))
    (fun _ _ _ _ _ _ names' _ _ _ => ⟨names', .head rfl (.head rfl (.head rfl .refl))⟩)).1
  have shows (g l : Nat) (group : g < 2) (lane : l < 2) : has g l ((visited (g * 2) (2 * 2) 5).map (· + l)) :=
    ((all g group l lane).2.2.1 _).mpr rfl
  refine ⟨fun l lane => ⟨((all 0 (by decide) l lane).2.1 _).mpr rfl,
      ((all 1 (by decide) l lane).2.1 _).mpr rfl⟩,
    shows 0 0 (by decide) (by decide), shows 0 1 (by decide) (by decide), shows 1 0 (by decide) (by decide),
    shows 1 1 (by decide) (by decide)⟩

end Walk

end TunedKernel
