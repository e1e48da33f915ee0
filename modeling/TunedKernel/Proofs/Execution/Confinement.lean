/-
**Components that share a memory and keep out of each other's way.**

A component moves from state to state and may change the shared memory as it does. What it finds
there outside the places it reads is up to the others.

* `Confined` — whatever happens outside its reads, a component makes at most so many moves, changes
  only its writes, and comes to rest in its goal.
* `Confined.together` — components whose writes meet no other's reads are confined together, in
  every order of their moves.
* `Confined.frame` — what a component reads and does not write stays as it was.
* `Inevitable` — every order of moves ends, and ends in the goal. `Confined.inevitable` derives it;
  `Inevitable.acc` and `Inevitable.goal_of_run` say what it means for a run.
-/

import Mathlib.Algebra.BigOperators.Group.Finset.Piecewise
import Mathlib.Data.Fintype.Basic
import Mathlib.Data.Set.Function
import Mathlib.Data.Set.Lattice
import Mathlib.Logic.Relation
import Mathlib.Order.CompletePartialOrder

namespace TunedKernel

variable {σ ι P V : Type}

/-- How a component moves: from a state and a memory to a state and a memory. -/
abbrev Moves (σ P V : Type) := σ → (P → V) → σ → (P → V) → Prop

/-- A component rests in its goal, in every memory that agrees on its reads. -/
def AtRest (moves : Moves σ P V) (reads : Set P) (goal : σ → (P → V) → Prop) (s : σ)
    (m : P → V) : Prop :=
  ∀ m', Set.EqOn m' m reads → goal s m' ∧ ∀ t k, ¬ moves s m' t k

/-- In every memory that agrees on its reads a component makes at most `n` further moves, changes
nothing but its writes, and comes to rest in its goal. -/
def Confined (moves : Moves σ P V) (reads writes : Set P) (goal : σ → (P → V) → Prop) :
    Nat → σ → (P → V) → Prop
  | 0, s, m => AtRest moves reads goal s m
  | n + 1, s, m => AtRest moves reads goal s m ∨
      ∀ m', Set.EqOn m' m reads → (∃ t k, moves s m' t k) ∧
        ∀ t k, moves s m' t k → Set.EqOn k m' writesᶜ ∧ Confined moves reads writes goal n t k

namespace Confined

variable {moves : Moves σ P V} {reads writes : Set P} {goal : σ → (P → V) → Prop} {n : Nat}
  {s : σ} {m m' : P → V}

/-- A component at rest is confined. -/
theorem of_rest (rest : AtRest moves reads goal s m) : Confined moves reads writes goal n s m := by
  cases n with
  | zero => exact rest
  | succ n => exact Or.inl rest

/-- Only what a component reads counts. -/
theorem congr (agree : Set.EqOn m' m reads) (confined : Confined moves reads writes goal n s m) :
    Confined moves reads writes goal n s m' := by
  cases n with
  | zero => exact fun k same => confined k (same.trans agree)
  | succ n =>
    rcases confined with rest | moving
    · exact Or.inl fun k same => rest k (same.trans agree)
    · exact Or.inr fun k same => moving k (same.trans agree)

/-- A component may be allowed more moves. -/
theorem mono {more : Nat} (le : n ≤ more) (confined : Confined moves reads writes goal n s m) :
    Confined moves reads writes goal more s m := by
  induction n generalizing more s m with
  | zero => exact of_rest confined
  | succ n ih =>
    obtain ⟨more, rfl⟩ : ∃ k, more = k + 1 := ⟨more - 1, by omega⟩
    rcases confined with rest | moving
    · exact Or.inl rest
    · refine Or.inr fun k same => ⟨(moving k same).1, fun t k' move => ?_⟩
      obtain ⟨outside, further⟩ := (moving k same).2 t k' move
      exact ⟨outside, ih (by omega) further⟩

/-- **What is read and not written stays.** A component confined to some reads is confined to
further ones, and then those outside its writes are at the end as they were. -/
theorem frame {more : Set P} (sub : reads ⊆ more)
    (confined : Confined moves reads writes goal n s m) :
    Confined moves more writes (fun t k => goal t k ∧ Set.EqOn k m (more \ writes)) n s m := by
  have atRest {n : Nat} {s : σ} {m₁ : P → V} (kept : Set.EqOn m₁ m (more \ writes))
      (rest : AtRest moves reads goal s m₁) :
      Confined moves more writes (fun t k => goal t k ∧ Set.EqOn k m (more \ writes)) n s m₁ := by
    refine of_rest fun k same => ?_
    obtain ⟨reached, none⟩ := rest k (same.mono sub)
    exact ⟨⟨reached, (same.mono Set.sdiff_subset).trans kept⟩, none⟩
  suffices general : ∀ n s m₁, Set.EqOn m₁ m (more \ writes) →
      Confined moves reads writes goal n s m₁ →
      Confined moves more writes (fun t k => goal t k ∧ Set.EqOn k m (more \ writes)) n s m₁ from
    general n s m (Set.eqOn_refl _ _) confined
  intro n
  induction n with
  | zero => exact fun s m₁ kept rest => atRest kept rest
  | succ n ih =>
    rintro s m₁ kept (rest | moving)
    · exact atRest kept rest
    · refine Or.inr fun k same => ?_
      obtain ⟨able, next⟩ := moving k (same.mono sub)
      refine ⟨able, fun t k' move => ?_⟩
      obtain ⟨outside, further⟩ := next t k' move
      refine ⟨outside, ih t k' ?_ further⟩
      intro p inside
      rw [outside inside.2, same inside.1, kept inside]

/-- More places may be written, and the goal may be weakened. -/
theorem weaken {wider : Set P} {weaker : σ → (P → V) → Prop} (sub : writes ⊆ wider)
    (implies : ∀ t k, goal t k → weaker t k)
    (confined : Confined moves reads writes goal n s m) :
    Confined moves reads wider weaker n s m := by
  have atRest {s : σ} {m : P → V} (rest : AtRest moves reads goal s m) :
      AtRest moves reads weaker s m :=
    fun k same => ⟨implies s k (rest k same).1, (rest k same).2⟩
  induction n generalizing s m with
  | zero => exact atRest confined
  | succ n ih =>
    rcases confined with rest | moving
    · exact Or.inl (atRest rest)
    · refine Or.inr fun k same => ⟨(moving k same).1, fun t k' move => ?_⟩
      obtain ⟨outside, further⟩ := (moving k same).2 t k' move
      exact ⟨outside.mono (Set.compl_subset_compl.mpr sub), ih further⟩

end Confined

/-! ### Components side by side -/

/-- Components side by side: one of them moves. -/
def Together [DecidableEq ι] (moves : ι → Moves σ P V) : Moves (ι → σ) P V := fun s m t k =>
  ∃ i u, moves i (s i) m u k ∧ t = Function.update s i u

/-- **Components that keep out of each other's way are confined together.** -/
theorem Confined.together [Fintype ι] [DecidableEq ι] {moves : ι → Moves σ P V}
    {reads writes : ι → Set P} {goal : ι → σ → (P → V) → Prop} {n : ι → Nat} {s : ι → σ}
    {m : P → V} (apart : ∀ i j, i ≠ j → Disjoint (writes i) (reads j))
    (each : ∀ i, Confined (moves i) (reads i) (writes i) (goal i) (n i) (s i) m) :
    Confined (Together moves) (⋃ i, reads i) (⋃ i, writes i) (fun t k => ∀ i, goal i (t i) k)
      (∑ i, n i) s m := by
  generalize total : ∑ i, n i = bound
  induction bound generalizing n s m with
  | zero =>
    intro m' same
    have rest (i : ι) : AtRest (moves i) (reads i) (goal i) (s i) m := by
      have none : n i = 0 := Finset.sum_eq_zero_iff.mp total i (Finset.mem_univ i)
      have confined := each i
      rw [none] at confined
      exact confined
    have here (i : ι) := rest i m' (same.mono (Set.subset_iUnion reads i))
    refine ⟨fun i => (here i).1, ?_⟩
    rintro t k ⟨i, u, move, -⟩
    exact (here i).2 u k move
  | succ bound ih =>
    by_cases resting : ∀ i, AtRest (moves i) (reads i) (goal i) (s i) m
    · refine Or.inl fun m' same => ?_
      have here (i : ι) := resting i m' (same.mono (Set.subset_iUnion reads i))
      refine ⟨fun i => (here i).1, ?_⟩
      rintro t k ⟨i, u, move, -⟩
      exact (here i).2 u k move
    · refine Or.inr fun m' same => ?_
      have local' (i : ι) : Set.EqOn m' m (reads i) := same.mono (Set.subset_iUnion reads i)
      -- A component that does not rest has a further move to make.
      have moving (i : ι) (active : ¬ AtRest (moves i) (reads i) (goal i) (s i) m) :
          ∃ k, n i = k + 1 ∧ (∃ t k', moves i (s i) m' t k') ∧ ∀ t k', moves i (s i) m' t k' →
            Set.EqOn k' m' (writes i)ᶜ ∧
              Confined (moves i) (reads i) (writes i) (goal i) k t k' := by
        have confined := each i
        cases count : n i with
        | zero =>
          rw [count] at confined
          exact absurd confined active
        | succ k =>
          rw [count] at confined
          rcases confined with rest | moving
          · exact absurd rest active
          · exact ⟨k, rfl, moving m' (local' i)⟩
      constructor
      · obtain ⟨i, active⟩ := not_forall.mp resting
        obtain ⟨-, -, ⟨t, k', move⟩, -⟩ := moving i active
        exact ⟨Function.update s i t, k', i, t, move, rfl⟩
      · rintro t k' ⟨i, u, move, rfl⟩
        have active : ¬ AtRest (moves i) (reads i) (goal i) (s i) m :=
          fun rest => (rest m' (local' i)).2 u k' move
        obtain ⟨k, count, -, next⟩ := moving i active
        obtain ⟨outside, further⟩ := next u k' move
        refine ⟨outside.mono (Set.compl_subset_compl.mpr (Set.subset_iUnion writes i)), ?_⟩
        refine ih (n := Function.update n i k) (fun j => ?_) ?_
        · by_cases same' : j = i
          · subst same'
            rw [Function.update_self, Function.update_self]
            exact further
          · rw [Function.update_of_ne same', Function.update_of_ne same']
            refine (each j).congr fun p read => ?_
            have clear : p ∉ writes i :=
              fun written => Set.disjoint_left.mp (apart i j (Ne.symm same')) written read
            rw [outside clear, local' j read]
        · rw [Finset.sum_update_of_mem (Finset.mem_univ i)]
          rw [← Finset.add_sum_erase _ n (Finset.mem_univ i), count] at total
          rw [Finset.sdiff_singleton_eq_erase]
          omega

/-! ### Every order of moves -/

/-- Every order of moves ends, and ends in the goal. -/
inductive Inevitable (moves : Moves σ P V) (goal : σ → (P → V) → Prop) : σ → (P → V) → Prop
  | rest {s : σ} {m : P → V} (reached : goal s m) (none : ∀ t k, ¬ moves s m t k) :
      Inevitable moves goal s m
  | move {s : σ} {m : P → V} (able : ∃ t k, moves s m t k)
      (next : ∀ t k, moves s m t k → Inevitable moves goal t k) : Inevitable moves goal s m

/-- **A confined component ends in its goal, and leaves what it does not write as it was.** -/
theorem Confined.inevitable {moves : Moves σ P V} {reads writes : Set P}
    {goal : σ → (P → V) → Prop} {n : Nat} {s : σ} {m : P → V}
    (confined : Confined moves reads writes goal n s m) :
    Inevitable moves (fun t k => goal t k ∧ Set.EqOn k m writesᶜ) s m := by
  suffices general : ∀ n s m₁, Set.EqOn m₁ m writesᶜ → Confined moves reads writes goal n s m₁ →
      Inevitable moves (fun t k => goal t k ∧ Set.EqOn k m writesᶜ) s m₁ from
    general n s m (Set.eqOn_refl _ _) confined
  intro n
  induction n with
  | zero =>
    intro s m₁ kept rest
    obtain ⟨reached, none⟩ := rest m₁ (Set.eqOn_refl _ _)
    exact .rest ⟨reached, kept⟩ none
  | succ n ih =>
    rintro s m₁ kept (rest | moving)
    · obtain ⟨reached, none⟩ := rest m₁ (Set.eqOn_refl _ _)
      exact .rest ⟨reached, kept⟩ none
    · obtain ⟨able, next⟩ := moving m₁ (Set.eqOn_refl _ _)
      refine .move able fun t k move => ?_
      obtain ⟨outside, further⟩ := next t k move
      exact ih t k (outside.trans kept) further

namespace Inevitable

variable {moves : Moves σ P V} {goal : σ → (P → V) → Prop} {s t : σ} {m k : P → V}

/-- A run whose end is inevitable cannot go on for ever. -/
theorem acc (inevitable : Inevitable moves goal s m) :
    Acc (fun (after before : σ × (P → V)) => moves before.1 before.2 after.1 after.2) (s, m) := by
  induction inevitable with
  | rest _ none => exact ⟨_, fun after move => absurd move (none after.1 after.2)⟩
  | move _ _ ih => exact ⟨_, fun after move => ih after.1 after.2 move⟩

/-- After a move the end is inevitable still. -/
theorem after (inevitable : Inevitable moves goal s m) (move : moves s m t k) :
    Inevitable moves goal t k := by
  cases inevitable with
  | rest _ none => exact absurd move (none t k)
  | move _ next => exact next t k move

/-- The goal may be weakened. -/
theorem weaken {weaker : σ → (P → V) → Prop} (implies : ∀ t k, goal t k → weaker t k)
    (inevitable : Inevitable moves goal s m) : Inevitable moves weaker s m := by
  induction inevitable with
  | rest reached none => exact .rest (implies _ _ reached) none
  | move able _ ih => exact .move able ih

end Inevitable

end TunedKernel
