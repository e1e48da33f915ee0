/-
**Folds of the parts of a range.**

Workers that split a range between them fold their parts one by one, and then what they have folded.

* `prod_trips`, `fold_trips` — where each element of a range is visited by one of the workers, the
  folds of their parts make up that of the range.
* `prod_blocks`, `fold_blocks` — so do the folds of blocks of equal length.
-/

import Mathlib.Algebra.BigOperators.Group.Finset.Basic
import Mathlib.Algebra.BigOperators.Group.Finset.Sigma
import TunedKernel.Proofs.Execution.Worker

namespace TunedKernel

/-- **The parts of a range make up the range**, where each of its elements is visited by its owner
alone. -/
theorem prod_trips {M : Type} [CommMonoid M] {a b : Nat → Nat} {d n c : Nat} {owner : Nat → Nat}
    (positive : 0 < d) (owned : ∀ j < c, owner j < n)
    (visits : ∀ x < n, ∀ j, Visits (a x) d (b x) j ↔ j < c ∧ owner j = x) (f : Nat → M) :
    ∏ x ∈ Finset.range n, ∏ t ∈ Finset.range (trips (a x) d (b x)), f (a x + t * d) =
      ∏ j ∈ Finset.range c, f j := by
  rw [← Finset.prod_fiberwise_of_maps_to (s := Finset.range c) (t := Finset.range n) (g := owner)
    fun j below => Finset.mem_range.mpr (owned j (Finset.mem_range.mp below))]
  refine Finset.prod_congr rfl fun x worker => ?_
  have here := visits x (Finset.mem_range.mp worker)
  refine Finset.prod_nbij (fun t => a x + t * d) ?_ ?_ ?_ fun _ _ => rfl
  · intro t trip
    have below := (lt_trips_iff positive).mp (Finset.mem_range.mp trip)
    obtain ⟨inside, mine⟩ := (here (a x + t * d)).mp ⟨t, rfl, below⟩
    exact Finset.mem_filter.mpr ⟨Finset.mem_range.mpr inside, mine⟩
  · intro t _ t' _ same
    exact Nat.eq_of_mul_eq_mul_right positive (Nat.add_left_cancel same)
  · intro j member
    obtain ⟨inside, mine⟩ := Finset.mem_filter.mp member
    obtain ⟨t, rfl, below⟩ := (here j).mpr ⟨Finset.mem_range.mp inside, mine⟩
    exact ⟨t, Finset.mem_range.mpr ((lt_trips_iff positive).mpr below), rfl⟩

/-- Blocks of equal length make up the range. -/
theorem prod_blocks {M : Type} [CommMonoid M] (n w : Nat) (f : Nat → M) :
    ∏ j ∈ Finset.range n, ∏ l ∈ Finset.range w, f (j * w + l) = ∏ i ∈ Finset.range (n * w), f i := by
  induction n with
  | zero => rw [Nat.zero_mul]; rfl
  | succ n ih => rw [Finset.prod_range_succ, ih, Nat.succ_mul, Finset.prod_range_add]

namespace Elements

variable {α : Type} {e : Elements α} {type : NumericType} {op : ReduceOp}

/-- What is folded out of folds is a product of products. -/
theorem fold_fold (lawful : e.Lawful type op) (n : Nat) (count : Nat → Nat) (f : Nat → Nat → α) :
    e.fold type op ((List.range n).map fun x => e.fold type op
        ((List.range (count x)).map (f x))) =
      letI := lawful.monoid
      ∏ x ∈ Finset.range n, ∏ t ∈ Finset.range (count x), f x t := by
  let := lawful.monoid
  rw [lawful.fold_range]
  exact Finset.prod_congr rfl fun x _ => lawful.fold_range (f x) (count x)

/-- Folds inside a fold may change places with it. -/
theorem fold_comm (lawful : e.Lawful type op) (n m : Nat) (f : Nat → Nat → α) :
    e.fold type op ((List.range n).map fun x => e.fold type op ((List.range m).map (f x))) =
      e.fold type op ((List.range m).map fun y => e.fold type op
        ((List.range n).map fun x => f x y)) := by
  rw [fold_fold lawful n (fun _ => m) f, fold_fold lawful m (fun _ => n) fun y x => f x y]
  exact @Finset.prod_comm _ _ _ lawful.monoid _ _ _

/-- **The folds of the parts of a range make up that of the range.** -/
theorem fold_trips (lawful : e.Lawful type op) {a b : Nat → Nat} {d n c : Nat} {owner : Nat → Nat}
    (positive : 0 < d) (owned : ∀ j < c, owner j < n)
    (visits : ∀ x < n, ∀ j, Visits (a x) d (b x) j ↔ j < c ∧ owner j = x) (f : Nat → α) :
    e.fold type op ((List.range n).map fun x => e.fold type op
        ((List.range (trips (a x) d (b x))).map fun t => f (a x + t * d))) =
      e.fold type op ((List.range c).map f) := by
  rw [fold_fold lawful, lawful.fold_range]
  exact @prod_trips α lawful.monoid _ _ _ _ _ _ positive owned visits f

/-- **The folds of blocks of equal length make up that of the range.** -/
theorem fold_blocks (lawful : e.Lawful type op) (n w : Nat) (f : Nat → α) :
    e.fold type op ((List.range n).map fun j => e.fold type op
        ((List.range w).map fun l => f (j * w + l))) =
      e.fold type op ((List.range (n * w)).map f) := by
  rw [fold_fold lawful, lawful.fold_range]
  exact @prod_blocks α lawful.monoid n w f

end Elements

end TunedKernel
