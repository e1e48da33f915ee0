/-
**Workers that each have elements of the buffers to themselves.**

In the kernels here no element of a buffer is both stored into by one worker and used by another one.
The workers of a group meet in the arrays that the group shares only, which they use in a way that
changes at the barriers.

* `Footing` — the elements of the buffers that each worker may store into, and those that all
  workers may read. `Footing.Separate` — the former are used by no one else.
* `Use` — how the workers of a group use its arrays until the next barrier.
* `Footing.phase` — what they read and write until then. `Footing.apart` says that they keep out of
  each other's way, and `Footing.joins_own` and its like what they find behind the barrier.
* `Footing.Shows` — a group sees the buffers as in a memory, also behind a barrier.
* `Kernel.ends_of_footing` — a kernel ends as each of its groups alone does.
-/

import TunedKernel.Proofs.Execution.Group
import TunedKernel.Proofs.Execution.Walk

namespace TunedKernel

variable {α : Type} {shape : Shape}

/-- The elements of the buffers that each worker may read and store into, and those that all workers
may read. -/
structure Footing (shape : Shape) where
  cells : shape.Group → shape.Lane → Set (String × Nat)
  inputs : Set (String × Nat)

/-- An element that a worker may store into is used by no one else. -/
structure Footing.Separate (f : Footing shape) : Prop where
  unique : ∀ {g l g' l' cell}, cell ∈ f.cells g l → cell ∈ f.cells g' l' → g = g' ∧ l = l'
  fresh : ∀ {g l cell}, cell ∈ f.cells g l → cell ∉ f.inputs

/-- The elements of the group's arrays that each worker writes and reads until the next barrier. -/
structure Use (shape : Shape) where
  writes : shape.Lane → Set (String × List Nat)
  reads : shape.Lane → Set (String × List Nat)

/-- No worker writes what another one reads, and each may read what it writes. -/
structure Use.Apart (use : Use shape) : Prop where
  apart : ∀ {i j slot}, slot ∈ use.writes i → slot ∈ use.reads j → i = j
  sub : ∀ {l slot}, slot ∈ use.writes l → slot ∈ use.reads l

namespace Footing

variable {f : Footing shape} {use : Use shape} {g g' : shape.Group} {l : shape.Lane}
  {m k : Memory α} {seen : shape.Lane → Memory α}

/-! ### What is read and written -/

/-- What the workers of a group read and write until the next barrier. -/
def phase (f : Footing shape) (g : shape.Group) (use : Use shape) : Phase shape where
  reads l := {p | match p with
    | .own group lane _ _ => group = g.triple ∧ lane = l.triple
    | .shared group array subscripts => group = g.triple ∧ (array, subscripts) ∈ use.reads l
    | .global buffer n => (buffer, n) ∈ f.cells g l ∨ (buffer, n) ∈ f.inputs}
  writes l := {p | match p with
    | .own group lane _ _ => group = g.triple ∧ lane = l.triple
    | .shared group array subscripts => group = g.triple ∧ (array, subscripts) ∈ use.writes l
    | .global buffer n => (buffer, n) ∈ f.cells g l}

/-- What a group reads. -/
def reads (f : Footing shape) (g : shape.Group) : Set Place := {p | match p with
  | .own group _ _ _ | .shared group _ _ => group = g.triple
  | .global buffer n => (∃ l, (buffer, n) ∈ f.cells g l) ∨ (buffer, n) ∈ f.inputs}

/-- What a group writes. -/
def writes (f : Footing shape) (g : shape.Group) : Set Place := {p | match p with
  | .own group _ _ _ | .shared group _ _ => group = g.triple
  | .global buffer n => ∃ l, (buffer, n) ∈ f.cells g l}

/-- The workers of a group keep out of each other's way. -/
theorem apart (separate : f.Separate) (uses : use.Apart) :
    (f.phase g use).Apart (f.reads g) (f.writes g) where
  apart i j ne := by
    refine Set.disjoint_left.mpr fun p written read => ne ?_
    cases p with
    | own group lane array subscripts =>
      exact Grid.triple_injective (written.2.symm.trans read.2)
    | shared group array subscripts => exact uses.apart written.2 read.2
    | global buffer n =>
      rcases read with read | input
      · exact (separate.unique written read).2
      · exact absurd input (separate.fresh written)
  writes_reads l p written := by
    cases p with
    | own group lane array subscripts => exact written
    | shared group array subscripts => exact ⟨written.1, uses.sub written.2⟩
    | global buffer n => exact Or.inl written
  reads_sub l p read := by
    cases p with
    | own group lane array subscripts => exact read.1
    | shared group array subscripts => exact read.1
    | global buffer n => exact read.imp (fun cell => ⟨l, cell⟩) id
  writes_sub l p written := by
    cases p with
    | own group lane array subscripts => exact written.1
    | shared group array subscripts => exact written.1
    | global buffer n => exact ⟨l, written⟩

/-- The groups keep out of each other's way. -/
theorem groups_apart (separate : f.Separate) (ne : g ≠ g') :
    Disjoint (f.writes g) (f.reads g') := by
  refine Set.disjoint_left.mpr fun p written read => ne ?_
  cases p with
  | own group lane array subscripts => exact Grid.triple_injective (written.symm.trans read)
  | shared group array subscripts => exact Grid.triple_injective (written.symm.trans read)
  | global buffer n =>
    obtain ⟨l, cell⟩ := written
    rcases read with ⟨l', cell'⟩ | input
    · exact (separate.unique cell cell').1
    · exact absurd input (separate.fresh cell)

/-! ### Behind a barrier -/

theorem joins_own (joins : (f.phase g use).Joins m seen k) (l : shape.Lane) (array : String)
    (subscripts : List Nat) : k (.own g.triple l.triple array subscripts) =
      seen l (.own g.triple l.triple array subscripts) :=
  joins.1 l ⟨rfl, rfl⟩

theorem joins_shared (joins : (f.phase g use).Joins m seen k) {array : String}
    {subscripts : List Nat} (read : (array, subscripts) ∈ use.reads l) :
    k (.shared g.triple array subscripts) = seen l (.shared g.triple array subscripts) :=
  joins.1 l ⟨rfl, read⟩

theorem joins_cell (joins : (f.phase g use).Joins m seen k) {buffer : String} {n : Nat}
    (cell : (buffer, n) ∈ f.cells g l) :
    k (.global buffer n) = seen l (.global buffer n) :=
  joins.1 l (Or.inl cell)

theorem joins_other (joins : (f.phase g use).Joins m seen k) {buffer : String} {n : Nat}
    (none : ∀ l, (buffer, n) ∉ f.cells g l) : k (.global buffer n) = m (.global buffer n) := by
  refine joins.2 fun written => ?_
  obtain ⟨l, written⟩ := Set.mem_iUnion.mp written
  exact none l written

/-- What every worker sees unchanged of the buffers is unchanged. -/
theorem joins_same (joins : (f.phase g use).Joins m seen k) {m₀ : Memory α} {buffer : String}
    {n : Nat} (before : m (.global buffer n) = m₀ (.global buffer n))
    (each : ∀ l, seen l (.global buffer n) = m₀ (.global buffer n)) :
    k (.global buffer n) = m₀ (.global buffer n) := by
  by_cases cell : ∃ l, (buffer, n) ∈ f.cells g l
  · obtain ⟨l, cell⟩ := cell
    rw [joins_cell joins cell, each l]
  · rw [joins_other joins (not_exists.mp cell), before]

/-- A worker owns its arrays. -/
theorem owns {e : Elements α} (l : shape.Lane) : ((f.phase g use).station e g l).Owns :=
  fun _ _ => ⟨⟨rfl, rfl⟩, rfl, rfl⟩

end Footing

/-- In a phase a group sees the buffers as in a memory: each worker its own elements, and all of them
the elements that are no one's. -/
structure Footing.Shows (f : Footing shape) (g : shape.Group) (use : Use shape) (k : Memory α)
    (stage : Stage shape α) : Prop where
  phase : stage.phase = f.phase g use
  cells : ∀ l buffer n, (buffer, n) ∈ f.cells g l →
    stage.seen l (.global buffer n) = k (.global buffer n)
  start : ∀ buffer n, (∀ l, (buffer, n) ∉ f.cells g l) →
    stage.start (.global buffer n) = k (.global buffer n)
  others : ∀ l buffer n, (∀ l, (buffer, n) ∉ f.cells g l) →
    stage.seen l (.global buffer n) = k (.global buffer n)

namespace Footing.Shows

variable {e : Elements α} {f : Footing shape} {g : shape.Group} {use next : Use shape} {k : Memory α}
  {stage : Stage shape α}

/-- What a worker reads of the buffers is as in the memory. -/
theorem read (view : f.Shows g use k stage) (separate : f.Separate) {l : shape.Lane}
    {buffer : String} {n : Nat} (read : (buffer, n) ∈ f.cells g l ∨ (buffer, n) ∈ f.inputs) :
    stage.seen l (.global buffer n) = k (.global buffer n) := by
  rcases read with cell | input
  · exact view.cells l buffer n cell
  · exact view.others l buffer n fun _ cell => separate.fresh cell input

/-- **Behind a barrier a group still sees the buffers as before it.** -/
theorem barrier (view : f.Shows g use k stage) (separate : f.Separate) (apart : next.Apart) :
    Stage.Leads e g (f.reads g) (f.writes g) (Code.ofSteps [.barrier]) stage fun after =>
      f.Shows g next k after ∧ after.names = stage.names ∧ (∀ l, after.seen l = after.start) ∧
        (f.phase g use).Joins stage.start stage.seen after.start := by
  refine (Stage.Leads.barrier _ (f.apart separate apart)).weaken ?_
  rintro after - ⟨phase, names, seen, joins⟩
  rw [view.phase] at joins
  have others (buffer : String) (n : Nat) (none : ∀ l, (buffer, n) ∉ f.cells g l) :
      after.start (.global buffer n) = k (.global buffer n) := by
    rw [joins_other joins none, view.start buffer n none]
  refine ⟨⟨phase, fun l buffer n cell => ?_, others, fun l buffer n none => ?_⟩, names, seen, joins⟩
  · rw [seen l, joins_cell joins cell, view.cells l buffer n cell]
  · rw [seen l, others buffer n none]

/-- Workers that leave the buffers alone see them as before. -/
theorem keep (view : f.Shows g use k stage) {after : Stage shape α}
    (phase : after.phase = stage.phase) (start : after.start = stage.start)
    (same : ∀ l buffer n, after.seen l (.global buffer n) = stage.seen l (.global buffer n)) :
    f.Shows g use k after where
  phase := phase.trans view.phase
  cells l buffer n cell := (same l buffer n).trans (view.cells l buffer n cell)
  start buffer n none := start ▸ view.start buffer n none
  others l buffer n none := (same l buffer n).trans (view.others l buffer n none)

/-- Workers that change elements of their own only see the buffers as in the memory with the changes. -/
theorem change (view : f.Shows g use k stage) {k' : Memory α} {after : Stage shape α}
    (phase : after.phase = stage.phase) (start : after.start = stage.start)
    (own : ∀ l buffer n, (buffer, n) ∈ f.cells g l →
      after.seen l (.global buffer n) = k' (.global buffer n))
    (others : ∀ l buffer n, (buffer, n) ∉ f.cells g l →
      after.seen l (.global buffer n) = stage.seen l (.global buffer n))
    (same : ∀ buffer n, (∀ l, (buffer, n) ∉ f.cells g l) →
      k' (.global buffer n) = k (.global buffer n)) : f.Shows g use k' after where
  phase := phase.trans view.phase
  cells := own
  start buffer n none := start ▸ (view.start buffer n none).trans (same buffer n none).symm
  others l buffer n none := (others l buffer n (none l)).trans
    ((view.others l buffer n none).trans (same buffer n none).symm)

/-- Another memory does as well that has the same buffers. -/
theorem congr {k' : Memory α} (view : f.Shows g use k stage)
    (same : ∀ buffer n, k' (.global buffer n) = k (.global buffer n)) : f.Shows g use k' stage where
  phase := view.phase
  cells l buffer n cell := (view.cells l buffer n cell).trans (same buffer n).symm
  start buffer n none := (view.start buffer n none).trans (same buffer n).symm
  others l buffer n none := (view.others l buffer n none).trans (same buffer n).symm

/-- Names do not count for what is seen. -/
theorem bind (view : f.Shows g use k stage) (name : String) (binding : Binding α) :
    f.Shows g use k (stage.bind name binding) :=
  ⟨view.phase, view.cells, view.start, view.others⟩

/-- A group begins with the memory as it is. -/
theorem first (names : Names α) (m : Memory α) : f.Shows g use m (.first (f.phase g use) names m) :=
  ⟨rfl, fun _ _ _ _ => rfl, fun _ _ _ => rfl, fun _ _ _ _ => rfl⟩

end Footing.Shows

/-! ### Launches -/

/-- **A kernel whose workers meet in their groups' arrays only ends as each of its groups alone
does**, and nothing is changed in the buffers but the elements that a worker has to itself. -/
theorem Kernel.ends_of_footing {e : Elements α} {kernel : Kernel} {host : String → α}
    {bindings : Bindings} {m : Memory α} {final : Memory α → Prop} [Nonempty shape.Lane]
    (shaped : kernel.geometry.shape? bindings = some shape) {f : Footing shape}
    (separate : f.Separate) (use : shape.Group → Use shape) (uses : ∀ g, (use g).Apart)
    (goal : shape.Group → Memory α → Prop)
    (each : ∀ g, Stage.Leads e g (f.reads g) (f.writes g) kernel.body
      (.first (f.phase g (use g)) (kernel.names host bindings) m) fun last =>
        ∀ k, last.phase.Joins last.start last.seen k → goal g k)
    (reached : ∀ k, (∀ g, ∃ k', goal g k' ∧ ∀ l buffer n, (buffer, n) ∈ f.cells g l →
        k (.global buffer n) = k' (.global buffer n)) →
      (∀ buffer n, (∀ g l, (buffer, n) ∉ f.cells g l) →
        k (.global buffer n) = m (.global buffer n)) → final k) :
    kernel.Ends host bindings e m final := by
  refine ends_of_groups shaped f.reads f.writes (fun _ _ => f.groups_apart separate)
    (fun g => f.phase g (use g)) (fun g => f.apart separate (uses g)) goal each fun k groups kept => ?_
  refine reached k (fun g => ?_) fun buffer n none => kept fun written => ?_
  · obtain ⟨k', agree, here⟩ := groups g
    exact ⟨k', here, fun l buffer n cell => agree (Or.inl ⟨l, cell⟩)⟩
  · obtain ⟨g, l, cell⟩ := Set.mem_iUnion.mp written
    exact none g l cell

end TunedKernel
