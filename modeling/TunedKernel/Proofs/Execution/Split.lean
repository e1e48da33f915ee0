/-
**How the workers split a range between them.**

By strides a worker begins at its own number and goes on by the number of workers; in chunks it walks
through consecutive elements. Both ways give every element of the range to one worker.

* `Split.first`, `Split.stride`, `Split.stop` — what a worker counts through; `Split.owner` — the
  worker of an element.
* `Split.visits_iff`, `Split.owner_lt` — every element is visited by its owner alone.
* `Split.visited` — the elements of a worker in their order; `Split.visited_perm`,
  `Split.flatMap_visited_chunked` — together they are the range, in chunks even in order.
* `Names.Declares` — declarations of indices; `Walk.exists_declares_split` — those of a walk over a range
  that is split, and how its loop counts after them.
* `Station.Leads.split` — the walk over a range that is split leads where its loop does;
  `Leads.splitParts` — its trips may have places to themselves.
-/

import Mathlib.Data.List.Nodup
import Mathlib.Data.List.Perm.Basic
import Mathlib.Data.List.Range
import TunedKernel.Proofs.Execution.Walk

namespace TunedKernel

variable {α : Type}

namespace Split

/-- The elements of a chunk, the range divided by the number of workers and rounded up. -/
def chunk (workers n : Nat) : Nat := (n + workers - 1) / workers

/-- Where a worker begins. -/
def first (strided : Bool) (workers n x : Nat) : Nat :=
  if strided then x else x * chunk workers n

/-- What a worker goes on by. -/
def stride (strided : Bool) (workers : Nat) : Nat := if strided then workers else 1

/-- Where a worker ends. -/
def stop (strided : Bool) (workers n x : Nat) : Nat :=
  if strided then n else min (x * chunk workers n + chunk workers n) n

/-- The worker of an element. -/
def owner (strided : Bool) (workers n i : Nat) : Nat :=
  if strided then i % workers else i / chunk workers n

variable {strided : Bool} {workers n x i : Nat}

theorem stride_pos (positive : 0 < workers) : 0 < stride strided workers := by
  unfold stride
  split
  · exact positive
  · exact Nat.one_pos

theorem chunk_pos (positive : 0 < workers) (below : i < n) : 0 < chunk workers n :=
  Nat.div_pos (by omega) positive

/-- The chunks cover the range. -/
theorem le_mul_chunk (positive : 0 < workers) : n ≤ workers * chunk workers n := by
  have cover := Nat.lt_mul_div_succ (n + workers - 1) positive
  unfold chunk
  rw [Nat.mul_add, Nat.mul_one] at cover
  omega

/-- **Every element is visited by its owner**, and by no one else. -/
theorem visits_iff (worker : x < workers) :
    Visits (first strided workers n x) (stride strided workers) (stop strided workers n x) i ↔
      i < n ∧ owner strided workers n i = x := by
  cases strided with
  | true => exact TunedKernel.visits_iff worker
  | false =>
    show (∃ t, i = x * chunk workers n + t * 1 ∧ i < min _ n) ↔ i < n ∧ i / chunk workers n = x
    simp only [Nat.mul_one, Nat.lt_min]
    constructor
    · rintro ⟨t, rfl, short, below⟩
      exact ⟨below, Nat.div_eq_of_lt_le (Nat.le_add_right _ _) (by rwa [Nat.succ_mul])⟩
    · rintro ⟨below, rfl⟩
      have positive := chunk_pos (Nat.zero_lt_of_lt worker) below
      have whole := Nat.div_add_mod i (chunk workers n)
      have rest := Nat.mod_lt i positive
      rw [Nat.mul_comm] at whole
      exact ⟨i % chunk workers n, whole.symm, by omega, below⟩

/-- The owner of an element is one of the workers. -/
theorem owner_lt (positive : 0 < workers) (below : i < n) : owner strided workers n i < workers := by
  cases strided with
  | true => exact Nat.mod_lt i positive
  | false =>
    refine (Nat.div_lt_iff_lt_mul (chunk_pos positive below)).mpr (below.trans_le ?_)
    exact le_mul_chunk positive

/-- The elements of a worker, in the order in which it comes to them. -/
def visited (strided : Bool) (workers n x : Nat) : List Nat :=
  List.range' (first strided workers n x)
    (trips (first strided workers n x) (stride strided workers) (stop strided workers n x))
    (stride strided workers)

theorem mem_visited_iff (worker : x < workers) :
    i ∈ visited strided workers n x ↔ i < n ∧ owner strided workers n i = x := by
  rw [← visits_iff worker, visited, List.mem_range']
  simp only [lt_trips_iff (stride_pos (Nat.zero_lt_of_lt worker)), Nat.mul_comm (stride strided workers)]
  constructor
  · rintro ⟨t, below, rfl⟩
    exact ⟨t, rfl, below⟩
  · rintro ⟨t, rfl, below⟩
    exact ⟨t, below, rfl⟩

/-- **The workers visit every element of the range once.** -/
theorem visited_perm (positive : 0 < workers) :
    ((List.range workers).flatMap (visited strided workers n)).Perm (List.range n) := by
  have once : ((List.range workers).flatMap (visited strided workers n)).Nodup := by
    refine List.nodup_flatMap.mpr ⟨fun x _ => List.nodup_range' _ (stride_pos positive), ?_⟩
    refine List.nodup_range.imp_of_mem fun {x y} here there other i one two => other ?_
    rw [mem_visited_iff (List.mem_range.mp here)] at one
    rw [mem_visited_iff (List.mem_range.mp there)] at two
    exact one.2.symm.trans two.2
  rw [List.perm_ext_iff_of_nodup once List.nodup_range]
  intro i
  rw [List.mem_flatMap, List.mem_range]
  constructor
  · rintro ⟨x, worker, visits⟩
    exact ((mem_visited_iff (List.mem_range.mp worker)).mp visits).1
  · intro below
    have worker : owner strided workers n i < workers := owner_lt positive below
    exact ⟨_, List.mem_range.mpr worker, (mem_visited_iff worker).mpr ⟨below, rfl⟩⟩

/-- **In chunks, the workers visit the range in order**, one after the other. -/
theorem flatMap_visited_chunked (positive : 0 < workers) :
    (List.range workers).flatMap (visited false workers n) = List.range n := by
  have parts (count : Nat) : (List.range count).flatMap (visited false workers n) =
      List.range (min (count * chunk workers n) n) := by
    induction count with
    | zero => simp
    | succ count ih =>
      have part : visited false workers n count = List.range' (count * chunk workers n)
          (min (count * chunk workers n + chunk workers n) n - count * chunk workers n) := by
        simp [visited, first, stride, stop, trips]
      rw [List.range_succ, List.flatMap_append, ih, List.flatMap_singleton, part, Nat.succ_mul]
      rcases Nat.le_total (count * chunk workers n) n with inside | beyond
      · have joined := @List.range'_append_1 0 (count * chunk workers n)
          (min (count * chunk workers n + chunk workers n) n - count * chunk workers n)
        rw [Nat.zero_add] at joined
        rw [Nat.min_eq_left inside, List.range_eq_range', List.range_eq_range', joined]
        congr 1
        omega
      · rw [Nat.min_eq_right beyond, Nat.min_eq_right (by omega), Nat.sub_eq_zero_of_le beyond,
          List.range'_zero, List.append_nil]
  rw [parts, Nat.min_eq_right (le_mul_chunk positive)]

/-- The chunks end less than one element each behind the range. -/
theorem mul_chunk_le : workers * chunk workers n ≤ n + workers - 1 := Nat.mul_div_le _ _

/-- No worker counts beyond the range by more than the number of workers. -/
theorem visited_end_lt (worker : x < workers) :
    first strided workers n x + trips (first strided workers n x) (stride strided workers)
      (stop strided workers n x) * stride strided workers < n + workers := by
  have steps : trips (first strided workers n x) (stride strided workers) (stop strided workers n x) *
      stride strided workers ≤ _ := Nat.div_mul_le_self _ _
  cases strided with
  | true =>
    show x + trips x workers n * workers < n + workers
    change trips x workers n * workers ≤ n - x + workers - 1 at steps
    rcases Nat.le_total x n with inside | beyond
    · omega
    · have none : trips x workers n = 0 := Nat.div_eq_of_lt (by omega)
      rw [none]
      omega
  | false =>
    show x * chunk workers n + trips (x * chunk workers n) 1 (stop false workers n x) * 1 < n + workers
    change trips (x * chunk workers n) 1 (stop false workers n x) * 1 ≤
      min (x * chunk workers n + chunk workers n) n - x * chunk workers n + 1 - 1 at steps
    have before : x * chunk workers n ≤ workers * chunk workers n := Nat.mul_le_mul_right _ worker.le
    have cover := @mul_chunk_le workers n
    omega

end Split

theorem Walk.counter_split {strided : Bool} {counter : String} {dimension : Nat} {bound : Term} :
    (split strided counter dimension bound).loop.counter = counter := by
  cases strided <;> rfl

/-- The variables that a walk declares in front of its loop. -/
def Walk.declared (walk : Walk) : List String := (Code.ofSteps walk.before).binders

/-- They are the counter with a word behind it. -/
theorem Walk.mem_declared_split {strided : Bool} {counter : String} {dimension : Nat} {bound : Term}
    {x : String} (member : x ∈ (split strided counter dimension bound).declared) :
    ∃ word ∈ ["_chunk", "_start", "_stop"], x = counter ++ word := by
  cases strided with
  | true => cases member
  | false =>
    obtain ⟨word, inside, same⟩ := List.mem_map.mp (show x ∈ ["_chunk", "_start", "_stop"].map
      (counter ++ ·) from member)
    exact ⟨word, inside, same.symm⟩

theorem Walk.ne_of_mem_declared_split {strided : Bool} {counter : String} {dimension : Nat}
    {bound : Term} {x : String} (member : x ∈ (split strided counter dimension bound).declared) :
    x ≠ counter := by
  obtain ⟨word, inside, rfl⟩ := mem_declared_split member
  rw [Ne, String.append_eq_left_iff]
  rintro rfl
  exact absurd inside (by decide)

/-- A walk over a range that is split binds what it declares, its counter and what its block binds. -/
theorem Walk.mem_binders_split {strided : Bool} {counter : String} {dimension : Nat} {bound : Term}
    {body : Code} {x : String} : x ∈ ((split strided counter dimension bound).around body).binders ↔
      x ∈ (split strided counter dimension bound).declared ∨ x = counter ∨ x ∈ body.binders := by
  have loop : x ∈ (Code.ofLoop (split strided counter dimension bound).loop
      (Code.ofSteps (split strided counter dimension bound).inside ++ body)).binders ↔
        x = counter ∨ x ∈ body.binders := by
    cases strided <;> simp [Code.ofLoop, Code.binders, split, strided, chunked, Code.ofSteps]
  rw [around, Code.mem_binders_append, loop]
  rfl

/-! ### Declarations of indices -/

/-- Declarations of indices turn names into others. -/
inductive Names.Declares (w : Worker) : Names α → List Step → Names α → Prop
  | nil {names : Names α} : Declares w names [] names
  | index {names names' : Names α} {name : String} {value : Term} {n : Nat} {steps : List Step}
      (number : value.number? w names = some n)
      (further : Declares w (names.bind name (.index n)) steps names') :
      Declares w names (.declare .index name value :: steps) names'

theorem Names.Declares.leads {q : Station α} {names names' : Names α} {m : Memory α}
    {goal : Names α → Memory α → Prop} {steps : List Step} {code : Code}
    (declares : names.Declares q.worker steps names') (next : q.Leads code names' m goal) :
    q.Leads (Code.ofSteps steps ++ code) names m goal := by
  induction declares with
  | nil => exact next
  | index number _ ih => exact .declareIndex number (ih next)

/-- The smaller one of two numbers, the second of which is read as an index. -/
theorem Term.number?_min {w : Worker} {names : Names α} {s t : Term} {a b : Nat}
    (left : s.number? w names = some a) (right : t.number? w names = some b) :
    (Term.call₂ "min" s (.cast ValueType.index.text t)).number? w names = some (min a b) := by
  rw [number?, if_pos rfl, left, number?, if_pos rfl, right]
  rfl

section Chunks

variable {counter : String}

theorem Walk.chunk_ne_start : counter ++ "_chunk" ≠ counter ++ "_start" :=
  fun same => absurd ((String.append_right_inj counter).mp same) (by decide)

theorem Walk.start_ne_stop : counter ++ "_start" ≠ counter ++ "_stop" :=
  fun same => absurd ((String.append_right_inj counter).mp same) (by decide)

/-- The length and the start of a chunk are declared. -/
theorem Names.same_start (names : Names α) (length start : Binding α) :
    names.Same [counter ++ "_chunk", counter ++ "_start", counter ++ "_stop"]
      ((names.bind (counter ++ "_chunk") length).bind (counter ++ "_start") start) :=
  ((Same.refl _ names).bind (by simp) _).bind (by simp) _

/-- The length, the start and the end of a chunk are declared. -/
theorem Names.same_stop (names : Names α) (length start stop : Binding α) :
    names.Same [counter ++ "_chunk", counter ++ "_start", counter ++ "_stop"]
      (((names.bind (counter ++ "_chunk") length).bind (counter ++ "_start") start).bind
        (counter ++ "_stop") stop) :=
  (names.same_start length start).bind (by simp) _

end Chunks

/-- **After the declarations of a walk over a range that is split**, its loop counts through the part of
the worker. -/
theorem Walk.exists_declares_split {w : Worker} {names : Names α} {strided : Bool} {counter : String}
    {dimension : Nat} {bound : Term} {x workers n : Nat} (changed : List String)
    (positive : 0 < workers) (number : w.answer? .globalId dimension = some x)
    (size : w.answer? .globalSize dimension = some workers)
    (known : ∀ names',
      names.Same ((split strided counter dimension bound).declared ++ changed) names' →
      bound.number? w names' = some n)
    (fresh : ∀ y ∈ (split strided counter dimension bound).declared, y ∉ changed) :
    ∃ names', names.Declares w (split strided counter dimension bound).before names' ∧
      names.Same (split strided counter dimension bound).declared names' ∧
      (split strided counter dimension bound).loop.Counts w names' changed
        (Split.first strided workers n x) (Split.stride strided workers)
        (Split.stop strided workers n x) := by
  cases strided with
  | true =>
    refine ⟨names, .nil, .refl _ _, ⟨positive, fun _ _ => number, fun names' same => ?_,
      fun _ _ => size⟩⟩
    exact known names' (same.mono fun y => List.mem_append_right _)
  | false =>
    have declared : (split false counter dimension bound).declared =
        [counter ++ "_chunk", counter ++ "_start", counter ++ "_stop"] := rfl
    rw [declared] at known fresh ⊢
    have tail {names' : Names α}
        (same : names.Same [counter ++ "_chunk", counter ++ "_start", counter ++ "_stop"] names') :
        bound.number? w names' = some n :=
      known names' (same.mono fun y => List.mem_append_left _)
    have length : (Term.paren (bound + .query .globalSize dimension - .number 1) /
        .query .globalSize dimension).number? w names = some (Split.chunk workers n) :=
      Term.number?_div (Term.number?_sub (Term.number?_add (tail (.refl _ _)) size) rfl
        (positive.trans_le (Nat.le_add_left _ _))) size positive
    refine ⟨_, .index length (.index (Term.number?_mul number
      (Term.number?_name (Names.bind_self ..))) (.index (Term.number?_min (Term.number?_add
        (Term.number?_name (Names.bind_self ..))
        (Term.number?_name ((Names.bind_of_ne chunk_ne_start).trans (Names.bind_self ..))))
        (tail (names.same_start _ _))) .nil)), names.same_stop _ _ _,
      ⟨Nat.one_pos, fun names' same => ?_, fun names' same => ?_, fun _ _ => rfl⟩⟩
    · refine Term.number?_name ((same _ (fresh _ (by simp))).trans ?_)
      exact (Names.bind_of_ne start_ne_stop).trans (Names.bind_self ..)
    · exact Term.number?_name ((same _ (fresh _ (by simp))).trans (Names.bind_self ..))

/-- The declarations of a walk over a range that is split all stand in front of its loop. -/
theorem Walk.around_split {strided : Bool} {counter : String} {dimension : Nat} {bound : Term}
    (body : Code) : (split strided counter dimension bound).around body =
      Code.ofSteps (split strided counter dimension bound).before ++
        Code.ofLoop (split strided counter dimension bound).loop body := by
  cases strided <;> rfl

/-- **A walk over a range that is split leads where its loop does**, which counts through the part of
the worker. -/
theorem Station.Leads.split {q : Station α} {names : Names α} {m : Memory α}
    {goal : Names α → Memory α → Prop} {strided : Bool} {counter : String} {dimension : Nat}
    {bound : Term} {body : Code} {x workers n : Nat} (changed : List String)
    (positive : 0 < workers) (number : q.worker.answer? .globalId dimension = some x)
    (size : q.worker.answer? .globalSize dimension = some workers)
    (known : ∀ names',
      names.Same ((Walk.split strided counter dimension bound).declared ++ changed) names' →
      bound.number? q.worker names' = some n)
    (fresh : ∀ y ∈ (Walk.split strided counter dimension bound).declared, y ∉ changed)
    (next : ∀ names', names.Same (Walk.split strided counter dimension bound).declared names' →
      (Walk.split strided counter dimension bound).loop.Counts q.worker names' changed
        (Split.first strided workers n x) (Split.stride strided workers)
        (Split.stop strided workers n x) →
      q.Leads (Code.ofLoop (Walk.split strided counter dimension bound).loop body) names' m goal) :
    q.Leads ((Walk.split strided counter dimension bound).around body) names m goal := by
  obtain ⟨names', declares, same, counts⟩ :=
    Walk.exists_declares_split changed positive number size known fresh
  rw [Walk.around_split]
  exact declares.leads (next names' same counts)

/-- **A walk over a range that is split, whose trips have places to themselves.** The worker makes the
trips of its own elements. -/
theorem Station.Leads.splitParts {q : Station α} {names : Names α} {m : Memory α} {strided : Bool}
    {counter : String} {dimension : Nat} {bound : Term} {body : Code} {x workers n : Nat}
    (own : Nat → Set Place) (good : Nat → Place → Cell α → Prop) (worker : x < workers)
    (number : q.worker.answer? .globalId dimension = some x)
    (size : q.worker.answer? .globalSize dimension = some workers) (kept : counter ∉ body.binders)
    (fresh : ∀ y ∈ (Walk.split strided counter dimension bound).declared, y ∉ body.binders)
    (known : ∀ names', names.Same ((Walk.split strided counter dimension bound).declared ++
      counter :: body.binders) names' → bound.number? q.worker names' = some n)
    (apart : ∀ i j p, i < n ∧ Split.owner strided workers n i = x →
      j < n ∧ Split.owner strided workers n j = x → p ∈ own i → p ∈ own j → i = j)
    (trip : ∀ i, i < n ∧ Split.owner strided workers n i = x → ∀ names' m',
      names.Same ((Walk.split strided counter dimension bound).declared ++ counter :: body.binders)
        names' → names' counter = some (.index i) →
      (∀ p, (∀ j, j < n ∧ Split.owner strided workers n j = x → j ≠ i → p ∉ own j) → m' p = m p) →
      q.Leads body names' m' fun _ m'' =>
        (∀ p ∈ own i, good i p (m'' p)) ∧ ∀ p, p ∉ own i → m'' p = m' p) :
    q.Leads ((Walk.split strided counter dimension bound).around body) names m fun _ m' =>
      (∀ i, i < n ∧ Split.owner strided workers n i = x → ∀ p ∈ own i, good i p (m' p)) ∧
        ∀ p, (∀ i, i < n ∧ Split.owner strided workers n i = x → p ∉ own i) → m' p = m p := by
  simp only [← Split.visits_iff worker] at apart trip ⊢
  have named : (Walk.split strided counter dimension bound).loop.counter = counter :=
    Walk.counter_split
  refine .split (counter :: body.binders) (Nat.zero_lt_of_lt worker) number size known
    (fun y declared bound => ?_) fun names₁ same₁ counts => ?_
  · exact (List.mem_cons.mp bound).elim (Walk.ne_of_mem_declared_split declared) (fresh y declared)
  · refine parts own good (by rw [named]; exact counts) (by rw [named]; exact kept) apart ?_
    intro i visits names' m' same
    rw [named] at same ⊢
    refine trip i visits names' m' ?_
    exact (same₁.mono fun y => List.mem_append_left _).trans (same.mono fun y => List.mem_append_right _)

end TunedKernel
