/-
**The trips of workers that split a range.**

Loop variables have 32 bits and wrap, the numbers of the workers have 64 bits. As long as the range and the
workers together fit 32 bits nothing wraps on the way, and every worker makes the trips of its own elements.

* `Thread.entry?`, `Thread.Trips` — the number with which the next move of a thread enters the block of a
  loop, and all of these numbers until the thread comes to its end; `Trips.unique` — there is one list of
  them.
* `Thread.Halts.returns` — code that leaves a counter alone makes no trips of its loop.
* `Thread.Trips.start`, `Trips.enter`, `Trips.advance`, `Trips.leave` — the ways through a loop.
* `Loop.Strides.makes` — the trips of a loop that does not wrap.
* `Term.Worth` — what a term stands for, in whatever word.
* `Walk.makes_split` — the trips of the walk over a range that is split; `Walk.split_partitions` — the
  workers make every trip of the range once, in either way to split it.
-/

import TunedKernel.Proofs.Generation.Halting

namespace TunedKernel

/-! ### Trips -/

namespace Thread

variable {w : Worker} {counter : String} {t t' : Thread Unit} {is is' : List Nat}

/-- The number with which the next move of a thread enters the block of the loop of a counter. -/
def entry? (w : Worker) (counter : String) (t : Thread Unit) : Option Nat :=
  match t.todo with
  | .check l _ :: _ =>
    if l.counter = counter ∧ l.condition.decides? w t.names = some true then
      ((Term.name counter).unsigned? w t.names).map Prod.snd
    else none
  | _ => none

/-- A thread comes to its end, and enters the block of the loop of a counter with these numbers on the way,
in this order. -/
inductive Trips (w : Worker) (counter : String) : Thread Unit → List Nat → Prop
  | ended (names : Names Unit) : Trips w counter ⟨[], names⟩ []
  | move {t t' : Thread Unit} {is : List Nat} (moves : t.wrapped? w = some t')
      (further : Trips w counter t' is) : Trips w counter t ((t.entry? w counter).toList ++ is)

namespace Trips

/-- Moves are unique, and so are the trips. -/
theorem unique (trips : t.Trips w counter is) (trips' : t.Trips w counter is') : is = is' := by
  induction trips generalizing is' with
  | ended names =>
    cases trips' with
    | ended => rfl
    | move moves _ => cases moves
  | move moves _ ih =>
    cases trips' with
    | ended => cases moves
    | move moves' further =>
      cases moves.symm.trans moves'
      rw [ih further]

theorem halts (trips : t.Trips w counter is) : t.Halts w := by
  induction trips with
  | ended names => exact ⟨names, .refl⟩
  | move moves _ ih =>
    obtain ⟨last, ends⟩ := ih
    exact ⟨last, .head moves ends⟩

/-- A move that enters no block of the loop. -/
theorem silent (moves : t.wrapped? w = some t') (none : t.entry? w counter = none)
    (further : t'.Trips w counter is) : t.Trips w counter is := by
  have trips : t.Trips w counter _ := .move moves further
  rwa [none] at trips

end Trips

/-- What a thread has still to do later does not matter to its next move. -/
theorem wrapped?_append {frame : Frame} {before : List Frame} {names : Names Unit}
    (moves : wrapped? w ⟨frame :: before, names⟩ = some t) (rest : List Frame) :
    wrapped? w ⟨frame :: before ++ rest, names⟩ = some ⟨t.todo ++ rest, t.names⟩ := by
  match frame with
  | .run .done =>
    cases moves
    rfl
  | .run (.step s code) =>
    obtain ⟨names', done, rfl⟩ := Option.map_eq_some_iff.mp moves
    exact Option.map_eq_some_iff.mpr ⟨names', done, rfl⟩
  | .run (.loop l body code) =>
    obtain ⟨n, first, rfl⟩ := Option.map_eq_some_iff.mp moves
    exact Option.map_eq_some_iff.mpr ⟨n, first, rfl⟩
  | .run (.guarded condition body code) =>
    obtain ⟨holds, decided, rfl⟩ := Option.map_eq_some_iff.mp moves
    refine Option.map_eq_some_iff.mpr ⟨holds, decided, ?_⟩
    cases holds <;> rfl
  | .check l body =>
    obtain ⟨holds, decided, rfl⟩ := Option.map_eq_some_iff.mp moves
    refine Option.map_eq_some_iff.mpr ⟨holds, decided, ?_⟩
    cases holds <;> rfl
  | .advance l body =>
    obtain ⟨n, next, rfl⟩ := Option.map_eq_some_iff.mp moves
    exact Option.map_eq_some_iff.mpr ⟨n, next, rfl⟩

theorem entry?_eq_none {frame : Frame} (other : counter ∉ frame.binders) (rest : List Frame)
    (names : Names Unit) : entry? w counter ⟨frame :: rest, names⟩ = none := by
  cases frame with
  | run code | advance l body => rfl
  | check l body =>
    refine if_neg fun both => other ?_
    rw [← both.1]
    exact List.mem_cons_self

/-- What leaves a counter alone makes no trips of its loop. By induction on the moves to the end. -/
theorem Winds.trips {last : Names Unit} (ends : t.Winds w ⟨[], last⟩) (other : counter ∉ t.binders) :
    t.names.Same t.binders last ∧ ∀ rest is, Trips w counter ⟨rest, last⟩ is →
      Trips w counter ⟨t.todo ++ rest, t.names⟩ is := by
  induction ends using Relation.ReflTransGen.head_induction_on with
  | refl => exact ⟨.refl _ _, fun _ _ => id⟩
  | @head t t₁ moves further ih =>
    obtain ⟨_ | ⟨frame, before⟩, names⟩ := t
    · cases moves
    obtain ⟨parts, todo, fewer, same⟩ := wrapped?_frame moves
    have sub : t₁.binders ⊆ Thread.binders ⟨frame :: before, names⟩ := by
      rw [Thread.binders, todo]
      exact Frame.flatMap_binders_sub parts fewer
    have here : frame.binders ⊆ Thread.binders ⟨frame :: before, names⟩ := List.subset_append_left _ _
    obtain ⟨same', later⟩ := ih fun member => other (sub member)
    refine ⟨(same.mono here).trans (same'.mono sub), fun rest is after => ?_⟩
    exact (later rest is after).silent (wrapped?_append moves rest)
      (entry?_eq_none (fun member => other (here member)) _ _)

/-- **Code that comes to its end and leaves a counter alone** makes no trips of its loop. -/
theorem Halts.returns {body : Code} {names : Names Unit} (halts : Halts w ⟨[.run body], names⟩)
    (other : counter ∉ body.binders) : ∃ last, names.Same body.binders last ∧ ∀ rest is,
      Trips w counter ⟨rest, last⟩ is → Trips w counter ⟨.run body :: rest, names⟩ is := by
  obtain ⟨last, ends⟩ := halts
  have within : Thread.binders (α := Unit) ⟨[.run body], names⟩ = body.binders := List.append_nil _
  rw [← within] at other ⊢
  exact ⟨last, ends.trips other⟩

end Thread

/-! ### Loops -/

section Loops

variable {l : Loop} {body code : Code} {w : Worker} {counter : String} {names : Names Unit}
  {rest : List Frame} {d b : Nat}

namespace Thread.Trips

variable {is : List Nat} {a : Nat} {binding : Binding Unit}

/-- The start of a loop. -/
theorem start (first : (l.first.unsigned? w names).map Binding.wrapped = some binding)
    (further : Trips w counter ⟨.check l body :: .run code :: rest, names.bind l.counter binding⟩ is) :
    Trips w counter ⟨.run (.loop l body code) :: rest, names⟩ is := by
  obtain ⟨n, value, rfl⟩ := Option.map_eq_some_iff.mp first
  exact further.silent (Option.map_eq_some_iff.mpr ⟨n, value, rfl⟩) rfl

/-- The end of a loop. -/
theorem leave (past : l.condition.decides? w names = some false)
    (further : Trips w l.counter ⟨rest, names⟩ is) : Trips w l.counter ⟨.check l body :: rest, names⟩ is := by
  refine further.silent (Option.map_eq_some_iff.mpr ⟨false, past, rfl⟩) (if_neg fun both => ?_)
  cases both.2.symm.trans past

/-- A trip into the block of a loop. -/
theorem enter (below : l.condition.decides? w names = some true) (at' : names l.counter = some (.index a))
    (further : Trips w l.counter ⟨.run body :: .advance l body :: rest, names⟩ is) :
    Trips w l.counter ⟨.check l body :: rest, names⟩ (a :: is) := by
  have entry : entry? w l.counter ⟨.check l body :: rest, names⟩ = some a := by
    refine (if_pos ⟨rfl, below⟩).trans ?_
    simp only [Term.unsigned?, at', Option.map_some]
  have entered : Trips w l.counter ⟨.check l body :: rest, names⟩ _ :=
    .move (Option.map_eq_some_iff.mpr ⟨true, below, rfl⟩) further
  rwa [entry] at entered

/-- The way from one trip to the next. -/
theorem advance (next : (l.next.unsigned? w names).map Binding.wrapped = some binding)
    (further : Trips w counter ⟨.check l body :: rest, names.bind l.counter binding⟩ is) :
    Trips w counter ⟨.advance l body :: rest, names⟩ is := by
  obtain ⟨n, value, rfl⟩ := Option.map_eq_some_iff.mp next
  exact further.silent (Option.map_eq_some_iff.mpr ⟨n, value, rfl⟩) rfl

end Thread.Trips

/-- **The trips of a loop that does not wrap**: it counts from where it is to its bound. By induction on the
trips that are left. -/
theorem Loop.Strides.makes (strides : l.Strides w names (l.counter :: body.binders) d b)
    (kept : l.counter ∉ body.binders)
    (ends : ∀ i < b, ∀ names', names.Same (l.counter :: body.binders) names' →
      names' l.counter = some (.index i) → Thread.Halts w ⟨[.run body], names'⟩)
    (after : ∀ names', Thread.Trips w l.counter ⟨rest, names'⟩ []) {k a : Nat}
    (count : ∀ t, t < k ↔ a + t * d < b) (fits : a + k * d < 2 ^ 32) {names' : Names Unit}
    (same : names.Same (l.counter :: body.binders) names') (at' : names' l.counter = some (.index a)) :
    Thread.Trips w l.counter ⟨.check l body :: rest, names'⟩ (List.range' a k d) := by
  have decided := strides.decides same at'
  induction k generalizing a names' with
  | zero =>
    have past : ¬a < b := fun below => Nat.not_lt_zero 0 ((count 0).mpr (by rwa [Nat.zero_mul]))
    rw [decide_eq_false past] at decided
    exact (after names').leave decided
  | succ k ih =>
    have below : a < b := by simpa using (count 0).mp (Nat.succ_pos k)
    rw [decide_eq_true below] at decided
    obtain ⟨last, same₁, later⟩ := (ends a below names' same at').returns kept
    have further : names.Same (l.counter :: body.binders) last :=
      same.trans (same₁.mono fun x => List.mem_cons_of_mem _)
    have next := strides.next further ((same₁ _ kept).trans at')
    have small : a + d < 2 ^ 32 := by
      rw [Nat.succ_mul] at fits
      omega
    rw [Nat.mod_eq_of_lt small] at next
    refine .enter decided at' (later _ _ (.advance next ?_))
    refine ih (fun t => ?_) ?_ (further.bind List.mem_cons_self _) (Names.bind_self ..) ?_
    · rw [Nat.add_assoc, Nat.add_comm d, ← Nat.succ_mul, ← count, Nat.succ_lt_succ_iff]
    · rwa [Nat.add_assoc, Nat.add_comm d, ← Nat.succ_mul]
    · exact strides.decides (further.bind List.mem_cons_self _) (Names.bind_self ..)

/-- A loop alone that starts at a number of the word. -/
theorem Loop.Strides.makes_ofLoop (strides : l.Strides w names (l.counter :: body.binders) d b)
    (kept : l.counter ∉ body.binders) (positive : 0 < d) {a : Nat}
    (first : ∃ word, l.first.unsigned? w names = some (word, a)) (fits : a + trips a d b * d < 2 ^ 32)
    (ends : ∀ i < b, ∀ names', names.Same (l.counter :: body.binders) names' →
      names' l.counter = some (.index i) → Thread.Halts w ⟨[.run body], names'⟩) :
    Thread.Trips w l.counter ⟨[.run (Code.ofLoop l body)], names⟩ (List.range' a (trips a d b) d) := by
  obtain ⟨word, first⟩ := first
  have wrapped : Binding.wrapped (word, a) = .index a :=
    congrArg Binding.index (Nat.mod_eq_of_lt ((Nat.le_add_right _ _).trans_lt fits))
  have done (names' : Names Unit) : Thread.Trips w l.counter ⟨[.run .done], names'⟩ [] :=
    .silent rfl rfl (.ended names')
  refine .start (by rw [first, Option.map_some, wrapped]) ?_
  exact strides.makes kept ends done (fun t => lt_trips_iff positive) fits
    ((Names.Same.refl _ _).bind List.mem_cons_self _) (Names.bind_self ..)

end Loops

/-! ### Terms in words -/

theorem Word.mod_limit {word : Word} {n : Nat} (small : n < 2 ^ 32) : n % word.limit = n :=
  Nat.mod_eq_of_lt (small.trans_le (by cases word <;> decide))

/-- A term stands for a number, in whatever word. -/
def Term.Worth (w : Worker) (names : Names Unit) (t : Term) (n : Nat) : Prop :=
  ∃ word, t.unsigned? w names = some (word, n)

namespace Term.Worth

variable {w : Worker} {names : Names Unit} {s t : Term} {m n : Nat}

theorem name {x : String} (at' : names x = some (.index n)) : Worth w names (.name x) n :=
  ⟨.bits32, by rw [unsigned?, at']⟩

theorem query {question : Query} {dimension : Nat} (answer : w.answer? question dimension = some n) :
    Worth w names (.query question dimension) n :=
  ⟨.bits64, by rw [unsigned?, answer]; rfl⟩

/-- An operator has the result that it has in every word. -/
theorem binary {op : TermOp} {k : Nat} (left : Worth w names s m) (right : Worth w names t n)
    (value : ∀ word, op.wrapped? word m n = some k) : Worth w names (.binary op s t) k := by
  obtain ⟨u, left⟩ := left
  obtain ⟨v, right⟩ := right
  refine ⟨u.join v, ?_⟩
  rw [unsigned?, left, right]
  show (op.wrapped? (u.join v) m n).bind _ = _
  rw [value]
  rfl

theorem add (left : Worth w names s m) (right : Worth w names t n) (small : m + n < 2 ^ 32) :
    Worth w names (s + t) (m + n) :=
  left.binary right fun _ => congrArg some (Word.mod_limit small)

theorem mul (left : Worth w names s m) (right : Worth w names t n) (small : m * n < 2 ^ 32) :
    Worth w names (s * t) (m * n) :=
  left.binary right fun _ => congrArg some (Word.mod_limit small)

theorem div (left : Worth w names s m) (right : Worth w names t n) (positive : 0 < n) :
    Worth w names (s / t) (m / n) :=
  left.binary right fun _ => if_neg positive.ne'

theorem min (left : Worth w names s m) (right : Worth w names t n) (small : n < 2 ^ 32) :
    Worth w names (.call₂ "min" s (.cast ValueType.index.text t)) (Min.min m n) := by
  obtain ⟨u, left⟩ := left
  obtain ⟨v, right⟩ := right
  refine ⟨u.join .bits32, ?_⟩
  rw [unsigned?, if_pos rfl, left, unsigned?, if_pos rfl, right]
  show some (_, Min.min m (n % Word.bits32.limit)) = _
  rw [Word.mod_limit small]

end Term.Worth

/-! ### Walks -/

section Walks

variable {w : Worker} {names : Names Unit} {strided : Bool} {counter : String} {dimension : Nat}
  {bound : Term} {x workers n : Nat}

/-- A declaration of an index. -/
theorem Thread.Trips.declare {name : String} {value : Term} {code : Code} {rest : List Frame} {is : List Nat}
    {m : Nat} (worth : value.Worth w names m) (small : m < 2 ^ 32)
    (further : Trips w counter ⟨.run code :: rest, names.bind name (.index m)⟩ is) :
    Trips w counter ⟨.run (.step (.declare .index name value) code) :: rest, names⟩ is := by
  obtain ⟨word, worth⟩ := worth
  have wrapped : Binding.wrapped (word, m) = .index m := congrArg Binding.index (Nat.mod_eq_of_lt small)
  refine .silent ?_ rfl further
  show ((value.unsigned? w names).map _).map _ = _
  rw [worth, Option.map_some, wrapped]
  rfl

/-- The length of a chunk is formed in 64 bits, which hold the range and the workers together. -/
theorem Walk.worth_chunk (known : bound.Worth w names n) (positive : 0 < workers)
    (fits : n + workers ≤ 2 ^ 32) (size : w.answer? .globalSize dimension = some workers) :
    Term.Worth w names (.paren (bound + .query .globalSize dimension - .number 1) /
      .query .globalSize dimension) (Split.chunk workers n) := by
  obtain ⟨u, known⟩ := known
  have wide : u.join .bits64 = .bits64 := by cases u <;> rfl
  have below : n + workers < Word.bits64.limit := fits.trans_lt (by decide)
  have sum : Term.unsigned? w names (.binary .add bound (.query .globalSize dimension)) =
      some (.bits64, n + workers) := by
    simp [Term.unsigned?, known, size, wide, TermOp.wrapped?, Nat.mod_eq_of_lt below]
  have less : (n + workers + Word.bits64.limit - 1) % Word.bits64.limit = n + workers - 1 := by
    rw [Nat.add_comm, Nat.add_sub_assoc (by omega), Nat.add_mod_left]
    exact Nat.mod_eq_of_lt (by omega)
  have length : Term.Worth w names (.paren (bound + .query .globalSize dimension - .number 1))
      (n + workers - 1) := by
    refine ⟨.bits64, ?_⟩
    show Term.unsigned? w names (.binary .sub (.binary .add bound _) (.number 1)) = _
    rw [Term.unsigned?, sum]
    show some (Word.bits64, (n + workers + Word.bits64.limit - 1) % Word.bits64.limit) = _
    rw [less]
  exact length.div (.query size) positive

/-- **After the declarations of a walk over a range that is split**, its loop counts in words through the part
of the worker. -/
theorem Walk.exists_moves_split (changed : List String) (worker : x < workers) (fits : n + workers ≤ 2 ^ 32)
    (number : w.answer? .globalId dimension = some x) (size : w.answer? .globalSize dimension = some workers)
    (known : ∀ names', names.Same ((split strided counter dimension bound).declared ++ changed) names' →
      bound.Worth w names' n)
    (fresh : ∀ y ∈ (split strided counter dimension bound).declared, y ∉ changed) :
    ∃ names', names.Same (split strided counter dimension bound).declared names' ∧
      (∀ code is, Thread.Trips w counter ⟨[.run code], names'⟩ is → Thread.Trips w counter
        ⟨[.run (Code.ofSteps (split strided counter dimension bound).before ++ code)], names⟩ is) ∧
      (split strided counter dimension bound).loop.first.Worth w names' (Split.first strided workers n x) ∧
      (split strided counter dimension bound).loop.Strides w names' changed (Split.stride strided workers)
        (Split.stop strided workers n x) := by
  have positive : 0 < workers := Nat.zero_lt_of_lt worker
  cases strided with
  | true =>
    refine ⟨names, .refl _ _, fun _ _ => id, .query number, fun _ _ => Term.Worth.query size,
      fun names' same => ?_⟩
    exact known names' (same.mono fun y => List.mem_append_right _)
  | false =>
    have declared : (split false counter dimension bound).declared =
        [counter ++ "_chunk", counter ++ "_start", counter ++ "_stop"] := rfl
    rw [declared] at known fresh ⊢
    have tail {names' : Names Unit}
        (same : names.Same [counter ++ "_chunk", counter ++ "_start", counter ++ "_stop"] names') :
        bound.Worth w names' n := known names' (same.mono fun y => List.mem_append_left _)
    -- The last chunk ends before the range and the workers together do.
    have last : (x + 1) * Split.chunk workers n ≤ n + workers - 1 :=
      (Nat.mul_le_mul_right _ worker).trans Split.mul_chunk_le
    rw [Nat.succ_mul] at last
    have start : Term.Worth w (names.bind (counter ++ "_chunk") (.index (Split.chunk workers n)))
        (.query .globalId dimension * .name (counter ++ "_chunk")) (x * Split.chunk workers n) :=
      (Term.Worth.query number).mul (.name (Names.bind_self ..)) (by omega)
    have stop : Term.Worth w ((names.bind (counter ++ "_chunk") (.index (Split.chunk workers n))).bind
        (counter ++ "_start") (.index (x * Split.chunk workers n)))
        (.call₂ "min" (.name (counter ++ "_start") + .name (counter ++ "_chunk"))
          (.cast ValueType.index.text bound))
        (min (x * Split.chunk workers n + Split.chunk workers n) n) :=
      ((Term.Worth.name (Names.bind_self ..)).add (.name ((Names.bind_of_ne chunk_ne_start).trans
        (Names.bind_self ..))) (by omega)).min (tail (names.same_start _ _)) (by omega)
    refine ⟨_, names.same_stop (.index (Split.chunk workers n)) (.index (x * Split.chunk workers n))
      (.index (min (x * Split.chunk workers n + Split.chunk workers n) n)), fun code is trips => ?_, ?_,
      fun names' same => ⟨_, rfl⟩, fun names' same => ?_⟩
    · exact .declare (worth_chunk (tail (.refl _ _)) positive fits size) (by omega)
        (.declare start (by omega) (.declare stop (by omega) trips))
    · exact .name ((Names.bind_of_ne start_ne_stop).trans (Names.bind_self ..))
    · exact Term.Worth.name ((same _ (fresh _ (by simp))).trans (Names.bind_self ..))

/-- **The trips of the walk over a range that is split** are the elements of the worker, in their order. -/
theorem Walk.makes_split {body : Code} (worker : x < workers) (fits : n + workers ≤ 2 ^ 32)
    (number : w.answer? .globalId dimension = some x) (size : w.answer? .globalSize dimension = some workers)
    (kept : counter ∉ body.binders)
    (fresh : ∀ y ∈ (split strided counter dimension bound).declared, y ∉ body.binders)
    (known : ∀ names', names.Same ((split strided counter dimension bound).declared ++
      counter :: body.binders) names' → bound.Worth w names' n)
    (ends : ∀ i < n, ∀ names', names.Same ((split strided counter dimension bound).declared ++
      counter :: body.binders) names' → names' counter = some (.index i) →
        Thread.Halts w ⟨[.run body], names'⟩) :
    Thread.Trips w counter ⟨[.run ((split strided counter dimension bound).around body)], names⟩
      (Split.visited strided workers n x) := by
  have positive : 0 < workers := Nat.zero_lt_of_lt worker
  have apart : ∀ y ∈ (split strided counter dimension bound).declared, y ∉ counter :: body.binders :=
    fun y declared member => (List.mem_cons.mp member).elim (ne_of_mem_declared_split declared)
      (fresh y declared)
  obtain ⟨names', same, before, first, strides⟩ :=
    exists_moves_split (counter :: body.binders) worker fits number size known apart
  have below : Split.stop strided workers n x ≤ n := by
    unfold Split.stop
    split
    · exact le_rfl
    · exact Nat.min_le_right _ _
  have loop : Thread.Trips w counter
      ⟨[.run (Code.ofLoop (split strided counter dimension bound).loop body)], names'⟩
      (Split.visited strided workers n x) := by
    have named : (split strided counter dimension bound).loop.counter = counter := counter_split
    have makes := @Loop.Strides.makes_ofLoop (split strided counter dimension bound).loop body w names'
    rw [named] at makes
    refine makes strides kept (Split.stride_pos positive) first
      ((Split.visited_end_lt worker).trans_le fits) fun i inside names'' further at' => ?_
    refine ends i (inside.trans_le below) names'' ?_ at'
    exact (same.mono fun y => List.mem_append_left _).trans (further.mono fun y => List.mem_append_right _)
  rw [around_split]
  exact before _ _ loop

/-- **The two ways to split a range both partition it.** Every worker comes to its end, and together they
make every trip of the range once; in chunks, a worker makes consecutive trips, and the workers one after the
other make those of the range in order. -/
theorem Walk.split_partitions {worker : Nat → Worker} {names : Nat → Names Unit} {body : Code}
    (positive : 0 < workers) (fits : n + workers ≤ 2 ^ 32)
    (number : ∀ x < workers, (worker x).answer? .globalId dimension = some x)
    (size : ∀ x < workers, (worker x).answer? .globalSize dimension = some workers)
    (kept : counter ∉ body.binders)
    (fresh : ∀ y ∈ (split strided counter dimension bound).declared, y ∉ body.binders)
    (known : ∀ x < workers, ∀ names', (names x).Same ((split strided counter dimension bound).declared ++
      counter :: body.binders) names' → bound.Worth (worker x) names' n)
    (ends : ∀ x < workers, ∀ i < n, ∀ names', (names x).Same
      ((split strided counter dimension bound).declared ++ counter :: body.binders) names' →
        names' counter = some (.index i) → Thread.Halts (worker x) ⟨[.run body], names'⟩) :
    (∀ x < workers, Thread.Halts (worker x)
      ⟨[.run ((split strided counter dimension bound).around body)], names x⟩) ∧
    (∀ x < workers, ∀ is, Thread.Trips (worker x) counter
      ⟨[.run ((split strided counter dimension bound).around body)], names x⟩ is ↔
        is = Split.visited strided workers n x) ∧
    ((List.range workers).flatMap (Split.visited strided workers n)).Perm (List.range n) ∧
    (strided = false → (∀ x, ∃ a k, Split.visited strided workers n x = List.range' a k) ∧
      (List.range workers).flatMap (Split.visited strided workers n) = List.range n) := by
  have trips (x : Nat) (below : x < workers) : Thread.Trips (worker x) counter
      ⟨[.run ((split strided counter dimension bound).around body)], names x⟩
      (Split.visited strided workers n x) :=
    makes_split below fits (number x below) (size x below) kept fresh (known x below) (ends x below)
  refine ⟨fun x below => (trips x below).halts, fun x below is => ⟨fun other => ?_, ?_⟩,
    Split.visited_perm positive, ?_⟩
  · exact other.unique (trips x below)
  · rintro rfl
    exact trips x below
  · rintro rfl
    exact ⟨fun x => ⟨_, _, rfl⟩, Split.flatMap_visited_chunked positive⟩

/-- Four workers that copy five elements. In chunks, the last one has nothing to do. -/
theorem Walk.split_partitions_five :
    let worker (x : Nat) : Worker := ⟨⟨2, 1, 1⟩, ⟨2, 1, 1⟩, ⟨x / 2, 0, 0⟩, ⟨x % 2, 0, 0⟩⟩
    let names : Names Unit := Names.bind (fun _ => none) "n" (.index 5)
    let copy := Code.ofSteps
      [.store (.index (.name "y") (.name "i")) .assign (.index (.name "x") (.name "i"))]
    let makes (strided : Bool) (x : Nat) (is : List Nat) : Prop := Thread.Trips (worker x) "i"
      ⟨[.run ((Walk.split strided "i" 0 (.name "n")).around copy)], names⟩ is
    (makes true 0 [0, 4] ∧ makes true 1 [1] ∧ makes true 2 [2] ∧ makes true 3 [3]) ∧
      makes false 0 [0, 1] ∧ makes false 1 [2, 3] ∧ makes false 2 [4] ∧ makes false 3 [] := by
  intro worker names copy makes
  have known (strided : Bool) (names' : Names Unit)
      (same : names.Same ((Walk.split strided "i" 0 (.name "n")).declared ++ "i" :: copy.binders) names') :
      names' "n" = some (.index 5) :=
    (same "n" (by cases strided <;> decide)).trans (Names.bind_self ..)
  have all (strided : Bool) :=
    (@Walk.split_partitions strided "i" 0 (.name "n") 4 5 worker (fun _ => names) copy (by decide) (by decide)
      (by decide) (by decide) (by decide) (by cases strided <;> decide)
      (fun _ _ names' same => .name (known strided names' same))
      (fun _ _ _ _ names' _ _ => ⟨names', .head rfl (.head rfl .refl)⟩)).2.1
  have makes_visited (strided : Bool) (x : Nat) (below : x < 4) :
      makes strided x (Split.visited strided 4 5 x) := (all strided x below _).mpr rfl
  exact ⟨⟨makes_visited true 0 (by decide), makes_visited true 1 (by decide),
    makes_visited true 2 (by decide), makes_visited true 3 (by decide)⟩, makes_visited false 0 (by decide),
    makes_visited false 1 (by decide), makes_visited false 2 (by decide), makes_visited false 3 (by decide)⟩

end Walks

end TunedKernel
