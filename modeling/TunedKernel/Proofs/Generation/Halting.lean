/-
**What a thread that halts has gone through.**

A thread that halts comes to the end of every part of its code, so that a loop which it starts at zero
reaches its bound, and every trip into the loop comes to an end as well.

* `Thread.Halts.frame`, `Thread.Halts.append` — it comes to the end of what it has to do first.
* `Thread.Halts.declare`, `Thread.Halts.guarded`, `Thread.Halts.loop` — how it goes on from its next move.
* `Kernel.Terminates` — every worker of a launch halts.
* `Kernel.Takes` — a kernel takes the sizes of an operation: its extents are made of them
  (`Kernel.Takes.stands`), and a worker halts if its code counts (`Kernel.Takes.halts`).
* `packedBound_stands` — so is the bound of a loop over packed elements.
-/

import TunedKernel.Proofs.Execution.Pieces
import TunedKernel.Proofs.Generation.Hygiene

namespace TunedKernel

/-! ### Moves -/

section

variable {w : Worker} {names names' given : Names Unit} {rest : List Frame} {sizes : List String}

/-- A step leaves other names alone. -/
theorem Step.wrapped?_same {s : Step} (moves : s.wrapped? w names = some names') :
    names.Same s.binder?.toList names' := by
  cases s with
  | declare type x value =>
    cases type with
    | index =>
      obtain ⟨n, -, rfl⟩ := Option.map_eq_some_iff.mp moves
      exact (Names.Same.refl _ names).bind (by simp [binder?]) _
    | packed type width => exact names?_same (w := w) moves
  | declareLocal memory | declareArray type x dims | store target op value | barrier =>
    exact names?_same (w := w) moves

/-- A move replaces what a thread has to do first by parts of it, and binds no other name. -/
theorem Thread.wrapped?_frame {frame : Frame} {t : Thread Unit}
    (moves : Thread.wrapped? w ⟨frame :: rest, names⟩ = some t) :
    ∃ before, t.todo = before ++ rest ∧ (∀ next ∈ before, next.binders ⊆ frame.binders) ∧
      names.Same frame.binders t.names := by
  have bind (l : Loop) (body : Code) (n : Word × Nat) :
      names.Same (Frame.check l body).binders (names.bind l.counter (.wrapped n)) :=
    (Names.Same.refl _ names).bind List.mem_cons_self _
  match frame with
  | .run .done =>
    cases moves
    exact ⟨[], rfl, nofun, .refl _ _⟩
  | .run (.step s code) =>
    obtain ⟨found, done, rfl⟩ := Option.map_eq_some_iff.mp moves
    refine ⟨[.run code], rfl, ?_, (Step.wrapped?_same done).mono fun x => List.mem_append_left _⟩
    simp [Frame.binders, Code.binders]
  | .run (.loop l body code) =>
    obtain ⟨n, -, rfl⟩ := Option.map_eq_some_iff.mp moves
    refine ⟨[.check l body, .run code], rfl, ?_, (bind l body n).mono fun x member => ?_⟩
    · simp [Frame.binders, Code.binders]
    · exact List.cons_subset_cons l.counter (List.subset_append_left body.binders code.binders) member
  | .run (.guarded condition body code) =>
    obtain ⟨holds, -, rfl⟩ := Option.map_eq_some_iff.mp moves
    cases holds
    · exact ⟨[.run code], rfl, by simp [Frame.binders, Code.binders], .refl _ _⟩
    · exact ⟨[.run body, .run code], rfl, by simp [Frame.binders, Code.binders], .refl _ _⟩
  | .check l body =>
    obtain ⟨holds, -, rfl⟩ := Option.map_eq_some_iff.mp moves
    cases holds
    · exact ⟨[], rfl, nofun, .refl _ _⟩
    · exact ⟨[.run body, .advance l body], rfl, by simp [Frame.binders], .refl _ _⟩
  | .advance l body =>
    obtain ⟨n, -, rfl⟩ := Option.map_eq_some_iff.mp moves
    exact ⟨[.check l body], rfl, by simp [Frame.binders], bind l body n⟩

namespace Thread.Halts

/-- Moves are unique. -/
theorem next {t t' : Thread Unit} (halts : t.Halts w) (moves : t.wrapped? w = some t') :
    t'.Halts w := by
  obtain ⟨last, ends⟩ := halts
  rcases Relation.ReflTransGen.cases_head ends with rfl | ⟨_, moves', further⟩
  · cases moves
  · cases moves.symm.trans moves'
    exact ⟨last, further⟩

/-- A thread that halts can move as long as there is something to do. -/
theorem exists_next {frame : Frame} (halts : Thread.Halts w ⟨frame :: rest, names⟩) :
    ∃ t, Thread.wrapped? w ⟨frame :: rest, names⟩ = some t ∧ t.Halts w := by
  obtain ⟨last, ends⟩ := halts
  rcases Relation.ReflTransGen.cases_head ends with same | ⟨t, moves, further⟩
  · cases same
  · exact ⟨t, moves, last, further⟩

/-- **A thread that halts comes to the end of what it has to do first**, and has bound names of that
only. By induction on the moves to the end. -/
theorem frames {t : Thread Unit} (halts : t.Halts w) (before : List Frame)
    (todo : t.todo = before ++ rest) :
    ∃ names', t.names.Same (before.flatMap Frame.binders) names' ∧ t.Winds w ⟨rest, names'⟩ ∧
      Thread.Halts w ⟨rest, names'⟩ := by
  obtain ⟨last, ends⟩ := halts
  induction ends using Relation.ReflTransGen.head_induction_on generalizing before with
  | refl =>
    obtain ⟨rfl, rfl⟩ := List.nil_eq_append_iff.mp todo
    exact ⟨last, .refl _ _, .refl, last, .refl⟩
  | @head t t₁ moves further ih =>
    obtain ⟨here, names⟩ := t
    match before with
    | [] =>
      obtain rfl : here = rest := todo
      exact ⟨names, .refl _ _, .refl, last, .head moves further⟩
    | frame :: before =>
      obtain rfl : here = frame :: (before ++ rest) := todo
      obtain ⟨parts, todo', fewer, same⟩ := wrapped?_frame moves
      obtain ⟨names', same', winds, halts⟩ := ih (parts ++ before) (by rw [todo', List.append_assoc])
      refine ⟨names', (same.mono fun x => List.mem_append_left _).trans (same'.mono fun x bound => ?_),
        .head moves winds, halts⟩
      exact Frame.flatMap_binders_sub parts fewer bound

theorem frame {frame : Frame} (halts : Thread.Halts w ⟨frame :: rest, names⟩) :
    ∃ names', names.Same frame.binders names' ∧ Thread.Winds w ⟨frame :: rest, names⟩ ⟨rest, names'⟩ ∧
      Thread.Halts w ⟨rest, names'⟩ := by
  have all := halts.frames [frame] rfl
  rwa [List.flatMap_singleton] at all

theorem step {s : Step} {code : Code} (halts : Thread.Halts w ⟨.run (.step s code) :: rest, names⟩)
    (moves : s.wrapped? w names = some names') : Thread.Halts w ⟨.run code :: rest, names'⟩ :=
  halts.next (by
    show (s.wrapped? w names).map _ = _
    rw [moves]
    rfl)

/-- Whatever a step leaves, the thread goes on from there. -/
theorem skip {s : Step} {code : Code} (halts : Thread.Halts w ⟨.run (.step s code) :: rest, names⟩) :
    ∃ names', names.Same s.binder?.toList names' ∧ Thread.Halts w ⟨.run code :: rest, names'⟩ := by
  obtain ⟨_, moves, -⟩ := halts.exists_next
  obtain ⟨names', done, -⟩ := Option.map_eq_some_iff.mp moves
  exact ⟨names', Step.wrapped?_same done, halts.step done⟩

/-- An index that stands for zero is declared. -/
theorem declare {x : String} {value : Term} {code : Code}
    (halts : Thread.Halts w ⟨.run (.step (.declare .index x value) code) :: rest, names⟩)
    (zero : ∃ word, value.unsigned? w names = some (word, 0)) :
    Thread.Halts w ⟨.run code :: rest, names.bind x (.index 0)⟩ := by
  obtain ⟨word, zero⟩ := zero
  refine halts.step ?_
  show (value.unsigned? w names).map _ = _
  rw [zero]
  rfl

theorem guarded {condition : Term} {body code : Code}
    (halts : Thread.Halts w ⟨.run (.guarded condition body code) :: rest, names⟩)
    (holds : condition.decides? w names = some true) :
    Thread.Halts w ⟨.run body :: .run code :: rest, names⟩ :=
  halts.next (by
    show (condition.decides? w names).map _ = _
    rw [holds]
    rfl)

/-- It comes to the end of a first piece of code, and goes on with the second. -/
theorem append {first second : Code}
    (halts : Thread.Halts w ⟨.run (first ++ second) :: rest, names⟩) :
    ∃ names', names.Same first.binders names' ∧ Thread.Halts w ⟨.run second :: rest, names'⟩ := by
  induction first generalizing names with
  | done => exact ⟨names, .refl _ _, halts⟩
  | step s code ih =>
    obtain ⟨names₁, same₁, halts⟩ := halts.skip
    obtain ⟨names₂, same₂, halts⟩ := ih halts
    exact ⟨names₂, (same₁.mono fun x => List.mem_append_left _).trans
      (same₂.mono fun x => List.mem_append_right _), halts⟩
  | loop l body code _ ih =>
    obtain ⟨_, moves, further⟩ := halts.exists_next
    obtain ⟨n, -, rfl⟩ := Option.map_eq_some_iff.mp moves
    obtain ⟨names₁, same, -, further⟩ := further.frame
    obtain ⟨names₂, same', halts⟩ := ih further
    have entered := (Names.Same.refl (l.counter :: body.binders) names).bind List.mem_cons_self (.wrapped n)
    refine ⟨names₂, ((entered.trans same).mono fun x bound => ?_).trans
      (same'.mono fun x bound => List.mem_cons_of_mem _ (List.mem_append_right _ bound)), halts⟩
    exact List.cons_subset_cons l.counter (List.subset_append_left body.binders code.binders) bound
  | guarded condition body code _ ih =>
    obtain ⟨_, moves, further⟩ := halts.exists_next
    obtain ⟨holds, -, rfl⟩ := Option.map_eq_some_iff.mp moves
    cases holds with
    | false =>
      obtain ⟨names', same, halts⟩ := ih further
      exact ⟨names', same.mono fun x => List.mem_append_right _, halts⟩
    | true =>
      obtain ⟨names₁, same, -, further⟩ := further.frame
      obtain ⟨names₂, same', halts⟩ := ih further
      exact ⟨names₂, (same.mono fun x => List.mem_append_left _).trans
        (same'.mono fun x => List.mem_append_right _), halts⟩

/-! ### Loops -/

variable {l : Loop} {body code : Code} {c d b : Nat}

/-- **The counter of a loop that comes to its end has come to the bound.** -/
theorem check (halts : Thread.Halts w ⟨.check l body :: rest, names⟩)
    (strides : l.Strides w names (l.counter :: body.binders) d b) (kept : l.counter ∉ body.binders)
    (at' : names l.counter = some (.index c)) (small : c < 2 ^ 32) :
    ∃ k, b ≤ (c + k * d) % 2 ^ 32 := by
  by_contra never
  -- Otherwise every trip leads to a further one.
  refine Thread.not_halts_of_cycle (fun t => t.Halts w ∧ ∃ names' c',
    t = ⟨.check l body :: rest, names'⟩ ∧ names.Same (l.counter :: body.binders) names' ∧
      names' l.counter = some (.index c') ∧ c' < 2 ^ 32 ∧ ¬ ∃ k, b ≤ (c' + k * d) % 2 ^ 32) ?_
    ⟨halts, names, c, rfl, .refl _ _, at', small, never⟩ halts
  rintro _ ⟨halts, names', c', rfl, same, here, small, never⟩
  have below : c' < b := by
    refine Nat.lt_of_not_le fun comes => never ⟨0, ?_⟩
    rwa [Nat.zero_mul, Nat.add_zero, Nat.mod_eq_of_lt small]
  have enters : Thread.wrapped? w ⟨.check l body :: rest, names'⟩ =
      some ⟨.run body :: .advance l body :: rest, names'⟩ := by
    show (l.condition.decides? w names').map _ = _
    rw [strides.decides same here, decide_eq_true below]
    rfl
  obtain ⟨names₁, same₁, winds, further⟩ := (halts.next enters).frame
  have same₂ : names.Same (l.counter :: body.binders) names₁ :=
    same.trans (same₁.mono fun x => List.mem_cons_of_mem _)
  obtain ⟨n, advanced, wrapped⟩ :=
    Option.map_eq_some_iff.mp (strides.next same₂ ((same₁ _ kept).trans here))
  have advances : Thread.wrapped? w ⟨.advance l body :: rest, names₁⟩ =
      some ⟨.check l body :: rest, names₁.bind l.counter (.index ((c' + d) % 2 ^ 32))⟩ := by
    show (l.next.unsigned? w names₁).map _ = _
    rw [advanced, ← wrapped]
    rfl
  refine ⟨_, _, enters, winds.trans (.single advances), further.next advances, _, (c' + d) % 2 ^ 32, rfl,
    same₂.bind List.mem_cons_self _, Names.bind_self .., Nat.mod_lt _ (by decide), ?_⟩
  rintro ⟨k, comes⟩
  refine never ⟨k + 1, ?_⟩
  rwa [Nat.mod_add_mod, Nat.add_assoc, Nat.add_comm d, ← Nat.succ_mul] at comes

/-- **A loop that is started at zero reaches its bound**, if it is made of sizes; a first trip and what
comes after the loop halt as well. -/
theorem loop {stride : Term} {changed : List String}
    (halts : Thread.Halts w ⟨.run (.loop l body code) :: rest, names⟩)
    (start : ∃ word, l.first.unsigned? w names = some (word, 0)) (step : l.step = some stride)
    (grows : stride.Stands w given sizes d) (ends : l.bound.Stands w given sizes b)
    (same : given.Same changed names) (free : ∀ x ∈ sizes, x ∉ changed)
    (sub : ∀ x ∈ l.counter :: body.binders, x ∈ changed) (kept : l.counter ∉ body.binders) :
    Reaches d b ∧
      (0 < b → ∃ later, Thread.Halts w ⟨.run body :: later, names.bind l.counter (.index 0)⟩) ∧
      ∃ names', given.Same changed names' ∧ Thread.Halts w ⟨.run code :: rest, names'⟩ := by
  obtain ⟨word, start⟩ := start
  have enters : Thread.wrapped? w ⟨.run (.loop l body code) :: rest, names⟩ =
      some ⟨.check l body :: .run code :: rest, names.bind l.counter (.index 0)⟩ := by
    show (l.first.unsigned? w names).map _ = _
    rw [start]
    rfl
  have entered := halts.next enters
  have same' : given.Same changed (names.bind l.counter (.index 0)) :=
    same.bind (sub _ List.mem_cons_self) _
  have strides : l.Strides w (names.bind l.counter (.index 0)) (l.counter :: body.binders) d b :=
    Loop.strides_of_stands step grows ends fun names₁ same₁ x member =>
      (same'.trans (same₁.mono sub)) x (free x member)
  refine ⟨.of_zero (entered.check strides kept (Names.bind_self ..) (by decide)), fun some => ?_, ?_⟩
  · have trip : Thread.wrapped? w
        ⟨.check l body :: .run code :: rest, names.bind l.counter (.index 0)⟩ =
        Option.some ⟨.run body :: .advance l body :: .run code :: rest,
          names.bind l.counter (.index 0)⟩ := by
      show (l.condition.decides? w _).map _ = _
      rw [strides.decides (.refl _ _) (Names.bind_self ..), decide_eq_true some]
      rfl
    exact ⟨_, entered.next trip⟩
  · obtain ⟨names₁, same₁, -, further⟩ := entered.frame
    exact ⟨names₁, same'.trans (same₁.mono sub), further⟩

end Thread.Halts

end

/-! ### Kernels -/

/-- A worker of a launch has positive sizes: there is a group for it, and a place in the group. -/
theorem Shape.positive (shape : Shape) (g : shape.Group) (l : shape.Lane) :
    (shape.worker g l).Positive := by
  intro dimension n answer
  match dimension, Worker.dimension_lt answer with
  | 0, _ =>
    cases answer
    exact Nat.mul_pos (Nat.zero_lt_of_lt g.1.isLt) (Nat.zero_lt_of_lt l.1.isLt)
  | 1, _ =>
    cases answer
    exact Nat.mul_pos (Nat.zero_lt_of_lt g.2.1.isLt) (Nat.zero_lt_of_lt l.2.1.isLt)
  | 2, _ =>
    cases answer
    exact Nat.mul_pos (Nat.zero_lt_of_lt g.2.2.isLt) (Nat.zero_lt_of_lt l.2.2.isLt)

namespace Kernel

variable {w : Worker} {kernel : Kernel} {bindings : Bindings}

/-- The names of the sizes that a kernel takes. -/
def sizes (kernel : Kernel) : List String :=
  (kernel.arguments.map Argument.name).filter fun x => findArgument kernel.arguments x = some ⟨x, .size⟩

theorem mem_sizes {x : String} :
    x ∈ kernel.sizes ↔ findArgument kernel.arguments x = some ⟨x, .size⟩ := by
  rw [sizes, List.mem_filter, decide_eq_true_iff]
  refine ⟨And.right, fun found => ⟨?_, found⟩⟩
  exact List.mem_map_of_mem (List.mem_of_find?_eq_some found)

/-- What the names of a kernel stand for at first, with the values left out. -/
abbrev given (kernel : Kernel) (bindings : Bindings) : Names Unit := kernel.names (fun _ => ()) bindings

/-- Every worker of a launch halts, counting in words. -/
def Terminates (kernel : Kernel) (bindings : Bindings) : Prop :=
  ∀ shape, kernel.geometry.shape? bindings = some shape → ∀ g l,
    (kernel.start (fun _ => ()) bindings).Halts (shape.worker g l)

/-- A kernel takes the operands and sizes of an operation; the sizes are bound to numbers of 32 bits, and
its code leaves them alone. -/
structure Takes (kernel : Kernel) (op : Operation) (bindings : Bindings) : Prop where
  operands : ∃ width operands, collectArguments op width = .ok operands ∧
    ∀ name a, findArgument operands name = some a → findArgument kernel.arguments name = some a
  hygienic : kernel.Hygienic
  sized : kernel.Sized bindings
  small : ∀ x n, bindings x = some n → n.toNat < 2 ^ 32

namespace Takes

variable {op : Operation} (takes : kernel.Takes op bindings)

include takes

/-- The code leaves the sizes alone. -/
theorem free : ∀ x ∈ kernel.sizes, x ∉ kernel.body.binders :=
  fun _ member => takes.hygienic _ (List.mem_of_find?_eq_some (mem_sizes.mp member))

/-- The sizes stand for indices. -/
theorem indexed : (kernel.given bindings).Indexed kernel.sizes := by
  intro x member
  have found := mem_sizes.mp member
  obtain ⟨n, bound⟩ := Option.isSome_iff_exists.mp
    (takes.sized _ (List.mem_of_find?_eq_some found) rfl)
  refine ⟨n.toNat, takes.small x n bound, ?_⟩
  rw [given, takes.sized.names_size found]
  simp only [Extent.size, Extent.value?, bound, Option.map_some, Option.getD_some]

/-- **The extents of a node are made of sizes**, and stand for their sizes. -/
theorem stands {node : Expr} (member : node ∈ op.nodes) {x : Extent} (extent : x ∈ node.extents) :
    x.term.Stands w (kernel.given bindings) kernel.sizes (x.size bindings) := by
  obtain ⟨width, operands, collected, keeps⟩ := takes.operands
  cases x with
  | fixed n => exact Term.stands_count n.toNat
  | symbol name =>
    have found := keeps _ _ ((collectArguments_find collected member).2 name extent)
    refine ⟨mem_sizes.mpr found, .bits32, ?_⟩
    rw [Extent.term, Term.unsigned?, given, takes.sized.names_size found]

/-- **A worker halts if the code of the kernel counts.** -/
theorem halts (positive : w.Positive)
    (counts : kernel.body.Counts w (kernel.given bindings) kernel.sizes []) :
    (kernel.start (fun _ => ()) bindings).Halts w := by
  obtain ⟨names', -, -, winds⟩ := counts.winds positive takes.indexed takes.free (fun _ _ => rfl)
    fun _ none => (List.not_mem_nil none).elim
  exact ⟨names', winds []⟩

/-- A kernel terminates exactly under a condition that lets its code count, and that holds if the workers
of its launch halt. -/
theorem terminates_iff {shape : Shape} (shaped : kernel.geometry.shape? bindings = some shape)
    {paced : Prop} (counts : paced → ∀ g l,
      kernel.body.Counts (shape.worker g l) (kernel.given bindings) kernel.sizes [])
    (reaches : (∀ g l, (kernel.start (fun _ => ()) bindings).Halts (shape.worker g l)) → paced) :
    kernel.Terminates bindings ↔ paced := by
  constructor
  · exact fun terminates => reaches (terminates shape shaped)
  · rintro paced shape' found g l
    cases shaped.symm.trans found
    exact takes.halts (Shape.positive shape g l) (counts paced g l)

end Takes

end Kernel

/-! ### Bounds -/

/-- **The bound of a loop over packed elements** is made of sizes as its extent is. -/
theorem packedBound_stands {w : Worker} {given : Names Unit} {sizes : List String}
    {bindings : Bindings} {kind : Operation.Kind} {x : Extent} {width : Nat} {bound : Term}
    (ok : packedBound kind x width = .ok bound) (positive : 0 < width)
    (stands : x.term.Stands w given sizes (x.size bindings)) :
    bound.Stands w given sizes (x.size bindings / width) := by
  unfold packedBound at ok
  split at ok
  · next one =>
    cases ok
    rw [one, Nat.div_one]
    exact stands
  · cases x with
    | fixed n =>
      replace ok : (if n.toNat % width = 0 then _ else _) = Except.ok bound := ok
      split at ok
      · cases ok
        exact Term.stands_count _
      · cases ok
    | symbol name =>
      cases ok
      obtain ⟨indexes, word, value⟩ := stands
      replace value : (Term.name name).unsigned? w given = _ := value
      refine ⟨⟨indexes, trivial, Or.inr (Or.inr (Or.inr ⟨Or.inl rfl, positive⟩))⟩, ?_⟩
      refine ⟨word.join (.ofConstant (2 ^ 32) width), ?_⟩
      show Term.unsigned? w given (.binary .div (.name name) (.count width)) = _
      rw [Term.unsigned?, value]
      simp [Term.unsigned?, TermOp.wrapped?, positive.ne']

end TunedKernel
