/-
**Names that are kept apart.**

The names of operands and sizes are the user's, and those that the code of a kernel binds are its own.

* `Kernel.Hygienic` — the code of a kernel binds the name of no argument.
* `Kernel.Hygienic.keeps` — in such a kernel, the name of an argument stands for the argument all the time.
* `generateWith_hygienic` — which operations are given hygienic kernels. The generators compare the name of
  the scratch buffer only: `captured_accepted` is an operation whose size is bound again by its kernel.
-/

import TunedKernel.Proofs.Execution.Machine
import TunedKernel.Proofs.Execution.Worker
import TunedKernel.Proofs.Generation.LocalNames
import TunedKernel.Proofs.Reduction.Correctness

namespace TunedKernel

variable {α : Type}

/-! ### What threads bind -/

/-- The names that a part of what a thread has still to do may bind. -/
def Frame.binders : Frame → List String
  | run code => code.binders
  | check l body | advance l body => l.counter :: body.binders

/-- The names that a thread may still bind. -/
def Thread.binders (t : Thread α) : List String := t.todo.flatMap Frame.binders

theorem Frame.flatMap_binders_sub (before : List Frame) {frame : Frame} {rest : List Frame}
    (sub : ∀ next ∈ before, next.binders ⊆ frame.binders) :
    (before ++ rest).flatMap binders ⊆ (frame :: rest).flatMap binders := by
  rw [List.flatMap_append, List.flatMap_cons]
  intro x member
  rcases List.mem_append.mp member with first | later
  · obtain ⟨next, inside, named⟩ := List.mem_flatMap.mp first
    exact List.mem_append_left _ (sub next inside named)
  · exact List.mem_append_right _ later

/-- **A thread binds what it has still to do only**, and goes on with a part of that. -/
theorem Thread.step?_binders {w : Worker} {e : Elements α} {t t' : Thread α} {m m' : Memory α}
    (moves : t.step? w e m = some (t', m')) :
    t'.binders ⊆ t.binders ∧ t.names.Same t.binders t'.names := by
  obtain ⟨todo, names⟩ := t
  have first {frame : Frame} {rest : List Frame} {names' : Names α} (same : names.Same frame.binders names') :
      names.Same (Thread.mk (frame :: rest) names).binders names' :=
    same.mono fun x member => List.mem_append_left _ member
  have bind {l : Loop} (body : Code) (n : Nat) :
      names.Same (Frame.check l body).binders (names.bind l.counter (.index n)) :=
    (Names.Same.refl _ names).bind List.mem_cons_self _
  match todo with
  | [] => cases moves
  | .run .done :: rest =>
    cases moves
    exact ⟨Frame.flatMap_binders_sub [] nofun, .refl _ names⟩
  | .run (.step s code) :: rest =>
    obtain ⟨found, done, result⟩ := Option.bind_eq_some_iff.mp moves
    cases result
    refine ⟨Frame.flatMap_binders_sub [.run code] ?_, first ?_⟩
    · rintro next member
      obtain rfl := List.mem_singleton.mp member
      exact List.subset_append_right s.binder?.toList code.binders
    · exact (Step.exec?_same done).mono fun x member => List.mem_append_left _ member
  | .run (.loop l body code) :: rest =>
    obtain ⟨n, number, result⟩ := Option.bind_eq_some_iff.mp moves
    cases result
    refine ⟨Frame.flatMap_binders_sub [.check l body, .run code] ?_, first ?_⟩
    · simp [Frame.binders, Code.binders]
    · exact (bind body n).mono fun x member =>
        List.cons_subset_cons l.counter (List.subset_append_left body.binders code.binders) member
  | .run (.guarded condition body code) :: rest =>
    obtain ⟨holds, decided, result⟩ := Option.bind_eq_some_iff.mp moves
    cases result
    refine ⟨?_, .refl _ names⟩
    cases holds
    · exact Frame.flatMap_binders_sub [.run code] (by simp [Frame.binders, Code.binders])
    · exact Frame.flatMap_binders_sub [.run body, .run code]
        (by simp [Frame.binders, Code.binders])
  | .check l body :: rest =>
    obtain ⟨holds, decided, result⟩ := Option.bind_eq_some_iff.mp moves
    cases result
    refine ⟨?_, .refl _ names⟩
    cases holds
    · exact Frame.flatMap_binders_sub [] nofun
    · exact Frame.flatMap_binders_sub [.run body, .advance l body]
        (by simp [Frame.binders])
  | .advance l body :: rest =>
    obtain ⟨n, number, result⟩ := Option.bind_eq_some_iff.mp moves
    cases result
    exact ⟨Frame.flatMap_binders_sub [.check l body] (by simp [Frame.binders]),
      first (bind body n)⟩

/-- A thread that left some names as they were, and does so from here on. -/
structure Thread.Keeping (bound : List String) (names : Names α) (t : Thread α) : Prop where
  binders : t.binders ⊆ bound
  same : names.Same bound t.names

variable {bound : List String} {names : Names α}

/-- The threads of a group go on to keep these names. -/
theorem GroupMove.keeping {shape : Shape} {e : Elements α} {g : shape.Group}
    {threads threads' : shape.Lane → Thread α} {m m' : Memory α}
    (move : GroupMove shape e g threads m threads' m')
    (keeping : ∀ l, (threads l).Keeping bound names) (l : shape.Lane) :
    (threads' l).Keeping bound names := by
  cases move with
  | @work _ _ _ t l' moves =>
    by_cases here : l = l'
    · subst here
      rw [Function.update_self]
      obtain ⟨fewer, same⟩ := Thread.step?_binders moves
      exact ⟨List.Subset.trans fewer (keeping l).binders,
        (keeping l).same.trans (same.mono fun x member => (keeping l).binders member)⟩
    · rw [Function.update_of_ne here]
      exact keeping l
  | pass code rest waiting =>
    refine ⟨List.Subset.trans ?_ (keeping l).binders, (keeping l).same⟩
    show (Thread.mk (.run code :: rest) (threads l).names).binders ⊆ _
    rw [Thread.binders, Thread.binders, waiting l]
    exact Frame.flatMap_binders_sub [.run code] (by simp [Frame.binders, Code.binders])

/-! ### Hygiene -/

namespace Kernel

/-- The code of a kernel binds the name of no argument. -/
def Hygienic (kernel : Kernel) : Prop := ∀ a ∈ kernel.arguments, a.name ∉ kernel.body.binders

instance (kernel : Kernel) : Decidable kernel.Hygienic :=
  inferInstanceAs (Decidable (∀ a ∈ kernel.arguments, _))

/-- The names of the arguments stand for the arguments all the time: in every launch, for every worker, over
every memory and in every order of moves. -/
def KeepsArguments (kernel : Kernel) : Prop :=
  ∀ {α : Type} (e : Elements α) (host : String → α) (bindings : Bindings) (m : Memory α) (shape : Shape)
    (state : (shape.Group → shape.Lane → Thread α) × Memory α),
    Relation.ReflTransGen (fun before after => LaunchMove shape e before.1 before.2 after.1 after.2)
      (fun _ _ => kernel.start host bindings, m) state →
    ∀ g l, ∀ a ∈ kernel.arguments, (state.1 g l).names a.name = kernel.names host bindings a.name

/-- **A hygienic kernel keeps its arguments.** -/
theorem Hygienic.keeps {kernel : Kernel} (hygienic : kernel.Hygienic) : kernel.KeepsArguments := by
  intro α e host bindings m shape state run g l a argument
  -- Every thread has bound names of the code only, and goes on to do so.
  suffices keeping : ∀ g l, (state.1 g l).Keeping kernel.body.binders (kernel.names host bindings) from
    (keeping g l).same a.name (hygienic a argument)
  induction run with
  | refl =>
    intro g l
    refine ⟨?_, .refl _ _⟩
    show [Frame.run kernel.body].flatMap Frame.binders ⊆ _
    rw [List.flatMap_singleton]
    exact List.Subset.refl _
  | @tail before after _ move ih =>
    intro g l
    obtain ⟨g', u, moves, after'⟩ := move
    rw [after']
    by_cases here : g = g'
    · subst here
      rw [Function.update_self]
      exact moves.keeping (ih g) l
    · rw [Function.update_of_ne here]
      exact ih g l

end Kernel

variable {op : Operation} {program : Program}

/-- Kernels are hygienic if no name of the operation is one of those that they bind. -/
theorem Program.Binds.hygienic_iff {bound : List String} (binds : program.Binds op bound) :
    (∀ kernel ∈ program.kernels, kernel.Hygienic) ↔ ∀ x ∈ op.names, x ∉ bound := by
  constructor
  · intro hygienic x named local'
    obtain ⟨kernel, member, binder⟩ := (binds.bound x).mp local'
    obtain ⟨a, argument, rfl⟩ := List.mem_map.mp (binds.passed kernel member x named)
    exact hygienic kernel member a argument binder
  · intro apart kernel member a argument binder
    have local' := (binds.bound a.name).mpr ⟨kernel, member, binder⟩
    rcases binds.further kernel member a.name (List.mem_map_of_mem argument) with operand | free
    · exact apart a.name operand local'
    · exact free local'

/-- **Which operations are given hygienic kernels**: those that name no operand and no size like a variable of
the kernels. The arguments of hygienic kernels are not captured. -/
theorem generateWith_hygienic {kind : Operation.Kind} {record : (Table.ofKind kind).Record}
    (generated : generateWith kind record op = .ok program) :
    ((∀ kernel ∈ program.kernels, kernel.Hygienic) ↔
      ∀ x ∈ op.names, x ∉ localNames kind record op.statements.length) ∧
    ∀ kernel ∈ program.kernels, kernel.Hygienic → kernel.KeepsArguments :=
  ⟨(generateWith_binds generated).hygienic_iff, fun _ _ hygienic => hygienic.keeps⟩

/-- The kernels of the small batch are hygienic: its names are those of its vectors, scalars and size. -/
theorem generateWith_hygienic_smallBatch : ∃ program,
    generateWith .reduction Reduction.smallRecord Reduction.smallBatch = .ok program ∧
      ∀ kernel ∈ program.kernels, kernel.Hygienic ∧ kernel.KeepsArguments := by
  obtain ⟨program, generated, -⟩ := Reduction.exists_smallProgram
  replace generated : generateWith .reduction Reduction.smallRecord Reduction.smallBatch =
    .ok program := generated
  obtain ⟨which, keeps⟩ := generateWith_hygienic generated
  have hygienic := which.mpr (by decide +kernel)
  exact ⟨program, generated, fun kernel member =>
    ⟨hygienic kernel member, keeps kernel member (hygienic kernel member)⟩⟩

/-! ### Names that are captured -/

/-- A record of vector statements for a single worker. -/
def unitVectorRecord : VectorTuning where
  simdWidth := 1
  localSize := 1
  numGroups := 1
  strided := true

/-- A copy of a vector whose size has the name of the kernel's counter. -/
def captured : Operation where
  numericType := .int
  statements := [{
    target := .vector ⟨"y", .symbol "i"⟩
    assign := .assign
    value := .vector ⟨"x", .symbol "i"⟩ }]

/-- **Names are not compared**: the copy is accepted, and its kernel binds its size. -/
theorem captured_accepted : ∃ program,
    generateWith .vectorStatements unitVectorRecord captured = .ok program ∧
      ∃ kernel ∈ program.kernels, ¬ kernel.Hygienic := by
  have accepted : ((generateWith .vectorStatements unitVectorRecord captured).toOption.any
      fun program => program.kernels.any fun kernel => !decide kernel.Hygienic) = true := by
    decide +kernel
  obtain ⟨program, generated, found⟩ := exists_ok_of_any accepted
  obtain ⟨kernel, member, captures⟩ := List.any_eq_true.mp found
  exact ⟨program, generated, kernel, member, by simpa using captures⟩

end TunedKernel
