/-
**Barriers, and what happens between them.**

A worker goes past a barrier once all workers of its group have come there, so that between two barriers
they move in any order. No index is read from memory, so where a worker goes does not depend on the others:
it is followed alone, counting in words.

* `Term.Uniform`, `Code.Convergent` — barriers stand under no condition, and in loops only through which all
  workers of a group go together.
* `Thread.Crosses` — a number of moves, with the barriers that they go past. `Thread.Crosses.eq_nil`: none if
  there is none ahead.
* `Access.MayMeet`, `Thread.Uses`, `Thread.Stores` — the slots that the next move may access, and those that
  it may store into.
-/

import TunedKernel.Kernel.Walk
import TunedKernel.Proofs.Execution.Wrapping

namespace TunedKernel

/-! ### Where barriers stand -/

/-- The steps of code, wherever they stand. -/
def Code.steps : Code → List Step
  | done => []
  | step s rest => s :: rest.steps
  | loop _ body rest | guarded _ body rest => body.steps ++ rest.steps

/-- A term that has the same value for all workers of a group. It is made of the group's number, the sizes of
the launch, sizes that the kernel takes, and constants. -/
def Term.Uniform (sizes : List String) : Term → Prop
  | name x => x ∈ sizes
  | number _ | count _ => True
  | query question _ => question = .groupId ∨ question = .localSize ∨ question = .globalSize
  | binary _ lhs rhs | call₂ _ lhs rhs => lhs.Uniform sizes ∧ rhs.Uniform sizes
  | paren inner | cast _ inner => inner.Uniform sizes
  | verbatim _ | negate _ | call _ _ | index _ _ | lane _ _ => False

/-- All workers of a group go through a loop together. -/
structure Loop.Uniform (sizes : List String) (l : Loop) : Prop where
  first : l.first.Uniform sizes
  bound : l.bound.Uniform sizes
  step : ∀ stride ∈ l.step, stride.Uniform sizes

/-- No barrier stands under a condition, and a loop with a barrier is one through which all workers of a
group go together. -/
def Code.Convergent (sizes : List String) : Code → Prop
  | done => True
  | step _ rest => rest.Convergent sizes
  | loop l body rest =>
    (.barrier ∈ body.steps → l.Uniform sizes) ∧ body.Convergent sizes ∧ rest.Convergent sizes
  | guarded _ body rest => .barrier ∉ body.steps ∧ rest.Convergent sizes

namespace Code

theorem steps_append (first second : Code) : (first ++ second).steps = first.steps ++ second.steps := by
  induction first with
  | done => rfl
  | step s rest ih => exact congrArg (s :: ·) ih
  | loop l body rest _ ih | guarded l body rest _ ih =>
    exact (congrArg (body.steps ++ ·) ih).trans (List.append_assoc ..).symm

theorem steps_join (pieces : List Code) : (join pieces).steps = pieces.flatMap steps := by
  induction pieces with
  | nil => rfl
  | cons piece rest ih =>
    rw [List.flatMap_cons, ← ih]
    exact steps_append piece (join rest)

@[simp] theorem steps_ofSteps (steps : List Step) : (ofSteps steps).steps = steps := by
  induction steps with
  | nil => rfl
  | cons s rest ih => exact congrArg (s :: ·) ih

theorem steps_ofGuard (condition : Term) (body : Code) : (ofGuard condition body).steps = body.steps :=
  List.append_nil _

theorem steps_around (walk : Walk) (body : Code) :
    (walk.around body).steps = walk.before ++ (walk.inside ++ body.steps) := by
  rw [Walk.around, steps_append, steps_ofSteps]
  refine congrArg (walk.before ++ ·) ((List.append_nil _).trans ?_)
  rw [steps_append, steps_ofSteps]

namespace Convergent

variable {sizes : List String} {first second body : Code}

/-- Code without barriers. -/
theorem of_free {code : Code} (free : .barrier ∉ code.steps) : code.Convergent sizes := by
  induction code with
  | done => trivial
  | step s rest ih => exact ih fun member => free (List.mem_cons_of_mem _ member)
  | loop l body rest inner after =>
    have within : .barrier ∉ body.steps := fun member => free (List.mem_append_left _ member)
    exact ⟨fun member => absurd member within, inner within,
      after fun member => free (List.mem_append_right _ member)⟩
  | guarded condition body rest _ after =>
    exact ⟨fun member => free (List.mem_append_left _ member),
      after fun member => free (List.mem_append_right _ member)⟩

theorem ofSteps (steps : List Step) : (Code.ofSteps steps).Convergent sizes := by
  induction steps with
  | nil => trivial
  | cons s rest ih => exact ih

theorem append (one : first.Convergent sizes) (two : second.Convergent sizes) :
    (first ++ second).Convergent sizes := by
  induction first with
  | done => exact two
  | step s rest ih => exact ih one
  | loop l body rest _ ih => exact ⟨one.1, one.2.1, ih one.2.2⟩
  | guarded condition body rest _ ih => exact ⟨one.1, ih one.2⟩

theorem join {pieces : List Code} (each : ∀ piece ∈ pieces, piece.Convergent sizes) :
    (Code.join pieces).Convergent sizes := by
  induction pieces with
  | nil => trivial
  | cons piece rest ih =>
    exact append (each piece List.mem_cons_self) (ih fun p member => each p (List.mem_cons_of_mem _ member))

/-- A walk that all workers of a group make together. -/
theorem around {walk : Walk} (uniform : walk.loop.Uniform sizes) (inner : body.Convergent sizes) :
    (walk.around body).Convergent sizes :=
  append (ofSteps _) ⟨fun _ => uniform, append (ofSteps _) inner, trivial⟩

end Convergent

end Code

/-! ### Going past barriers -/

/-- What a thread has still to do behind the barrier that it stands at. -/
def Thread.barrier? (t : Thread Unit) : Option (List Frame) :=
  match t.todo with
  | .run (.step .barrier code) :: rest => some (.run code :: rest)
  | _ => none

/-- A number of moves of a thread that counts in words, with the barriers that they go past, told apart by
what is still to do behind them. -/
inductive Thread.Crosses (w : Worker) : Thread Unit → List (List Frame) → Thread Unit → Prop
  | refl (t : Thread Unit) : Crosses w t [] t
  | move {t t₁ t₂ : Thread Unit} {barriers : List (List Frame)} (free : t.barrier? = none)
      (moves : t.wrapped? w = some t₁) (further : Crosses w t₁ barriers t₂) : Crosses w t barriers t₂
  | pass {t t₂ : Thread Unit} {todo : List Frame} {barriers : List (List Frame)}
      (stands : t.barrier? = some todo) (further : Crosses w ⟨todo, t.names⟩ barriers t₂) :
      Crosses w t (todo :: barriers) t₂

/-- Nothing of a frame goes past a barrier. -/
def Frame.Free : Frame → Prop
  | run code => .barrier ∉ code.steps
  | check _ body | advance _ body => .barrier ∉ body.steps

/-- Moves bring up no barriers. -/
theorem Thread.free_move {w : Worker} {t t' : Thread Unit} (moves : t.wrapped? w = some t')
    (free : ∀ f ∈ t.todo, f.Free) : ∀ f ∈ t'.todo, f.Free := by
  obtain ⟨_ | ⟨frame, rest⟩, names⟩ := t
  · cases moves
  obtain ⟨here, later⟩ := List.forall_mem_cons.mp free
  cases frame with
  | run code =>
    cases code with
    | done =>
      cases moves
      exact later
    | step s code =>
      obtain ⟨names', -, rfl⟩ := Option.map_eq_some_iff.mp moves
      exact List.forall_mem_cons.mpr ⟨fun member => here (List.mem_cons_of_mem _ member), later⟩
    | loop l body code =>
      obtain ⟨n, -, rfl⟩ := Option.map_eq_some_iff.mp moves
      exact List.forall_mem_cons.mpr ⟨fun member => here (List.mem_append_left _ member),
        List.forall_mem_cons.mpr ⟨fun member => here (List.mem_append_right _ member), later⟩⟩
    | guarded condition body code =>
      obtain ⟨holds, -, rfl⟩ := Option.map_eq_some_iff.mp moves
      have after : ∀ f ∈ .run code :: rest, f.Free :=
        List.forall_mem_cons.mpr ⟨fun member => here (List.mem_append_right _ member), later⟩
      cases holds with
      | false => exact after
      | true =>
        exact List.forall_mem_cons.mpr ⟨fun member => here (List.mem_append_left _ member), after⟩
  | check l body =>
    obtain ⟨holds, -, rfl⟩ := Option.map_eq_some_iff.mp moves
    cases holds with
    | false => exact later
    | true => exact List.forall_mem_cons.mpr ⟨here, List.forall_mem_cons.mpr ⟨here, later⟩⟩
  | advance l body =>
    obtain ⟨n, -, rfl⟩ := Option.map_eq_some_iff.mp moves
    exact List.forall_mem_cons.mpr ⟨here, later⟩

/-- **A thread that has no barrier ahead** goes past none. -/
theorem Thread.Crosses.eq_nil {w : Worker} {t t' : Thread Unit} {barriers : List (List Frame)}
    (crosses : t.Crosses w barriers t') (free : ∀ f ∈ t.todo, f.Free) : barriers = [] := by
  induction crosses with
  | refl => rfl
  | move _ moves _ ih => exact ih (Thread.free_move moves free)
  | pass stands _ _ =>
    unfold Thread.barrier? at stands
    split at stands
    · next code rest here =>
      have ahead : Frame.Free (.run (.step .barrier code)) := free _ (here ▸ List.mem_cons_self)
      exact absurd List.mem_cons_self ahead
    · cases stands

/-! ### Slots -/

/-- The number that a term stands for, whatever its word. -/
def Term.word? (w : Worker) (names : Names Unit) (t : Term) : Option Nat :=
  (t.unsigned? w names).map Prod.snd

/-- An access that may be to a slot of an array: no number of its subscripts says that it is to another one. -/
def Access.MayMeet (w : Worker) (names : Names Unit) (a : Access) (slot : String × List Nat) : Prop :=
  a.array = slot.1 ∧ ∀ ns, a.subscripts.mapM (fun s => s.word? w names) = some ns → ns = slot.2

/-- The accesses by which a step stores. -/
def Step.stores : Step → List Access
  | store target _ _ => target.accesses
  | declare _ _ _ | declareLocal _ | declareArray _ _ _ | barrier => []

theorem Step.accesses_of_stores {s : Step} {a : Access} (member : a ∈ s.stores) : a ∈ s.accesses := by
  cases s with
  | store target op value => exact List.mem_append_left _ member
  | declare | declareLocal | declareArray | barrier => cases member

namespace Thread

/-- The accesses by which the next move of a thread stores. -/
def stores (t : Thread Unit) : List Access :=
  match t.todo with
  | .run (.step s _) :: _ => s.stores
  | _ => []

/-- The next move of a thread may access a slot. -/
def Uses (t : Thread Unit) (w : Worker) (slot : String × List Nat) : Prop :=
  ∃ a ∈ t.accesses, a.MayMeet w t.names slot

/-- The next move of a thread may store into a slot. -/
def Stores (t : Thread Unit) (w : Worker) (slot : String × List Nat) : Prop :=
  ∃ a ∈ t.stores, a.MayMeet w t.names slot

end Thread

namespace Term

variable {w : Worker} {names : Names Unit}

/-- An operator between two numbers of 32 bits. -/
theorem unsigned?_binary (op : TermOp) {lhs rhs : Term} {x y n : Nat}
    (left : lhs.unsigned? w names = some (.bits32, x)) (right : rhs.unsigned? w names = some (.bits32, y))
    (value : op.wrapped? .bits32 x y = some n) :
    (binary op lhs rhs).unsigned? w names = some (.bits32, n) := by
  rw [unsigned?, left, right]
  show (op.wrapped? .bits32 x y).bind _ = _
  rw [value]
  rfl

/-- An index is formed in words without access to memory. -/
theorem accesses_of_unsigned? :
    ∀ {t : Term} {n : Word × Nat}, t.unsigned? w names = some n → t.accesses = []
  | name identifier, _, _ => rfl
  | number _, _, _ | count _, _, _ | query _ _, _, _ => rfl
  | binary op lhs rhs, n, found => by
    obtain ⟨a, left, found⟩ := Option.bind_eq_some_iff.mp found
    obtain ⟨b, right, -⟩ := Option.bind_eq_some_iff.mp found
    show lhs.accesses ++ rhs.accesses = []
    rw [accesses_of_unsigned? left, accesses_of_unsigned? right]
    rfl
  | paren inner, n, found => accesses_of_unsigned? (t := inner) found
  | call₂ function first second, n, found => by
    rw [unsigned?] at found
    split at found
    · obtain ⟨a, left, found⟩ := Option.bind_eq_some_iff.mp found
      obtain ⟨b, right, -⟩ := Option.bind_eq_some_iff.mp found
      show first.accesses ++ second.accesses = []
      rw [accesses_of_unsigned? left, accesses_of_unsigned? right]
      rfl
    · cases found
  | cast type operand, n, found => by
    rw [unsigned?] at found
    split at found
    · obtain ⟨a, inner, -⟩ := Option.map_eq_some_iff.mp found
      exact accesses_of_unsigned? (t := operand) inner
    · cases found
  | verbatim _, _, found | negate _, _, found | call _ _, _, found | index _ _, _, found
  | lane _ _, _, found => by cases found

/-- So is a condition decided. -/
theorem accesses_of_decides? :
    ∀ {t : Term} {b : Bool}, t.decides? w names = some b → t.accesses = []
  | binary op lhs rhs, b, found => by
    have both (left : lhs.accesses = []) (right : rhs.accesses = []) :
        (binary op lhs rhs).accesses = [] := by
      show lhs.accesses ++ rhs.accesses = []
      rw [left, right]
      rfl
    cases op with
    | less | equal =>
      obtain ⟨x, left, found⟩ := Option.bind_eq_some_iff.mp found
      obtain ⟨y, right, -⟩ := Option.bind_eq_some_iff.mp found
      exact both (accesses_of_unsigned? left) (accesses_of_unsigned? right)
    | both =>
      obtain ⟨x, left, found⟩ := Option.bind_eq_some_iff.mp found
      obtain ⟨y, right, -⟩ := Option.bind_eq_some_iff.mp found
      exact both (accesses_of_decides? left) (accesses_of_decides? right)
    | add | sub | mul | div | mod => cases found
  | name _, _, found | call₂ _ _ _, _, found | paren _, _, found | cast _ _, _, found
  | number _, _, found | count _, _, found | query _ _, _, found | verbatim _, _, found
  | negate _, _, found | call _ _, _, found | index _ _, _, found | lane _ _, _, found => by
    cases found

end Term

end TunedKernel
