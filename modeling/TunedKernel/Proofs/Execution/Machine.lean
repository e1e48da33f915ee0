/-
**How a launched kernel runs.**

A thread carries what it has still to do and what its names stand for. The threads of a group make
their moves in any order, except that none goes past a barrier before all of them stand at it; the
groups of a launch know nothing of each other.

* `Frame`, `Thread`, `Thread.step?` — what is still to do, and the next move of a thread.
* `Shape`, `Grid`, `Shape.worker` — the sizes of a launch and its workers.
* `GroupMove`, `LaunchMove` — the moves of a group and of a launch.
* `Kernel.names`, `Kernel.start` — what the names of a kernel stand for at first, and the thread
  that every worker starts with.
* `Kernel.Ends` — every order of moves ends, with every thread at its end and the memory in a goal.
* `Kernel.EndInTurn` — the same of kernels that are launched one after the other.
-/

import Mathlib.Data.Fintype.Prod
import TunedKernel.Kernel.Program
import TunedKernel.Proofs.Execution.Confinement
import TunedKernel.Proofs.Execution.Evaluation

namespace TunedKernel

variable {α : Type}

/-! ### Threads -/

/-- What a thread has still to do. -/
inductive Frame where
  | run (code : Code)
  /-- Makes a further trip through a loop if its condition holds. -/
  | check (loop : Loop) (body : Code)
  /-- Moves the counter of a loop on, and then looks at its condition. -/
  | advance (loop : Loop) (body : Code)
deriving DecidableEq

/-- The condition on which a loop makes a further trip. -/
def Loop.condition (l : Loop) : Term := .binary .less (.name l.counter) l.bound

/-- What the counter of a loop becomes after a trip. -/
def Loop.next (l : Loop) : Term :=
  .binary .add (.name l.counter) (l.step.getD (.number 1))

/-- What a thread has still to do, and what its names stand for. -/
structure Thread (α : Type) where
  todo : List Frame
  names : Names α

/-- The next move of a thread. A thread at its end or at a barrier has none. -/
def Thread.step? (w : Worker) (e : Elements α) (t : Thread α) (m : Memory α) :
    Option (Thread α × Memory α) :=
  match t.todo with
  | [] => none
  | .run .done :: rest => some (⟨rest, t.names⟩, m)
  | .run (.step s code) :: rest => do
    let (names, m) ← s.exec? w e t.names m
    return (⟨.run code :: rest, names⟩, m)
  | .run (.loop l body code) :: rest => do
    let n ← l.first.number? w t.names
    return (⟨.check l body :: .run code :: rest, t.names.bind l.counter (.index n)⟩, m)
  | .run (.guarded condition body code) :: rest => do
    let holds ← condition.holds? w t.names
    return (⟨if holds then .run body :: .run code :: rest else .run code :: rest, t.names⟩, m)
  | .check l body :: rest => do
    let holds ← l.condition.holds? w t.names
    return (⟨if holds then .run body :: .advance l body :: rest else rest, t.names⟩, m)
  | .advance l body :: rest => do
    let n ← l.next.number? w t.names
    return (⟨.check l body :: rest, t.names.bind l.counter (.index n)⟩, m)

/-! ### Groups and launches -/

/-- The sizes of a launch. -/
structure Shape where
  /-- The workers of a group along each dimension. -/
  localSizes : Triple Nat
  /-- The groups along each dimension. -/
  groups : Triple Nat
deriving DecidableEq

/-- The positions along three dimensions of these sizes. -/
abbrev Grid (sizes : Triple Nat) : Type :=
  Fin sizes.first × Fin sizes.second × Fin sizes.third

/-- A position as three numbers. -/
def Grid.triple {sizes : Triple Nat} (i : Grid sizes) : Triple Nat := ⟨i.1, i.2.1, i.2.2⟩

theorem Grid.triple_injective {sizes : Triple Nat} :
    Function.Injective (Grid.triple : Grid sizes → Triple Nat) := by
  rintro ⟨a, b, c⟩ ⟨a', b', c'⟩ same
  obtain ⟨first, second, third⟩ := Triple.mk.inj same
  exact Prod.ext (Fin.ext first) (Prod.ext (Fin.ext second) (Fin.ext third))

namespace Shape

variable (shape : Shape)

/-- The group at a position. -/
abbrev Group : Type := Grid shape.groups

/-- The place of a worker in its group. -/
abbrev Lane : Type := Grid shape.localSizes

/-- The worker of a group at a place. -/
def worker (g : shape.Group) (l : shape.Lane) : Worker :=
  ⟨shape.localSizes, shape.groups, g.triple, l.triple⟩

end Shape

/-- A group moves: one of its threads does, or all of them go past the barrier they stand at. -/
inductive GroupMove (shape : Shape) (e : Elements α) (g : shape.Group) :
    Moves (shape.Lane → Thread α) Place (Cell α)
  | work {threads : shape.Lane → Thread α} {m k : Memory α} {t : Thread α} (l : shape.Lane)
      (next : (threads l).step? (shape.worker g l) e m = some (t, k)) :
      GroupMove shape e g threads m (Function.update threads l t) k
  | pass {threads : shape.Lane → Thread α} {m : Memory α} (code : Code) (rest : List Frame)
      (waiting : ∀ l, (threads l).todo = .run (.step .barrier code) :: rest) :
      GroupMove shape e g threads m (fun l => ⟨.run code :: rest, (threads l).names⟩) m

/-- A launch moves: one of its groups does. -/
def LaunchMove (shape : Shape) (e : Elements α) :
    Moves (shape.Group → shape.Lane → Thread α) Place (Cell α) :=
  Together fun g => GroupMove shape e g

/-! ### Kernels -/

/-- The sizes of a launch, once every symbol is bound. -/
def Geometry.shape? (g : Geometry) (bindings : Bindings) : Option Shape := do
  let first ← g.groups.first.count? bindings
  let second ← g.groups.second.count? bindings
  let third ← g.groups.third.count? bindings
  return ⟨g.localSizes, ⟨first, second, third⟩⟩

/-- The lanes of an element of a buffer, by the name of the element's type. -/
def NumericType.lanes (element : String) : Nat :=
  ([2, 4, 8, 16].find? fun width =>
    all.any fun type => type.vectorName? width == some element).getD 1

/-- The lanes of a vector type are those of its width. -/
theorem NumericType.lanes_vectorName {type : NumericType} {width : Nat} {element : String}
    (named : type.vectorName? width = some element) : lanes element = width := by
  unfold vectorName? at named
  split_ifs at named with one packed
  · cases named
    subst one
    cases type <;> decide
  · cases named
    simp only [isVectorWidth, Bool.or_eq_true, beq_iff_eq] at packed
    rcases packed with (((rfl | rfl) | rfl) | rfl) | rfl <;> cases type <;> decide

/-- What an argument stands for, given the host's values and the bound sizes. -/
def Argument.binding? (host : String → α) (bindings : Bindings) (a : Argument) :
    Option (Binding α) :=
  match a.kind with
  | .buffer element => some (.buffer (NumericType.lanes element))
  | .value _ => some (.value fun _ => host a.name)
  | .size => (bindings a.name).map fun n => .index n.toNat

namespace Kernel

variable (kernel : Kernel) (host : String → α) (bindings : Bindings)

/-- What the names of a kernel stand for at first. -/
def names : Names α := fun x =>
  (kernel.arguments.find? fun a => a.name == x).bind (Argument.binding? host bindings)

/-- The thread that every worker starts with. -/
def start : Thread α := ⟨[.run kernel.body], kernel.names host bindings⟩

/-- Launched over a memory, a kernel runs to its end in every order of moves: no thread waits for
ever or meets a step that means nothing, and the memory ends in the goal. -/
def Ends (e : Elements α) (m : Memory α) (goal : Memory α → Prop) : Prop :=
  ∃ shape, kernel.geometry.shape? bindings = some shape ∧
    Inevitable (LaunchMove shape e)
      (fun threads k => (∀ g l, (threads g l).todo = []) ∧ goal k)
      (fun _ _ => kernel.start host bindings) m

theorem Ends.weaken {kernel : Kernel} {host : String → α} {bindings : Bindings} {e : Elements α}
    {m : Memory α} {goal weaker : Memory α → Prop} (ends : kernel.Ends host bindings e m goal)
    (implies : ∀ k, goal k → weaker k) : kernel.Ends host bindings e m weaker := by
  obtain ⟨shape, shaped, inevitable⟩ := ends
  refine ⟨shape, shaped, inevitable.weaken ?_⟩
  rintro threads k ⟨ended, reached⟩
  exact ⟨ended, implies k reached⟩

/-- Launched one after the other, kernels run to their ends, and the memory ends in the goal. -/
def EndInTurn (host : String → α) (bindings : Bindings) (e : Elements α) :
    List Kernel → Memory α → (Memory α → Prop) → Prop
  | [], m, goal => goal m
  | kernel :: rest, m, goal =>
    kernel.Ends host bindings e m fun m' => EndInTurn host bindings e rest m' goal

namespace EndInTurn

variable {host : String → α} {bindings : Bindings} {e : Elements α} {kernels more : List Kernel}
  {m : Memory α} {goal weaker : Memory α → Prop}

theorem weaken (ends : EndInTurn host bindings e kernels m goal) (implies : ∀ m', goal m' → weaker m') :
    EndInTurn host bindings e kernels m weaker := by
  induction kernels generalizing m with
  | nil => exact implies m ends
  | cons kernel rest ih => exact Ends.weaken ends fun m' further => ih further

theorem append (ends : EndInTurn host bindings e kernels m fun m' =>
      EndInTurn host bindings e more m' goal) :
    EndInTurn host bindings e (kernels ++ more) m goal := by
  induction kernels generalizing m with
  | nil => exact ends
  | cons kernel rest ih => exact Ends.weaken ends fun m' further => ih further

end EndInTurn

end Kernel

end TunedKernel
