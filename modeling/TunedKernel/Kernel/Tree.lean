/-
**Folding local memory.**

The workers of a group fold the slots of a buffer into slot zero, stage by stage: at a stage of
stride `s` a worker below `s` takes in the slot `s` further on, and every stage begins with a
barrier.

* `powerAbove n` — the least power of two at or above `n`.
* `halvings n` — `n` and its halves down to one.
* `strides` — the strides for an extent, largest first. The power of two at or above the extent has
  to fit 32 bits.
* `Tree.code` — the stages for several buffers, which share the barriers.
* `Tree.result` — the slot that holds the folded value.
-/

import TunedKernel.Kernel.Code

namespace TunedKernel

/-- The least power of two at or above a number. -/
def powerAbove (n : Nat) : Nat := if n ≤ 1 then 1 else Nat.pow 2 ((n - 1).log2 + 1)

/-- A number and its halves, down to one. -/
def halvings (n : Nat) : List Nat :=
  if h : n = 0 then [] else n :: halvings (n / 2)
termination_by n
decreasing_by omega

/-- The strides that fold an extent, largest first. -/
def strides {ε : Type} (extent : Nat) : Except (Fault ε) (List Nat) :=
  let power := powerAbove extent
  if power < Word.bits32.limit then .ok (halvings (power / 2))
  else .error (.overflow .add)

namespace Tree

/-- The buffers of a tree, with the operators that fold them. -/
abbrev Buffers := List (LocalMemory × ReduceOp)

/-- Whether a worker takes part in a stage. With an extent that is no power of two, the slot further
on may lie beyond it. -/
def active (lane : Term) (extent stride : Nat) : Term :=
  let below := Term.binary .less lane (.number stride)
  if powerAbove extent = extent then below
  else .binary .both below (.binary .less (lane + .number stride) (.number extent))

/-- Takes the slot further on into the worker's own. -/
def fold (before : List Term) (lane : Term) (stride : Nat) (buffer : LocalMemory × ReduceOp) :
    Step :=
  let own := buffer.1.access (before ++ [lane])
  let other := buffer.1.access (before ++ [lane + .number stride])
  .store own .assign (buffer.2.combine own other)

/-- One stage. -/
def stage (buffers : Buffers) (before : List Term) (lane : Term) (extent stride : Nat) : Code :=
  Code.step .barrier
    (Code.ofGuard (active lane extent stride)
      (Code.ofSteps (buffers.map (fold before lane stride))))

/-- The stages of the strides given. -/
def stages (buffers : Buffers) (before : List Term) (lane : Term) (extent : Nat)
    (strides : List Nat) : Code :=
  Code.join (strides.map (stage buffers before lane extent))

/-- The code that folds `extent` slots of every buffer. The terms `before` select the row of a
buffer with more dimensions, and `lane` is the worker's slot. -/
def code {ε : Type} (buffers : Buffers) (before : List Term) (lane : Term) (extent : Nat) :
    Except (Fault ε) Code := do
  return stages buffers before lane extent (← strides extent)

/-- The slot that holds the folded value. -/
def result (buffer : LocalMemory) (before : List Term) : Term :=
  buffer.access (before ++ [.number 0])

end Tree

end TunedKernel
