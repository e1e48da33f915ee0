/-
**How the walks count.**

* `Walk.counts_counted`, `Walk.counts_stepped`, `Walk.counts_cooperative` — what the loops of the
  walks by constant steps count through.
* `Station.Owns`, `Worker.Private` — a worker's own arrays, and memories that differ in them only.
* `Station.Leads.store` — a store into a single place, which the walks go around.
-/

import TunedKernel.Kernel.Walk
import TunedKernel.Proofs.Execution.Operands

namespace TunedKernel

variable {α : Type} {w : Worker} {names : Names α} {changed : List String}

namespace Walk

theorem counts_counted (counter : String) (n : Nat) :
    (counted counter n).loop.Counts w names changed 0 1 n where
  positive := Nat.one_pos
  first _ _ := rfl
  bound _ _ := rfl
  stride _ _ := rfl

theorem counts_stepped (counter : String) {bound : Term} {step b : Nat} (positive : 0 < step)
    (known : ∀ names', names.Same changed names' → bound.number? w names' = some b) :
    (stepped counter bound step).loop.Counts w names changed 0 step b where
  positive := positive
  first _ _ := rfl
  bound := known
  stride _ _ := rfl

theorem counts_cooperative (counter : String) {first : Term} {a bound step : Nat}
    (positive : 0 < step)
    (known : ∀ names', names.Same changed names' → first.number? w names' = some a) :
    (cooperative counter first bound step).loop.Counts w names changed a step bound where
  positive := positive
  first := known
  bound _ _ := rfl
  stride _ _ := rfl

/-- A walk without declarations is its loop. -/
theorem around_plain {walk : Walk} (before : walk.before = []) (inside : walk.inside = [])
    (body : Code) : walk.around body = Code.ofLoop walk.loop body := by
  rw [around, before, inside]
  rfl

end Walk

/-- All arrays of a worker's own are its to read and to write. -/
def Station.Owns (q : Station α) : Prop :=
  ∀ array subscripts,
    Place.own q.worker.group q.worker.lane array subscripts ∈ q.reads ∩ q.writes

/-- Memories that differ only in the arrays of a worker's own. -/
def Worker.Private (w : Worker) (m m' : Memory α) : Prop :=
  ∀ p, (∀ array subscripts, p ≠ .own w.group w.lane array subscripts) → m' p = m p

theorem Worker.Private.trans {m m' m'' : Memory α} (first : w.Private m m')
    (second : w.Private m' m'') : w.Private m m'' :=
  fun p other => (second p other).trans (first p other)

/-- A store into a single place. -/
theorem Station.Leads.store {q : Station α} {m : Memory α} {target value : Term} {p : Place}
    {x : Nat → α} (access : ∀ name, target ≠ .name name) (here : q.At names target p)
    (inside : p ∈ q.reads ∩ q.writes) (gives : q.Gives names m value x) :
    q.Leads (Code.ofSteps [.store target .assign value]) names m fun _ m' =>
      (m' p).value = x 0 ∧ ∀ p', p' ≠ p → m' p' = m p' := by
  refine put access here inside gives (done ⟨?_, fun p' ne => Function.update_of_ne ne _ _⟩)
  rw [Function.update_self]
  rfl

end TunedKernel
