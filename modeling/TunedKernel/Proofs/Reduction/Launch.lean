/-
**Which elements, and which slots of the buffers, a worker of a reduction uses.**

* `launch` — the launch of a record with so many groups; the first kernel has those of the record, and
  the second one has a single group.
* `deposits` — the first worker of each group stores into the group's elements of the scratch buffer.
* `results` — the first worker of the only group stores into the targets.
* `layout` — every worker of a group has a slot of each buffer.
-/

import TunedKernel.Proofs.Execution.Tree
import TunedKernel.Proofs.Reduction.Emission

namespace TunedKernel.Reduction

/-- The launch of a record with so many groups. -/
def launch (p : ReductionTuning) (groups : Nat) : Shape where
  localSizes := ⟨p.localSize.toNat, 1, 1⟩
  groups := ⟨groups, 1, 1⟩

variable {p : ReductionTuning} {groups : Nat} {g g' : (launch p groups).Group}
  {l l' : (launch p groups).Lane}

/-- All but the first dimension of a launch have a single position. -/
theorem group_ext (first : g.1.val = g'.1.val) : g = g' :=
  Prod.ext (Fin.ext first) (Subsingleton.elim (α := Fin 1 × Fin 1) _ _)

theorem lane_ext (first : l.1.val = l'.1.val) : l = l' :=
  Prod.ext (Fin.ext first) (Subsingleton.elim (α := Fin 1 × Fin 1) _ _)

theorem nonempty_lane (valid : p.Valid) : Nonempty (launch p groups).Lane :=
  ⟨⟨0, valid.localSize⟩, ⟨0, Nat.one_pos⟩, ⟨0, Nat.one_pos⟩⟩

/-! ### Elements -/

/-- The place of a group's value in the scratch buffer. -/
def partialIndex (k : Parts) (f : Folded) (group : Nat) : Nat := f.position * k.groups + group

/-- The first worker of each group stores into the group's elements of the scratch buffer; the other
buffers are read. -/
def deposits (k : Parts) : Footing (launch k.record k.groups) where
  cells g l := {cell | l.1.val = 0 ∧ cell.1 = scratch ∧
    ∃ f ∈ k.folded, cell.2 = partialIndex k f g.1}
  inputs := {cell | cell.1 ≠ scratch}

/-- The names of the targets. -/
def Parts.targets (k : Parts) : Set String :=
  {x | ∃ f ∈ k.folded, f.statement.target = .scalar (.device x)}

/-- The first worker of the only group stores into the targets; the other buffers are read. -/
def results (k : Parts) : Footing (launch k.record 1) where
  cells _ l := {cell | l.1.val = 0 ∧ cell.1 ∈ k.targets ∧ cell.2 = 0}
  inputs := {cell | cell.1 ∉ k.targets}

/-- Every worker of a group has a slot of each buffer. -/
def layout (p : ReductionTuning) (groups : Nat) : Tree.Layout (launch p groups) where
  row _ := []
  slot l := l.1

theorem full (p : ReductionTuning) (groups : Nat) : (layout p groups).Full p.localSize.toNat where
  below l := l.1.isLt
  unique _ _ _ slot := lane_ext slot
  full l j below := ⟨(⟨j, below⟩, l.2), rfl, rfl⟩

end TunedKernel.Reduction
