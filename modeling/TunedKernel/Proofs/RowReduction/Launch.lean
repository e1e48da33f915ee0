/-
**Which rows, and which slots of the buffers, a worker uses.**

* `launch`, `rowOf` — the launch of a record, and the row of a worker on a trip; every row is that of
  one place of one group on one trip (`rowOf_unique`, `exists_rowOf`).
* `footing` — the first worker of a row stores into the elements of the targets at that row.
* `layout` — dimension 0 of a group selects a row of the buffers, and dimension 1 a slot of it.
-/

import TunedKernel.Proofs.Execution.Tree
import TunedKernel.Proofs.RowReduction.Emission

namespace TunedKernel.RowReduction

/-- The launch of a record. -/
def launch (p : RowTuning) : Shape where
  localSizes := ⟨p.localSize0.toNat, p.localSize1.toNat, 1⟩
  groups := ⟨p.numGroups0.toNat, 1, 1⟩

variable {p : RowTuning} {g g' : (launch p).Group} {l l' : (launch p).Lane}

/-- All but the first dimension of the groups have a single position. -/
theorem group_ext (first : g.1.val = g'.1.val) : g = g' :=
  Prod.ext (Fin.ext first) (Subsingleton.elim (α := Fin 1 × Fin 1) _ _)

theorem group_second (g : (launch p).Group) : g.2.1.val = 0 := Nat.lt_one_iff.mp g.2.1.isLt

/-- The last dimension of a group has a single position. -/
theorem lane_ext (first : l.1.val = l'.1.val) (second : l.2.1.val = l'.2.1.val) : l = l' :=
  Prod.ext (Fin.ext first) (Prod.ext (Fin.ext second) (Subsingleton.elim (α := Fin 1) _ _))

/-! ### Rows -/

/-- The row of a worker on a trip. -/
def rowOf (g : (launch p).Group) (l : (launch p).Lane) (t : Nat) : Nat :=
  g.1 * p.localSize0.toNat + t * (p.numGroups0.toNat * p.localSize0.toNat) + l.1

theorem rowOf_eq (g : (launch p).Group) (l : (launch p).Lane) (t : Nat) :
    rowOf g l t = (t * p.numGroups0.toNat + g.1) * p.localSize0.toNat + l.1 := by
  rw [rowOf, Nat.add_mul, Nat.mul_assoc, Nat.add_comm (g.1.val * p.localSize0.toNat)]

/-- A row is that of one place of one group on one trip only. -/
theorem rowOf_unique {t t' : Nat} (same : rowOf g l t = rowOf g' l' t') :
    g = g' ∧ l.1 = l'.1 ∧ t = t' := by
  rw [rowOf_eq, rowOf_eq] at same
  obtain ⟨block, lane⟩ := digits_unique l.1.isLt l'.1.isLt same
  obtain ⟨trip, group⟩ := digits_unique g.1.isLt g'.1.isLt block
  exact ⟨group_ext group, Fin.ext lane, trip⟩

/-- Every row is that of the first worker at a place of a group on some trip. -/
theorem exists_rowOf (valid : p.Valid) (row : Nat) :
    ∃ (g : (launch p).Group) (l : (launch p).Lane) (t : Nat), l.2.1.val = 0 ∧ row = rowOf g l t := by
  have lanes := valid.localSize0
  have groups := valid.numGroups0
  refine ⟨(⟨row / p.localSize0.toNat % p.numGroups0.toNat, Nat.mod_lt _ groups⟩, ⟨0, Nat.one_pos⟩,
    ⟨0, Nat.one_pos⟩), (⟨row % p.localSize0.toNat, Nat.mod_lt _ lanes⟩, ⟨0, valid.localSize1⟩,
    ⟨0, Nat.one_pos⟩), row / p.localSize0.toNat / p.numGroups0.toNat, rfl, ?_⟩
  rw [rowOf_eq]
  dsimp only
  rw [Nat.mul_comm (_ / _) p.numGroups0.toNat, Nat.div_add_mod, Nat.mul_comm, Nat.div_add_mod]

/-! ### Elements -/

/-- The names of the targets. -/
def Parts.targets (k : Parts) : Set String :=
  {x | ∃ f ∈ k.folded, ∃ v, f.statement.target = .vector v ∧ v.name = x}

/-- The first worker of a row stores into the elements of the targets at that row; the other buffers
are read. -/
def footing (k : Parts) (rows : Nat) : Footing (launch k.record) where
  cells g l := {cell | l.2.1.val = 0 ∧ cell.1 ∈ k.targets ∧ cell.2 < rows ∧
    ∃ t, cell.2 = rowOf g l t}
  inputs := {cell | cell.1 ∉ k.targets}

theorem separate (k : Parts) (rows : Nat) : (footing k rows).Separate where
  unique := by
    rintro g l g' l' cell ⟨first, -, -, t, same⟩ ⟨first', -, -, t', same'⟩
    obtain ⟨group, lane, -⟩ := rowOf_unique (same.symm.trans same')
    exact ⟨group, lane_ext (congrArg Fin.val lane) (first.trans first'.symm)⟩
  fresh := by
    rintro g l cell ⟨-, target, -⟩ input
    exact input target

/-! ### Slots -/

/-- Dimension 0 of a group selects a row of the buffers, and dimension 1 a slot of it. -/
def layout (p : RowTuning) : Tree.Layout (launch p) where
  row l := [l.1]
  slot l := l.2.1

theorem full (p : RowTuning) : (layout p).Full p.localSize1.toNat where
  below l := l.2.1.isLt
  unique _ _ row slot := lane_ext (List.singleton_inj.mp row) slot
  full l j below := ⟨(l.1, ⟨j, below⟩, l.2.2), rfl, rfl⟩

end TunedKernel.RowReduction
