/-
**Which elements of the result, and which slots of the tiles, a worker uses.**

* `split_unique`, `exists_split` — every position is that of one register of one worker of one group.
* `Fits` — the result is covered by whole tiles, and each of its elements has a place of its own.
* `launch`, `footing` — the launch of a record, and the elements that its workers store into.
* `fetching`, `computing` — how the workers use the tiles while they fill them, and while they read
  them.
-/

import TunedKernel.Proofs.Execution.Footing
import TunedKernel.Proofs.MatrixProduct.Tile

namespace TunedKernel.MatrixProduct

variable {α : Type} {p : ProductTuning} {problem : Problem} {target : MatrixOperand}
  {bindings : Bindings} {groups₀ groups₁ : Nat}

/-! ### Positions -/

/-- A position is that of one register of one worker of one group only. -/
theorem split_unique {size count t x i t' x' i' : Nat} (lane : x < size) (lane' : x' < size)
    (register : i < count) (register' : i' < count)
    (same : t * (size * count) + (x + i * size) = t' * (size * count) + (x' + i' * size)) :
    t = t' ∧ x = x' ∧ i = i' := by
  obtain ⟨tile, inner⟩ := digits_unique (block_lt lane register) (block_lt lane' register') same
  rw [Nat.add_comm x, Nat.add_comm x'] at inner
  obtain ⟨high, low⟩ := digits_unique lane lane' inner
  exact ⟨tile, low, high⟩

/-- Every position is that of a register of a worker of a group. -/
theorem exists_split {size count groups position : Nat} (positive : 0 < size)
    (below : position < groups * (size * count)) :
    ∃ t < groups, ∃ x < size, ∃ i < count, position = t * (size * count) + (x + i * size) := by
  have room : 0 < size * count := by
    refine Nat.pos_of_ne_zero fun none => ?_
    rw [none, Nat.mul_zero] at below
    exact Nat.not_lt_zero _ below
  refine ⟨position / (size * count), Nat.div_lt_of_lt_mul (Nat.mul_comm .. ▸ below),
    position % (size * count) % size, Nat.mod_lt _ positive, position % (size * count) / size,
    Nat.div_lt_of_lt_mul (Nat.mod_lt _ room), ?_⟩
  calc position = size * count * (position / (size * count)) + position % (size * count) :=
        (Nat.div_add_mod ..).symm
    _ = position / (size * count) * (size * count) + position % (size * count) := by
        rw [Nat.mul_comm]
    _ = position / (size * count) * (size * count) + (position % (size * count) % size +
        position % (size * count) / size * size) := by
        rw [Nat.mul_comm (position % (size * count) / size), Nat.mod_add_div]

/-- The result is covered by whole tiles, and its allocation is as large as what is stored. -/
structure Fits (p : ProductTuning) (target : MatrixOperand) (bindings : Bindings)
    (groups₀ groups₁ : Nat) : Prop where
  rows : target.logicalRows.size bindings = groups₀ * (p.localSize0.toNat * p.ms.toNat)
  cols : target.logicalCols.size bindings = groups₁ * (p.localSize1.toNat * p.ns.toNat)
  internalRows : target.rows.size bindings ≤ target.internalRows.size bindings
  internalCols : target.cols.size bindings ≤ target.internalCols.size bindings

/-! ### The launch -/

/-- The launch of a record over so many groups. -/
def launch (p : ProductTuning) (groups₀ groups₁ : Nat) : Shape where
  localSizes := ⟨p.localSize0.toNat, p.localSize1.toNat, 1⟩
  groups := ⟨groups₀, groups₁, 1⟩

/-- **The kernel of an accepted operation is launched** over the groups that cover the result. -/
theorem Accepted.shape? {op : Operation} {kernel : Kernel} (accepted : Accepted op problem target)
    (collected : collectArguments op 1 = .ok kernel.arguments) (sized : kernel.Sized bindings)
    (geometry : kernel.geometry = .plane p.localSize0.toNat p.localSize1.toNat
      (.cover problem.lhs.logicalRows (p.localSize0.toNat * p.ms.toNat))
      (.cover problem.rhs.logicalCols (p.localSize1.toNat * p.ns.toNat))) :
    kernel.geometry.shape? bindings = some (launch p
      (GroupCount.tiles (problem.lhs.logicalRows.size bindings) (p.localSize0.toNat * p.ms.toNat))
      (GroupCount.tiles (problem.rhs.logicalCols.size bindings) (p.localSize1.toNat * p.ns.toNat))) := by
  have rows := sized.value? collected (fun _ _ found => found) accepted.mem_of_left
    problem.lhs.logicalRows_mem_extents
  have cols := sized.value? collected (fun _ _ found => found) accepted.mem_of_right
    problem.rhs.logicalCols_mem_extents
  rw [geometry]
  simp only [Geometry.shape?, Geometry.plane, GroupCount.count?, rows, cols]
  rfl

variable {g g' : (launch p groups₀ groups₁).Group} {l l' : (launch p groups₀ groups₁).Lane}

theorem inGroup (g : (launch p groups₀ groups₁).Group) (l : (launch p groups₀ groups₁).Lane) :
    InGroup p ((launch p groups₀ groups₁).worker g l) where
  first := l.1.isLt
  second := l.2.1.isLt

/-- The last dimension has a single position. -/
theorem lane_ext (first : l.1.val = l'.1.val) (second : l.2.1.val = l'.2.1.val) : l = l' :=
  Prod.ext (Fin.ext first) (Prod.ext (Fin.ext second) (Subsingleton.elim (α := Fin 1) _ _))

theorem group_ext (first : g.1.val = g'.1.val) (second : g.2.1.val = g'.2.1.val) : g = g' :=
  Prod.ext (Fin.ext first) (Prod.ext (Fin.ext second) (Subsingleton.elim (α := Fin 1) _ _))

theorem rowOf_lt (g : (launch p groups₀ groups₁).Group) (l : (launch p groups₀ groups₁).Lane)
    {i : Nat} (register : i < p.ms.toNat) :
    rowOf p ((launch p groups₀ groups₁).worker g l) i <
      groups₀ * (p.localSize0.toNat * p.ms.toNat) := by
  calc rowOf p _ i < g.1.val * (p.localSize0.toNat * p.ms.toNat) +
        p.localSize0.toNat * p.ms.toNat :=
        Nat.add_lt_add_left (block_lt (inGroup g l).first register) _
    _ = (g.1.val + 1) * (p.localSize0.toNat * p.ms.toNat) := (Nat.succ_mul ..).symm
    _ ≤ groups₀ * (p.localSize0.toNat * p.ms.toNat) := Nat.mul_le_mul_right _ g.1.isLt

theorem colOf_lt (g : (launch p groups₀ groups₁).Group) (l : (launch p groups₀ groups₁).Lane)
    {j : Nat} (register : j < p.ns.toNat) :
    colOf p ((launch p groups₀ groups₁).worker g l) j <
      groups₁ * (p.localSize1.toNat * p.ns.toNat) := by
  calc colOf p _ j < g.2.1.val * (p.localSize1.toNat * p.ns.toNat) +
        p.localSize1.toNat * p.ns.toNat :=
        Nat.add_lt_add_left (block_lt (inGroup g l).second register) _
    _ = (g.2.1.val + 1) * (p.localSize1.toNat * p.ns.toNat) := (Nat.succ_mul ..).symm
    _ ≤ groups₁ * (p.localSize1.toNat * p.ns.toNat) := Nat.mul_le_mul_right _ g.2.1.isLt

/-- Where the element of the result is kept that a worker's register stands for. -/
def resultIndex (p : ProductTuning) (target : MatrixOperand) (bindings : Bindings) (w : Worker)
    (i j : Nat) : Nat := target.position bindings (rowOf p w i) (colOf p w j)

/-- The elements of the result belong to one register of one worker each. -/
theorem resultIndex_unique (fits : Fits p target bindings groups₀ groups₁) {i j i' j' : Nat}
    (row : i < p.ms.toNat) (col : j < p.ns.toNat) (row' : i' < p.ms.toNat)
    (col' : j' < p.ns.toNat)
    (same : resultIndex p target bindings ((launch p groups₀ groups₁).worker g l) i j =
      resultIndex p target bindings ((launch p groups₀ groups₁).worker g' l') i' j') :
    (g = g' ∧ l = l') ∧ i = i' ∧ j = j' := by
  obtain ⟨rows, cols⟩ := target.position_injective fits.internalRows fits.internalCols
    ⟨fits.rows ▸ rowOf_lt g l row, fits.cols ▸ colOf_lt g l col⟩
    ⟨fits.rows ▸ rowOf_lt g' l' row', fits.cols ▸ colOf_lt g' l' col'⟩ same
  obtain ⟨group₀, lane₀, register₀⟩ :=
    split_unique (inGroup g l).first (inGroup g' l').first row row' rows
  obtain ⟨group₁, lane₁, register₁⟩ :=
    split_unique (inGroup g l).second (inGroup g' l').second col col' cols
  exact ⟨⟨group_ext group₀ group₁, lane_ext lane₀ lane₁⟩, register₀, register₁⟩

/-- A worker stores into the elements of its block of the result; the other buffers are read. -/
def footing (p : ProductTuning) (target : MatrixOperand) (bindings : Bindings)
    (groups₀ groups₁ : Nat) : Footing (launch p groups₀ groups₁) where
  cells g l := {cell | ∃ i < p.ms.toNat, ∃ j < p.ns.toNat, cell = (target.name,
    resultIndex p target bindings ((launch p groups₀ groups₁).worker g l) i j)}
  inputs := {cell | cell.1 ≠ target.name}

theorem separate (fits : Fits p target bindings groups₀ groups₁) :
    (footing p target bindings groups₀ groups₁).Separate where
  unique := by
    rintro g l g' l' cell ⟨i, row, j, col, rfl⟩ ⟨i', row', j', col', same⟩
    exact (resultIndex_unique fits row col row' col' (Prod.mk.inj same).2).1
  fresh := by
    rintro g l cell ⟨i, row, j, col, rfl⟩ input
    exact input rfl

/-! ### The tiles -/

/-- While the tiles are filled each worker uses the slots that it fills. -/
def fetching (p : ProductTuning) (problem : Problem) (groups₀ groups₁ : Nat)
    (g : (launch p groups₀ groups₁).Group) : Use (launch p groups₀ groups₁) :=
  let share (l : (launch p groups₀ groups₁).Lane) : Set (String × List Nat) :=
    {slot | ∃ d x, slot = ("lA", [d, x]) ∧
        Fills p problem.lhs.rowsAdjacent ((launch p groups₀ groups₁).worker g l) d x ∨
      slot = ("lB", [d, x]) ∧
        Fills p (!problem.rhs.rowsAdjacent) ((launch p groups₀ groups₁).worker g l) d x}
  ⟨share, share⟩

/-- While the tiles are in use all workers read them. -/
def computing (p : ProductTuning) (groups₀ groups₁ : Nat) : Use (launch p groups₀ groups₁) where
  writes _ := ∅
  reads _ := Set.univ

theorem fetching_apart : (fetching p problem groups₀ groups₁ g).Apart where
  sub := id
  apart := by
    rintro l l' slot ⟨d, x, filled⟩ ⟨d', x', filled'⟩
    rcases filled with ⟨rfl, fills⟩ | ⟨rfl, fills⟩
    · rcases filled' with ⟨same, fills'⟩ | ⟨same, fills'⟩
      · simp only [Prod.mk.injEq, List.cons.injEq, and_true, true_and] at same
        obtain ⟨rfl, rfl⟩ := same
        obtain ⟨first, second⟩ := fills_unique (inGroup g l) (inGroup g l') fills fills'
        exact lane_ext first second
      · simp at same
    · rcases filled' with ⟨same, fills'⟩ | ⟨same, fills'⟩
      · simp at same
      · simp only [Prod.mk.injEq, List.cons.injEq, and_true, true_and] at same
        obtain ⟨rfl, rfl⟩ := same
        obtain ⟨first, second⟩ := fills_unique (inGroup g l) (inGroup g l') fills fills'
        exact lane_ext first second

theorem computing_apart : (computing p groups₀ groups₁).Apart where
  sub _ := trivial
  apart written := absurd written (Set.notMem_empty _)

end TunedKernel.MatrixProduct
