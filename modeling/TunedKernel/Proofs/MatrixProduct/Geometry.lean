/-
**The groups of a launch tile the result.**

As many groups are launched along a dimension as cover its extent. A group has a tile of the result, and in
the tile each worker has every so many rows, as many of them as its register block. So a position is that of
one register of one worker of one group.

* `GroupCount.tiles_le_iff` — the number of tiles, as what it is the least of; `GroupCount.count?_eq_none_iff` —
  it is missing only for want of a size.
* `Geometry.Fits`, `Geometry.globalSize?_eq` — the work-items along the dimensions, if words hold them.
* `slot`, `bijOn_slot` — the positions of groups, workers and registers.
* `Element`, `body_elements` — the elements of the result that a worker stores, in their order.
* `TiledBy`, `generate_tiles` — the workers of all groups store every element of the result once.
* `launch_tiles` — all of it.
-/

import Mathlib.Data.Set.Function
import Mathlib.Data.Set.Prod
import Mathlib.Order.Bounds.Basic
import TunedKernel.Proofs.MatrixProduct.Traces

namespace TunedKernel

variable {bindings : Bindings}

/-! ### The number of groups -/

theorem Extent.value?_eq_none_iff {x : Extent} :
    x.value? bindings = none ↔ ∃ name, x = .symbol name ∧ bindings name = none := by
  cases x <;> simp [Extent.value?]

namespace GroupCount

variable {n tile k : Nat}

/-- **So many tiles suffice** exactly if they are as many as are counted. -/
theorem tiles_le_iff (positive : 0 < tile) : tiles n tile ≤ k ↔ n ≤ k * tile := by
  show (n + max tile 1 - 1) / max tile 1 ≤ k ↔ n ≤ k * tile
  rw [Nat.max_eq_left positive, Nat.add_sub_assoc positive, Nat.div_le_iff_le_mul_add_pred positive,
    Nat.mul_comm, Nat.add_le_add_iff_right]

theorem isLeast_tiles (positive : 0 < tile) : IsLeast {k | n ≤ k * tile} (tiles n tile) :=
  ⟨(tiles_le_iff positive).mp le_rfl, fun _ covers => (tiles_le_iff positive).mpr covers⟩

/-- A number of groups is missing only for want of a size. -/
theorem count?_eq_none_iff {g : GroupCount} :
    g.count? bindings = none ↔ ∃ name tile, g = .cover (.symbol name) tile ∧ bindings name = none := by
  cases g with
  | fixed n => exact iff_of_false nofun nofun
  | cover extent tile =>
    rw [count?, Option.map_eq_none_iff, Extent.value?_eq_none_iff]
    simp

end GroupCount

/-! ### Work-items -/

namespace Geometry

variable {ε : Type} {g : Geometry}

/-- The workers of a group and the number of groups, along each dimension. -/
def along (g : Geometry) : List (Nat × GroupCount) :=
  [(g.localSizes.first, g.groups.first), (g.localSizes.second, g.groups.second),
    (g.localSizes.third, g.groups.third)]

/-- Words hold the work-items along each dimension. -/
def Fits (g : Geometry) (bindings : Bindings) : Prop :=
  ∀ d ∈ g.along, ∀ n, d.2.count? bindings = some n → d.1 * n < Word.bits64.limit

theorem extent?_eq {size : Nat} {groups : GroupCount}
    (fits : ∀ n, groups.count? bindings = some n → size * n < Word.bits64.limit) :
    extent? (ε := ε) bindings size groups = .ok ((groups.count? bindings).map (size * ·)) := by
  unfold extent?
  cases counted : groups.count? bindings with
  | none => rfl
  | some n =>
    have product : Word.bits64.mul (ε := ε) size n = .ok (size * n) :=
      Word.mul_eq_ok_iff.mpr ⟨fits n counted, rfl⟩
    simp only [product]
    rfl

/-- **The work-items along the dimensions**, once all of them have a number of groups. -/
theorem globalSize?_eq (fits : g.Fits bindings) : g.globalSize? (ε := ε) bindings = .ok (do
    let first ← g.groups.first.count? bindings
    let second ← g.groups.second.count? bindings
    let third ← g.groups.third.count? bindings
    return ⟨g.localSizes.first * first, g.localSizes.second * second, g.localSizes.third * third⟩) := by
  have first := extent?_eq (ε := ε) (fits _ List.mem_cons_self)
  have second := extent?_eq (ε := ε) (fits _ (List.mem_cons_of_mem _ List.mem_cons_self))
  have third := extent?_eq (ε := ε) (fits _ (List.mem_cons_of_mem _ (List.mem_cons_of_mem _
    List.mem_cons_self)))
  unfold globalSize?
  rw [first, second, third]
  cases g.groups.first.count? bindings with
  | none => rfl
  | some n₀ =>
    cases g.groups.second.count? bindings with
    | none => rfl
    | some n₁ => cases g.groups.third.count? bindings <;> rfl

theorem globalSize?_eq_some_iff (fits : g.Fits bindings) {t : Triple Nat} :
    g.globalSize? (ε := ε) bindings = .ok (some t) ↔
      ∃ n₀ n₁ n₂, g.groups.first.count? bindings = some n₀ ∧ g.groups.second.count? bindings = some n₁ ∧
        g.groups.third.count? bindings = some n₂ ∧
          ⟨g.localSizes.first * n₀, g.localSizes.second * n₁, g.localSizes.third * n₂⟩ = t := by
  rw [globalSize?_eq fits, Except.ok.injEq]
  simp [Option.bind_eq_some_iff]

theorem globalSize?_eq_none_iff (fits : g.Fits bindings) :
    g.globalSize? (ε := ε) bindings = .ok none ↔
      ∃ d ∈ g.along, ∃ name tile, d.2 = .cover (.symbol name) tile ∧ bindings name = none := by
  simp only [← GroupCount.count?_eq_none_iff]
  rw [globalSize?_eq fits, Except.ok.injEq]
  cases first : g.groups.first.count? bindings <;> cases second : g.groups.second.count? bindings <;>
    cases third : g.groups.third.count? bindings <;> simp [along, first, second, third]

end Geometry

namespace MatrixProduct

variable {w : Worker} {op : Operation} {p : ProductTuning} {type : NumericType} {problem : Problem}
  {target c : MatrixOperand} {store : Step} {names₀ names : Names Unit}

/-! ### Positions -/

/-- The position of a group, a worker in it and a register of the worker. -/
def slot (size count : Nat) (x : Nat × Nat × Nat) : Nat := x.1 * (size * count) + (x.2.1 + x.2.2 * size)

/-- **Groups, workers and registers have all positions**, each of them one. -/
theorem bijOn_slot {size count groups : Nat} (positive : 0 < size) :
    Set.BijOn (slot size count) (Set.Iio groups ×ˢ Set.Iio size ×ˢ Set.Iio count)
      (Set.Iio (groups * (size * count))) := by
  refine ⟨?_, ?_, ?_⟩
  · rintro ⟨t, x, i⟩ ⟨group, lane, register⟩
    exact tile_lt group (block_lt lane register)
  · rintro ⟨t, x, i⟩ ⟨-, lane, register⟩ ⟨t', x', i'⟩ ⟨-, lane', register'⟩ same
    obtain ⟨rfl, rfl, rfl⟩ := split_unique lane lane' register register' same
    rfl
  · intro position below
    obtain ⟨t, group, x, lane, i, register, rfl⟩ := exists_split positive below
    exact ⟨(t, x, i), ⟨group, lane, register⟩, rfl⟩

/-! ### What a worker stores -/

/-- An element of the result as a worker stores it: for which of its registers, at which row and column, and
where. -/
structure Element where
  m : Nat
  n : Nat
  row : Nat
  col : Nat
  place : Place
deriving DecidableEq

/-- What a store does, as the names of the worker tell it. -/
def Element.of? (w : Worker) (names : Names Unit) (target _value : Term) : Option Element := do
  let m ← (v "m").number? w names
  let n ← (v "n").number? w names
  let row ← (v "row").number? w names
  let col ← (v "col").number? w names
  let there ← target.spot? w names
  return ⟨m, n, row, col, there.place 0⟩

/-- The stores into a matrix, with what they do. -/
abbrev storing (c : MatrixOperand) (w : Worker) : Observer (Option Element) :=
  .ofStores w c.name (Element.of? w)

/-- The element of a register. -/
def element (p : ProductTuning) (c : MatrixOperand) (bindings : Bindings) (w : Worker) (i j : Nat) :
    Element :=
  ⟨i, j, rowOf p w i, colOf p w j, .global c.name (c.position bindings (rowOf p w i) (colOf p w j))⟩

/-- The elements of a register block, in their order. -/
def block (p : ProductTuning) (c : MatrixOperand) (bindings : Bindings) (w : Worker) : List Element :=
  (List.range p.ms.toNat ×ˢ List.range p.ns.toNat).map fun register =>
    element p c bindings w register.1 register.2

theorem mem_block {e : Element} : e ∈ block p c bindings w ↔
    ∃ i < p.ms.toNat, ∃ j < p.ns.toNat, e = element p c bindings w i j := by
  simp [block, List.mem_product, and_assoc, eq_comm]

/-- Each of them is stored once. -/
theorem nodup_block : (block p c bindings w).Nodup := by
  refine (List.nodup_range.product List.nodup_range).map fun x y same => ?_
  obtain ⟨first, second, -⟩ := Element.mk.inj same
  exact Prod.ext first second

/-- The last part of the code stores the elements of the register block. -/
theorem finish_elements (launched : Launched p type problem target store bindings names₀)
    (named : Named p type problem store names₀ w names) :
    (storing target w).Sees (finish p store) names ((block p target bindings w).map some)
      fun _ => True := by
  obtain ⟨value, rfl⟩ := exists_store_eq launched.stores launched.stored
  have active : ∀ x ∈ ["m", "n", "row", "col"], Active p x := fun x member => Or.inl
    ((show ∀ x ∈ ["m", "n", "row", "col"], x ∈ ["k0", "k", "kk", "m", "n", "row", "col"]
      by decide) x member)
  rw [block, List.map_map, List.map_eq_flatMap]
  refine finish_sees named.ready launched.stored rfl (fun i j => [some (element p target bindings w i j)])
    fun i row j col names' same atM atN atRow atCol => ?_
  have m : (v "m").number? w names' = some i := Term.number?_name atM
  have n : (v "n").number? w names' = some j := Term.number?_name atN
  have row : (v "row").number? w names' = some (rowOf p w i) := Term.number?_name atRow
  have col : (v "col").number? w names' = some (colOf p w j) := Term.number?_name atCol
  have there := spot?_element (launched.known _ (named.after same active).settled target (by simp)) row col
  have told : Element.of? w names' (target.element (v "row") (v "col")) value =
      some (element p target bindings w i j) := by
    unfold Element.of?
    rw [m, n, row, col, there]
    rfl
  rw [Step.stored_here rfl, told]
  rfl

/-- Filling the tiles stores nothing into the result. -/
theorem share_silent (launched : Launched p type problem target store bindings names₀)
    (named : Named p type problem store names₀ w names) :
    (storing target w).Sees (onlyIf p.stageLeft (fetchLeft (.of p type) problem.lhs) ++
      onlyIf p.stageRight (fetchRight (.of p type) problem.rhs)) names [] fun _ => True := by
  show (storing target w).Sees _ names ([] ++ []) _
  refine share_sees (fun staged => ?_) (fun _ => rfl) (fun staged names' same => ?_) fun _ => rfl
  · have apart := launched.target_ne (mem_binders_prologue.mpr (Or.inl (Or.inl ⟨staged, rfl⟩)))
    exact fetchLeft_silent launched.valid staged named.ready apart.symm
  · have apart := launched.target_ne (mem_binders_prologue.mpr (Or.inl (Or.inr ⟨staged, rfl⟩)))
    have both : p.staged = true := Bool.or_eq_true_iff.mpr (Or.inr staged)
    exact fetchRight_silent launched.valid staged (named.fetched both same).ready apart.symm

/-- **The stores into the result** are those of the register block. -/
theorem body_elements (launched : Launched p type problem target store bindings names₀) :
    Thread.Shows (storing target w) ⟨[.run (body (.of p type) type problem store)], names₀⟩
      ((block p target bindings w).map some) := by
  have other : target.name ∉ ["rC", "rA", "rB"] := fun member =>
    launched.target_ne (mem_binders_prologue.mpr (Or.inr (Or.inl
      ((show ∀ x ∈ ["rC", "rA", "rB"], x ∈ ["lid0", "lid1", "gm", "gn", "rC", "rA", "rB"] by decide) _
        member)))) rfl
  have sees : (storing target w).Sees (body (.of p type) type problem store) names₀ _ fun _ => True :=
    body_sees other launched.valid launched.depth (fun _ => []) ((block p target bindings w).map some)
      (fun _ _ named _ => share_silent launched named) fun _ named => finish_elements launched named
  rw [List.flatMap_eq_nil_iff.mpr fun _ _ => rfl] at sees
  exact sees.shows

/-! ### The launch -/

section Launch

variable {groups₀ groups₁ : Nat} {kernel : Kernel}

/-- **How the groups of a launch tile the result**, and how their workers store it. -/
structure TiledBy (p : ProductTuning) (kernel : Kernel) (c : MatrixOperand) (bindings : Bindings)
    (elements : (launch p groups₀ groups₁).Group → (launch p groups₀ groups₁).Lane → List Element) :
    Prop where
  shape : kernel.geometry.shape? bindings = some (launch p groups₀ groups₁)
  /-- No fewer groups cover the rows. -/
  rows : IsLeast {k | c.logicalRows.size bindings ≤ k * (p.localSize0.toNat * p.ms.toNat)} groups₀
  /-- No fewer groups cover the columns. -/
  cols : IsLeast {k | c.logicalCols.size bindings ≤ k * (p.localSize1.toNat * p.ns.toNat)} groups₁
  /-- Groups, workers and registers have all rows of the tiles. -/
  rowSlots : Set.BijOn (slot p.localSize0.toNat p.ms.toNat)
    (Set.Iio groups₀ ×ˢ Set.Iio p.localSize0.toNat ×ˢ Set.Iio p.ms.toNat)
    (Set.Iio (groups₀ * (p.localSize0.toNat * p.ms.toNat)))
  /-- And all columns. -/
  colSlots : Set.BijOn (slot p.localSize1.toNat p.ns.toNat)
    (Set.Iio groups₁ ×ˢ Set.Iio p.localSize1.toNat ×ˢ Set.Iio p.ns.toNat)
    (Set.Iio (groups₁ * (p.localSize1.toNat * p.ns.toNat)))
  /-- The elements of a worker are all that it stores into the result until it comes to its end. -/
  shows : ∀ g l es, Thread.Shows (storing c ((launch p groups₀ groups₁).worker g l))
    (kernel.start (fun _ => ()) bindings) es ↔ es = (elements g l).map some
  /-- They are those of its registers. -/
  registers : ∀ g l e, e ∈ elements g l ↔ ∃ i < p.ms.toNat, ∃ j < p.ns.toNat,
    let row := slot p.localSize0.toNat p.ms.toNat (g.1, l.1, i)
    let col := slot p.localSize1.toNat p.ns.toNat (g.2.1, l.2.1, j)
    e = ⟨i, j, row, col, .global c.name (c.position bindings row col)⟩
  nodup : ∀ g l, (elements g l).Nodup
  /-- Every row and column belongs to one register of one worker. -/
  once : ∀ row < c.logicalRows.size bindings, ∀ col < c.logicalCols.size bindings,
    ∃! x : (launch p groups₀ groups₁).Group × (launch p groups₀ groups₁).Lane × Nat × Nat,
      ∃ place, ⟨x.2.2.1, x.2.2.2, row, col, place⟩ ∈ elements x.1 x.2.1

/-- A row and a column within the tiles belong to one register of one worker. -/
theorem exists_unique_register {row col : Nat} (positive₀ : 0 < p.localSize0.toNat)
    (positive₁ : 0 < p.localSize1.toNat) (below₀ : row < groups₀ * (p.localSize0.toNat * p.ms.toNat))
    (below₁ : col < groups₁ * (p.localSize1.toNat * p.ns.toNat)) :
    ∃! x : (launch p groups₀ groups₁).Group × (launch p groups₀ groups₁).Lane × Nat × Nat,
      ∃ place, ⟨x.2.2.1, x.2.2.2, row, col, place⟩ ∈
        block p c bindings ((launch p groups₀ groups₁).worker x.1 x.2.1) := by
  obtain ⟨t₀, group₀, x₀, lane₀, i, register₀, rfl⟩ := exists_split positive₀ below₀
  obtain ⟨t₁, group₁, x₁, lane₁, j, register₁, rfl⟩ := exists_split positive₁ below₁
  refine ⟨((⟨t₀, group₀⟩, ⟨t₁, group₁⟩, ⟨0, Nat.one_pos⟩), (⟨x₀, lane₀⟩, ⟨x₁, lane₁⟩, ⟨0, Nat.one_pos⟩), i, j),
    ⟨_, mem_block.mpr ⟨i, register₀, j, register₁, rfl⟩⟩, ?_⟩
  rintro ⟨g, l, i', j'⟩ ⟨place, member⟩
  obtain ⟨_, register₀', _, register₁', same⟩ := mem_block.mp member
  obtain ⟨rfl, rfl, rows, cols, -⟩ := Element.mk.inj same
  -- The row tells the first numbers of the group and the worker, the column the second ones.
  obtain ⟨sameGroup₀, sameLane₀, rfl⟩ :=
    split_unique lane₀ (inGroup g l).first register₀ register₀' rows
  obtain ⟨sameGroup₁, sameLane₁, rfl⟩ :=
    split_unique lane₁ (inGroup g l).second register₁ register₁' cols
  exact Prod.ext (group_ext sameGroup₀.symm sameGroup₁.symm)
    (Prod.ext (lane_ext sameLane₀.symm sameLane₁.symm) rfl)

/-- **The kernel of an accepted operation tiles the result.** It is launched over the least numbers of
groups that cover the rows and the columns; along each dimension its groups, workers and registers have all
positions of the tiles. -/
theorem generate_tiles {left right : Bool} {program : Program} (checked : p.check = .ok ())
    (generated : generate left right p op = .ok program) (member : kernel ∈ program.kernels)
    (proper : kernel.Proper) (sized : kernel.Sized bindings)
    (stores : ∀ s ∈ op.statements, s.target = .matrix c) :
    ∃ groups₀ groups₁,
      ∃ elements : (launch p groups₀ groups₁).Group → (launch p groups₀ groups₁).Lane → List Element,
        TiledBy p kernel c bindings elements := by
  obtain ⟨problem, target, store, accepted, start, shape, launched⟩ :=
    exists_launched checked generated member proper sized
  obtain rfl : target = c :=
    Expr.matrix.inj (accepted.stores.symm.trans (stores _ accepted.mem_statements))
  have rows := GroupCount.isLeast_tiles (n := target.logicalRows.size bindings)
    (Nat.mul_pos launched.valid.localSize0 launched.valid.ms)
  have cols := GroupCount.isLeast_tiles (n := target.logicalCols.size bindings)
    (Nat.mul_pos launched.valid.localSize1 launched.valid.ns)
  rw [← accepted.rows, ← accepted.cols] at shape
  exact ⟨_, _, fun g l => block p target bindings (Shape.worker _ g l), {
    shape := shape
    rows := rows
    cols := cols
    rowSlots := bijOn_slot launched.valid.localSize0
    colSlots := bijOn_slot launched.valid.localSize1
    shows := fun g l es => by
      rw [start]
      exact ⟨fun other => other.unique (body_elements launched), fun all => all ▸ body_elements launched⟩
    registers := fun g l e => mem_block
    nodup := fun g l => nodup_block
    once := fun row below col below' => exists_unique_register launched.valid.localSize0
      launched.valid.localSize1 (below.trans_le rows.1) (below'.trans_le cols.1) }⟩

end Launch

/-- **Launch geometry tiles the result.** The groups along a dimension are the least number that covers its
extent, and missing only for want of a size. In a matrix product, the groups, workers and registers have all
positions of the tiles, and the workers store each element of the result from one register of one of them.
Where words hold the work-items, there are as many along each dimension as its groups have workers, unless
the size of some dimension is missing. -/
theorem launch_tiles :
    (∀ (extent : Extent) (size count : Nat) (bindings : Bindings), 0 < size → 0 < count →
      ((GroupCount.cover extent (size * count)).count? bindings = none ↔
        ∃ name, extent = .symbol name ∧ bindings name = none) ∧
      ∀ n, extent.value? bindings = some n → ∃ groups,
        (GroupCount.cover extent (size * count)).count? bindings = some groups ∧
          IsLeast {k | n ≤ k * (size * count)} groups) ∧
    (∀ (left right : Bool) (p : ProductTuning) (op : Operation) (program : Program) (kernel : Kernel)
      (bindings : Bindings) (c : MatrixOperand), p.check = .ok () → generate left right p op = .ok program →
      kernel ∈ program.kernels → kernel.Proper → kernel.Sized bindings →
      (∀ s ∈ op.statements, s.target = .matrix c) →
      ∃ groups₀ groups₁,
        ∃ elements : (launch p groups₀ groups₁).Group → (launch p groups₀ groups₁).Lane → List Element,
          TiledBy p kernel c bindings elements) ∧
    ∀ (ε : Type) (g : Geometry) (bindings : Bindings), g.Fits bindings →
      (∀ t, g.globalSize? (ε := ε) bindings = .ok (some t) ↔ ∃ n₀ n₁ n₂,
        g.groups.first.count? bindings = some n₀ ∧ g.groups.second.count? bindings = some n₁ ∧
          g.groups.third.count? bindings = some n₂ ∧
            ⟨g.localSizes.first * n₀, g.localSizes.second * n₁, g.localSizes.third * n₂⟩ = t) ∧
      (g.globalSize? (ε := ε) bindings = .ok none ↔
        ∃ d ∈ g.along, ∃ name tile, d.2 = .cover (.symbol name) tile ∧ bindings name = none) := by
  refine ⟨fun extent size count bindings size' count' => ⟨?_, fun n value => ?_⟩, ?_, ?_⟩
  · rw [GroupCount.count?, Option.map_eq_none_iff, Extent.value?_eq_none_iff]
  · exact ⟨_, Option.map_eq_some_iff.mpr ⟨n, value, rfl⟩, GroupCount.isLeast_tiles (Nat.mul_pos size' count')⟩
  · intro left right p op program kernel bindings c checked generated member proper sized stores
    exact generate_tiles checked generated member proper sized stores
  · exact fun ε g bindings fits =>
      ⟨fun t => Geometry.globalSize?_eq_some_iff fits, Geometry.globalSize?_eq_none_iff fits⟩

/-- The small product over two workers, each with the two columns of a row: the second of them stores the
last element. Without the size of the shared dimension nothing is known of the work-items along it. -/
theorem launch_tiles_smallOperation :
    (∃ groups, (GroupCount.cover (.symbol "depth") (2 * 1)).count? smallSizes = some groups ∧
      IsLeast {k | 4 ≤ k * (2 * 1)} groups) ∧
    (∃ program kernel, generate false false smallRecord smallOperation = .ok program ∧
      program.kernels = [kernel] ∧ kernel.geometry.shape? smallSizes = some (launch smallRecord 1 1) ∧
      let g : (launch smallRecord 1 1).Group := (⟨0, by decide⟩, ⟨0, by decide⟩, ⟨0, by decide⟩)
      let l : (launch smallRecord 1 1).Lane := (⟨1, by decide⟩, ⟨0, by decide⟩, ⟨0, by decide⟩)
      ∃ es, Thread.Shows (storing (.plain "sums" (.fixed 2) (.fixed 2)) ((launch smallRecord 1 1).worker g l))
        (kernel.start (fun _ => ()) smallSizes) es ∧ some ⟨0, 1, 1, 1, .global "sums" 3⟩ ∈ es) ∧
    Geometry.globalSize? (ε := Unit) (.line 2 (.cover (.symbol "depth") 2)) smallSizes =
      .ok (some ⟨4, 1, 1⟩) ∧
    Geometry.globalSize? (ε := Unit) (.line 2 (.cover (.symbol "depth") 2)) (fun _ => none) = .ok none := by
  obtain ⟨counts, tiles, sizes⟩ := launch_tiles
  have fits (bindings : Bindings) (bound : ∀ n, bindings "depth" = some n → n.toNat = 4) :
      (Geometry.line 2 (.cover (.symbol "depth") 2)).Fits bindings := by
    intro d member n count
    simp only [Geometry.along, Geometry.line, List.mem_cons, List.not_mem_nil, or_false] at member
    rcases member with rfl | rfl | rfl
    · obtain ⟨extent, value, rfl⟩ := Option.map_eq_some_iff.mp count
      obtain ⟨word, found, rfl⟩ := Option.map_eq_some_iff.mp value
      rw [bound word found]
      decide
    · cases count
      decide
    · cases count
      decide
  refine ⟨(counts (.symbol "depth") 2 1 smallSizes (by decide) (by decide)).2 4 rfl, ?_, ?_, ?_⟩
  · obtain ⟨program, generated, inOrder⟩ := exists_smallProgram
    obtain ⟨problem, target, arguments, store, kernel, -, -, -, kernels, -⟩ := generate_eq_ok generated
    have member : kernel ∈ program.kernels := kernels ▸ List.mem_cons_self
    obtain ⟨groups₀, groups₁, elements, tiled⟩ :=
      tiles false false smallRecord smallOperation program kernel smallSizes
        (.plain "sums" (.fixed 2) (.fixed 2)) rfl generated member (inOrder kernel member).1
        (inOrder kernel member).2 (by decide)
    obtain rfl : groups₀ = 1 := tiled.rows.unique (GroupCount.isLeast_tiles (by decide))
    obtain rfl : groups₁ = 1 := tiled.cols.unique (GroupCount.isLeast_tiles (by decide))
    refine ⟨program, kernel, generated, kernels, tiled.shape, _, (tiled.shows _ _ _).mpr rfl,
      List.mem_map_of_mem ?_⟩
    exact (tiled.registers _ _ _).mpr ⟨0, by decide, 1, by decide, rfl⟩
  · refine ((sizes Unit _ _ (fits _ ?_)).1 _).mpr ⟨2, 1, 1, rfl, rfl, rfl, rfl⟩
    intro n found
    cases found
    rfl
  · exact (sizes Unit _ _ (fits _ (by simp))).2.mpr ⟨_, List.mem_cons_self, "depth", 2, rfl, rfl⟩

end MatrixProduct

end TunedKernel
