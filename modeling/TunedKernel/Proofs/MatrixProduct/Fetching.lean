/-
**How a group fills its tiles.**

For fetching, the workers of a group are numbered anew, and each of them strides over both axes of a tile
from its two numbers. Which loop walks which axis depends on how the operand is stored: the inner one walks
the axis whose elements lie side by side.

* `Fetch` — what a worker does with one store into a tile; `fetched` — all stores into the tile of an
  operand, with what they do.
* `Tile` — where the cells of a tile come from; `leftTile`, `rightTile` — the tiles of the two operands.
* `Tile.fetches` — the fetches of a worker in their order; `body_fetches` — that its code makes them.
* `Tile.sum_count_fetches` — every cell is filled once; `Tile.coalesced` — neighbours read neighbours.
* `Tile.FilledBy` — how the workers of a group fill a tile.
* `generate_fills` — all of it, for the kernel of an accepted operation.
-/

import Mathlib.Data.Fintype.BigOperators
import TunedKernel.Proofs.MatrixProduct.Traces
import TunedKernel.Proofs.Operation.Addressing

namespace TunedKernel.MatrixProduct

variable {w : Worker} {op : Operation} {p : ProductTuning} {type : NumericType} {problem : Problem}
  {target a b : MatrixOperand} {store : Step} {bindings : Bindings} {names₀ names : Names Unit}

/-! ### Stores into a tile -/

/-- What a worker does with one store into a tile: in which tile along the shared dimension, by which numbers
of its own, on which trips, and from where to where. -/
structure Fetch where
  tile : Nat
  fid0 : Nat
  fid1 : Nat
  /-- Where it stands on the axis that lies further apart in memory. -/
  further : Nat
  /-- Where it stands on the axis that lies side by side. -/
  nearer : Nat
  slot : Place
  source : Place
deriving DecidableEq

/-- What a store does, as the names of the worker tell it. -/
def Fetch.of? (w : Worker) (names : Names Unit) (slot source : Term) : Option Fetch := do
  let tile ← (v "k0").number? w names
  let fid0 ← (v "fid0").number? w names
  let fid1 ← (v "fid1").number? w names
  let further ← (v "a").number? w names
  let nearer ← (v "b").number? w names
  let there ← slot.spot? w names
  let here ← source.spot? w names
  return ⟨tile, fid0, fid1, further, nearer, there.place 0, here.place 0⟩

/-- The stores into an array, with what they do. -/
abbrev fetched (array : String) (w : Worker) : Observer (Option Fetch) := .ofStores w array (Fetch.of? w)

/-- The trips of the two loops on which a worker does something. -/
def Fetch.OnTrip (p : ProductTuning) (f : Fetch) (u u' : Nat) : Prop :=
  f.further = f.fid1 + u * p.localFetch1.toNat ∧ f.nearer = f.fid0 + u' * p.localFetch0.toNat

/-- Two workers, next to each other along the inner loop, do it on a common trip. -/
def Fetch.Abreast (p : ProductTuning) (f f' : Fetch) : Prop :=
  f'.tile = f.tile ∧ f'.fid1 = f.fid1 ∧ f'.fid0 = f.fid0 + 1 ∧
    ∃ u u', f.OnTrip p u u' ∧ f'.OnTrip p u u'

/-! ### Tiles -/

/-- A tile in local memory, and where its cells come from. -/
structure Tile where
  array : String
  /-- How far it goes across the shared dimension. -/
  extent : Nat
  buffer : String
  /-- Where the element is kept that belongs into the cell at a depth and a position across, in the tile that
  begins at a position along the shared dimension. -/
  index : Nat → Nat → Nat → Nat

/-- The tile of the left operand, for a group whose tile of the result begins at a row. -/
def leftTile (p : ProductTuning) (a : MatrixOperand) (bindings : Bindings) (row : Nat) : Tile where
  array := "lA"
  extent := p.localSize0.toNat * p.ms.toNat
  buffer := a.name
  index n k x := a.position bindings (row + x) (n + k)

/-- The tile of the right operand, for a group whose tile of the result begins at a column. -/
def rightTile (p : ProductTuning) (b : MatrixOperand) (bindings : Bindings) (col : Nat) : Tile where
  array := "lB"
  extent := p.localSize1.toNat * p.ns.toNat
  buffer := b.name
  index n k x := b.position bindings (n + k) (col + x)

namespace Tile

variable {t : Tile} {deep : Bool} {depth n k x i j : Nat}

/-- A cell of the tile. -/
def cell (t : Tile) (group : Triple Nat) (k x : Nat) : Place := .shared group t.array [k, x]

/-- Depth and position across of a cell, from where its worker stands on the two axes. -/
def spread (deep : Bool) (i j : Nat) : Nat × Nat := if deep then (i, j) else (j, i)

/-- What a worker does for a cell. -/
def fetch (t : Tile) (p : ProductTuning) (deep : Bool) (w : Worker) (n i j : Nat) : Fetch where
  tile := n
  fid0 := flat p w % p.localFetch0.toNat
  fid1 := flat p w / p.localFetch0.toNat
  further := i
  nearer := j
  slot := t.cell w.group (spread deep i j).1 (spread deep i j).2
  source := .global t.buffer (t.index n (spread deep i j).1 (spread deep i j).2)

/-- Where a worker stands on the axes of a tile, trip by trip. -/
def strides (t : Tile) (p : ProductTuning) (deep : Bool) (w : Worker) : List (Nat × Nat) :=
  visited (flat p w / p.localFetch0.toNat) p.localFetch1.toNat (spread deep p.kl.toNat t.extent).1 ×ˢ
    visited (flat p w % p.localFetch0.toNat) p.localFetch0.toNat (spread deep p.kl.toNat t.extent).2

/-- The trips of a worker: along the shared dimension, and over the axes of a tile. -/
def trips (t : Tile) (p : ProductTuning) (deep : Bool) (w : Worker) (depth : Nat) : List (Nat × Nat × Nat) :=
  visited 0 p.kl.toNat depth ×ˢ t.strides p deep w

/-- What is shown of a worker as it fills the tile that begins at a position. -/
def shown (t : Tile) (p : ProductTuning) (deep : Bool) (w : Worker) (n : Nat) : List (Option Fetch) :=
  (t.strides p deep w).map fun place => some (t.fetch p deep w n place.1 place.2)

/-- The fetches of a worker, in their order. -/
def fetches (t : Tile) (p : ProductTuning) (deep : Bool) (w : Worker) (depth : Nat) : List Fetch :=
  (t.trips p deep w depth).map fun trip => t.fetch p deep w trip.1 trip.2.1 trip.2.2

theorem mem_trips (valid : p.Valid) : (n, i, j) ∈ t.trips p deep w depth ↔ Visits 0 p.kl.toNat depth n ∧
    Visits (flat p w / p.localFetch0.toNat) p.localFetch1.toNat (spread deep p.kl.toNat t.extent).1 i ∧
      Visits (flat p w % p.localFetch0.toNat) p.localFetch0.toNat (spread deep p.kl.toNat t.extent).2 j := by
  rw [trips, strides, List.mem_product, List.mem_product, mem_visited valid.kl, mem_visited valid.fetch1,
    mem_visited valid.fetch0]

/-- They are where the worker's share of the tile is. -/
theorem mem_trips_iff (valid : p.Valid) (staged : p.staged = true) (inGroup : InGroup p w) :
    (n, i, j) ∈ t.trips p deep w depth ↔ Visits 0 p.kl.toNat depth n ∧
      (i < (spread deep p.kl.toNat t.extent).1 ∧ j < (spread deep p.kl.toNat t.extent).2) ∧
        Fetches p w i j := by
  have far : flat p w / p.localFetch0.toNat < p.localFetch1.toNat := by
    refine Nat.div_lt_of_lt_mul ?_
    rw [valid.fetch staged]
    exact inGroup.flat_lt
  have near := Nat.mod_lt (flat p w) valid.fetch0
  rw [mem_trips valid, visits_iff far, visits_iff near, and_and_and_comm]
  rfl

theorem nodup_trips (valid : p.Valid) : (t.trips p deep w depth).Nodup :=
  (nodup_visited valid.kl).product ((nodup_visited valid.fetch1).product (nodup_visited valid.fetch0))

/-- Where a worker stands on the axes and what cell that is tell each other. -/
theorem spread_eq_iff : spread deep i j = (k, x) ↔ (i, j) = spread deep k x := by
  cases deep
  · exact ⟨fun same => by cases same; rfl, fun same => by cases same; rfl⟩
  · exact Iff.rfl

/-- A worker stands on the axes within the tile where the cell does. -/
theorem spread_lt {K X : Nat} : (spread deep k x).1 < (spread deep K X).1 ∧
    (spread deep k x).2 < (spread deep K X).2 ↔ k < K ∧ x < X := by
  cases deep
  · exact and_comm
  · exact Iff.rfl

/-- The worker fills a cell from where it stands on the axes. -/
theorem fetches_spread : Fetches p w (spread deep k x).1 (spread deep k x).2 ↔ Fills p deep w k x := by
  cases deep <;> exact Iff.rfl

instance : Decidable (Fetches p w i j) := inferInstanceAs (Decidable (_ ∧ _))

instance : Decidable (Fills p deep w k x) :=
  inferInstanceAs (Decidable (if deep then Fetches p w k x else Fetches p w x k))

/-- **A worker fills the cells of its share once** for every tile, and no others. -/
theorem count_fetches (valid : p.Valid) (staged : p.staged = true) (inGroup : InGroup p w)
    (visits : Visits 0 p.kl.toNat depth n) (below : k < p.kl.toNat) (across : x < t.extent) :
    (t.fetches p deep w depth).countP (fun f => f.tile = n ∧ f.slot = t.cell w.group k x) =
      if Fills p deep w k x then 1 else 0 := by
  -- Only one trip has to do with the cell, so its fetches are counted as trips, which have no duplicates.
  have only (trip : Nat × Nat × Nat) : ((t.fetch p deep w trip.1 trip.2.1 trip.2.2).tile = n ∧
      (t.fetch p deep w trip.1 trip.2.1 trip.2.2).slot = t.cell w.group k x) ↔
        trip = (n, spread deep k x) := by
    obtain ⟨n', i, j⟩ := trip
    rw [Prod.mk.injEq, ← spread_eq_iff]
    refine and_congr_right fun _ => ⟨fun same => ?_, fun same => ?_⟩
    · obtain ⟨first, second⟩ := shared_injective same
      exact Prod.ext first second
    · show t.cell w.group (spread deep i j).1 (spread deep i j).2 = _
      rw [same]
  have here : (n, spread deep k x) ∈ t.trips p deep w depth ↔ Fills p deep w k x := by
    rw [← fetches_spread]
    exact (mem_trips_iff valid staged inGroup).trans
      ⟨fun all => all.2.2, fun fills => ⟨visits, spread_lt.mpr ⟨below, across⟩, fills⟩⟩
  calc (t.fetches p deep w depth).countP (fun f => f.tile = n ∧ f.slot = t.cell w.group k x)
      = (t.trips p deep w depth).count (n, spread deep k x) := by
        rw [fetches, List.countP_map, List.count]
        refine List.countP_congr fun trip _ => ?_
        rw [beq_iff_eq, ← only trip]
        exact decide_eq_true_iff
    _ = if (n, spread deep k x) ∈ t.trips p deep w depth then 1 else 0 := (nodup_trips valid).count
    _ = if Fills p deep w k x then 1 else 0 := by simp only [here]

/-- What a worker does lies in the tile, every cell gets its element, and it is done on trips of its own. -/
theorem of_mem_fetches (valid : p.Valid) {f : Fetch} (member : f ∈ t.fetches p deep w depth) :
    Visits 0 p.kl.toNat depth f.tile ∧ (∃ u u', f.OnTrip p u u') ∧
      ∃ k < p.kl.toNat, ∃ x < t.extent, f.slot = t.cell w.group k x ∧
        f.source = .global t.buffer (t.index f.tile k x) := by
  obtain ⟨⟨n, i, j⟩, trip, rfl⟩ := List.mem_map.mp member
  obtain ⟨visits, ⟨u, further, row⟩, u', nearer, col⟩ := (mem_trips valid).mp trip
  have cell : spread deep (spread deep i j).1 (spread deep i j).2 = (i, j) := spread_eq_iff.mpr rfl
  have within : (spread deep i j).1 < p.kl.toNat ∧ (spread deep i j).2 < t.extent := by
    rw [← spread_lt, cell]
    exact ⟨further ▸ row, nearer ▸ col⟩
  exact ⟨visits, ⟨u, u', further, nearer⟩, _, within.1, _, within.2, rfl, rfl⟩

/-- **Workers next to each other read elements next to each other** on common trips. -/
theorem coalesced {w' : Worker}
    (adjacent : ∀ n i j, t.index n (spread deep i (j + 1)).1 (spread deep i (j + 1)).2 =
      t.index n (spread deep i j).1 (spread deep i j).2 + 1) {f f' : Fetch}
    (member : f ∈ t.fetches p deep w depth) (member' : f' ∈ t.fetches p deep w' depth)
    (abreast : f.Abreast p f') :
    ∃ i, f.source = .global t.buffer i ∧ f'.source = .global t.buffer (i + 1) := by
  obtain ⟨⟨n, i, j⟩, -, rfl⟩ := List.mem_map.mp member
  obtain ⟨⟨n', i', j'⟩, -, rfl⟩ := List.mem_map.mp member'
  obtain ⟨tile, row, col, u, u', ⟨further, nearer⟩, further', nearer'⟩ := abreast
  refine ⟨_, rfl, ?_⟩
  -- On a common trip they stand on the same place of the outer axis, and side by side on the inner one.
  obtain rfl : n' = n := tile
  obtain rfl : i' = i := further'.trans ((congrArg (· + u * _) row).trans further.symm)
  obtain rfl : j' = j + 1 := by
    refine nearer'.trans ?_
    rw [col, Nat.add_right_comm]
    exact congrArg (· + 1) nearer.symm
  exact congrArg (Place.global t.buffer) (adjacent n' i' j)

/-- The fetches are made tile by tile. -/
theorem map_some_fetches : (t.fetches p deep w depth).map some =
    (visited 0 p.kl.toNat depth).flatMap (t.shown p deep w) := by
  rw [fetches, trips, List.map_map, List.map_eq_flatMap, flatMap_product]
  exact congrArg (List.flatMap · _) (funext fun n => List.map_eq_flatMap.symm)

end Tile

/-! ### The code of the fetches -/

section Code

variable {t : Tile} {deep : Bool} {depth n : Nat}

/-- What a store into the tile does, from what its sides stand for. -/
theorem of?_eq {slot source : Term} {i j : Nat} {there here : Place} (staged : p.staged = true)
    (ready : Ready p w names) (atTile : names "k0" = some (.index n)) (atA : names "a" = some (.index i))
    (atB : names "b" = some (.index j)) (into : slot.spot? w names = some (.single there))
    (out : source.spot? w names = some (.single here)) : Fetch.of? w names slot source =
      some ⟨n, flat p w % p.localFetch0.toNat, flat p w / p.localFetch0.toNat, i, j, there, here⟩ := by
  have fid0 : (v "fid0").number? w names = some (flat p w % p.localFetch0.toNat) :=
    Term.number?_name (ready.fid0 staged)
  have fid1 : (v "fid1").number? w names = some (flat p w / p.localFetch0.toNat) :=
    Term.number?_name (ready.fid1 staged)
  have tile : (v "k0").number? w names = some n := Term.number?_name atTile
  have further : (v "a").number? w names = some i := Term.number?_name atA
  have nearer : (v "b").number? w names = some j := Term.number?_name atB
  unfold Fetch.of?
  rw [tile, fid0, fid1, further, nearer, into, out]
  rfl

/-- **The code that fills a tile** makes the fetches of the worker. -/
theorem fetchTile_sees (valid : p.Valid) (staged : p.staged = true) (ready : Ready p w names)
    {memory : LocalMemory} {source : Term → Term → Term} (named : memory.name = t.array)
    (bound : names t.array = some (.sharedArray [p.kl.toNat, t.extent + 1])) (fresh : t.array ∉ ["a", "b"])
    (atTile : names "k0" = some (.index n))
    (out : ∀ k x depth across names', names.Same ["a", "b"] names' → depth.number? w names' = some k →
      across.number? w names' = some x →
      (source depth across).spot? w names' = some (.single (.global t.buffer (t.index n k x)))) :
    (fetched t.array w).Sees (fetchTile p deep memory t.extent source) names (t.shown p deep w n)
      fun _ => True := by
  have into {names' : Names Unit} {k x : Nat} {s u : Term} (same : names.Same ["a", "b"] names')
      (first : s.number? w names' = some k) (second : u.number? w names' = some x)
      (below : k < p.kl.toNat) (across : x < t.extent) :
      (memory.access [s, u]).spot? w names' = some (.single (t.cell w.group k x)) := by
    rw [LocalMemory.access, Term.spot?_element (Term.mapM_pair first second), named, same _ fresh, bound]
    exact if_pos (Term.inside_pair below (Nat.lt_succ_of_lt across))
  have shown {names' : Names Unit} {k x i j : Nat} {s u : Term} (same : names.Same ["a", "b"] names')
      (first : s.number? w names' = some k) (second : u.number? w names' = some x)
      (below : k < p.kl.toNat) (across : x < t.extent) (atA : names' "a" = some (.index i))
      (atB : names' "b" = some (.index j)) (cell : Tile.spread deep i j = (k, x)) :
      ((Step.store (memory.access [s, u]) .assign (source s u)).stored t.array (Fetch.of? w) names').toList =
        [some (t.fetch p deep w n i j)] := by
    have array : (memory.access [s, u]).access?.map Prod.fst = some t.array := congrArg some named
    have made := of?_eq staged (ready.after (same.mono (show ∀ x ∈ ["a", "b"], x ∈ loopNames by decide)))
      ((same "k0" (by decide)).trans atTile) atA atB (into same first second below across)
      (out k x s u names' same first second)
    rw [Step.stored_here array, made, Tile.fetch, cell]
    rfl
  rw [Tile.shown, List.map_eq_flatMap]
  cases deep with
  | true =>
    refine fetch_sees valid staged ready (fun _ => Term.noConfusion)
      (fun i j => [some (t.fetch p true w n i j)]) fun i below j across names' same atA atB => ?_
    exact shown same (Term.number?_name atA) (Term.number?_name atB) below across atA atB rfl
  | false =>
    refine fetch_sees valid staged ready (fun _ => Term.noConfusion)
      (fun i j => [some (t.fetch p false w n i j)]) fun i across j below names' same atA atB => ?_
    exact shown same (Term.number?_name atB) (Term.number?_name atA) below across atA atB rfl

end Code

/-! ### The tiles of a group -/

section Share

variable {n : Nat}

/-- A worker fetches its share of the left tile. -/
theorem fetchLeft_sees (launched : Launched p type problem target store bindings names₀)
    (staged : p.stageLeft = true) (named : Named p type problem store names₀ w names)
    (atTile : names "k0" = some (.index n)) :
    (fetched "lA" w).Sees (fetchLeft (.of p type) problem.lhs) names
      ((leftTile p problem.lhs bindings (w.group.first * (p.localSize0.toNat * p.ms.toNat))).shown p
        problem.lhs.rowsAdjacent w n) fun _ => True := by
  have both : p.staged = true := Bool.or_eq_true_iff.mpr (Or.inl staged)
  rw [fetchLeft_eq]
  refine @fetchTile_sees w p names (leftTile p problem.lhs bindings _) problem.lhs.rowsAdjacent n launched.valid
    both named.ready (Tiling.of p type).left _ rfl (named.ready.left staged)
    (show "lA" ∉ ["a", "b"] by decide) atTile fun k x depth across names' same atDepth atAcross => ?_
  have named' := named.fetched both same
  exact spot?_element (launched.known _ named'.settled _ (by simp))
    (Term.number?_add (Term.number?_name named'.ready.gm) atAcross)
    (Term.number?_add (Term.number?_name ((same "k0" (by decide)).trans atTile)) atDepth)

/-- A worker fetches its share of the right tile. -/
theorem fetchRight_sees (launched : Launched p type problem target store bindings names₀)
    (staged : p.stageRight = true) (named : Named p type problem store names₀ w names)
    (atTile : names "k0" = some (.index n)) :
    (fetched "lB" w).Sees (fetchRight (.of p type) problem.rhs) names
      ((rightTile p problem.rhs bindings (w.group.second * (p.localSize1.toNat * p.ns.toNat))).shown p
        (!problem.rhs.rowsAdjacent) w n) fun _ => True := by
  have both : p.staged = true := Bool.or_eq_true_iff.mpr (Or.inr staged)
  rw [fetchRight_eq]
  refine @fetchTile_sees w p names (rightTile p problem.rhs bindings _) (!problem.rhs.rowsAdjacent) n
    launched.valid both named.ready (Tiling.of p type).right _ rfl (named.ready.right staged)
    (show "lB" ∉ ["a", "b"] by decide) atTile fun k x depth across names' same atDepth atAcross => ?_
  have named' := named.fetched both same
  exact spot?_element (launched.known _ named'.settled _ (by simp))
    (Term.number?_add (Term.number?_name ((same "k0" (by decide)).trans atTile)) atDepth)
    (Term.number?_add (Term.number?_name named'.ready.gn) atAcross)

/-- **Both tiles are filled, and the left one is shown.** -/
theorem left_share (launched : Launched p type problem target store bindings names₀)
    (staged : p.stageLeft = true) (named : Named p type problem store names₀ w names)
    (atTile : names "k0" = some (.index n)) :
    (fetched "lA" w).Sees (onlyIf p.stageLeft (fetchLeft (.of p type) problem.lhs) ++
        onlyIf p.stageRight (fetchRight (.of p type) problem.rhs)) names
      ((leftTile p problem.lhs bindings (w.group.first * (p.localSize0.toNat * p.ms.toNat))).shown p
        problem.lhs.rowsAdjacent w n) fun _ => True := by
  have both : p.staged = true := Bool.or_eq_true_iff.mpr (Or.inl staged)
  rw [← List.append_nil (Tile.shown ..)]
  refine share_sees (fun _ => fetchLeft_sees launched staged named atTile)
    (fun unused => absurd (staged.symm.trans unused) Bool.noConfusion) (fun right names' same => ?_)
    fun _ => rfl
  exact fetchRight_silent launched.valid right (named.fetched both same).ready (by decide)

/-- **Both tiles are filled, and the right one is shown.** -/
theorem right_share (launched : Launched p type problem target store bindings names₀)
    (staged : p.stageRight = true) (named : Named p type problem store names₀ w names)
    (atTile : names "k0" = some (.index n)) :
    (fetched "lB" w).Sees (onlyIf p.stageLeft (fetchLeft (.of p type) problem.lhs) ++
        onlyIf p.stageRight (fetchRight (.of p type) problem.rhs)) names
      ((rightTile p problem.rhs bindings (w.group.second * (p.localSize1.toNat * p.ns.toNat))).shown p
        (!problem.rhs.rowsAdjacent) w n) fun _ => True := by
  have both : p.staged = true := Bool.or_eq_true_iff.mpr (Or.inr staged)
  rw [← List.nil_append (Tile.shown ..)]
  refine share_sees (fun left => fetchLeft_silent launched.valid left named.ready (by decide)) (fun _ => rfl)
    (fun _ names' same => ?_) fun unused => absurd (staged.symm.trans unused) Bool.noConfusion
  exact fetchRight_sees launched staged (named.fetched both same) ((same "k0" (by decide)).trans atTile)

end Share

/-- The stores into a tile are the fetches of the worker. -/
theorem body_fetches {t : Tile} {deep : Bool} (launched : Launched p type problem target store bindings names₀)
    (other : t.array ∉ ["rC", "rA", "rB"]) (entered : t.array ∈ (prologue (.of p type) type).binders)
    (share : ∀ n, ∀ names, Named p type problem store names₀ w names → names "k0" = some (.index n) →
      (fetched t.array w).Sees (onlyIf p.stageLeft (fetchLeft (.of p type) problem.lhs) ++
        onlyIf p.stageRight (fetchRight (.of p type) problem.rhs)) names (t.shown p deep w n) fun _ => True) :
    Thread.Shows (fetched t.array w) ⟨[.run (body (.of p type) type problem store)], names₀⟩
      ((t.fetches p deep w (problem.lhs.logicalCols.size bindings)).map some) := by
  have sees := body_sees other launched.valid launched.depth (t.shown p deep w) [] share fun names named =>
    finish_silent named.ready launched.stores launched.stored (launched.target_ne entered)
  rw [Tile.map_some_fetches, ← List.append_nil (List.flatMap ..)]
  exact sees.shows

section Group

variable {groups₀ groups₁ depth : Nat} {g : (launch p groups₀ groups₁).Group} {t : Tile} {kernel : Kernel}

/-- **How the workers of a group fill a tile**, every time that they do. -/
structure Tile.FilledBy (t : Tile) (p : ProductTuning) (kernel : Kernel) (bindings : Bindings) (depth : Nat)
    (g : (launch p groups₀ groups₁).Group) (fetches : (launch p groups₀ groups₁).Lane → List Fetch) :
    Prop where
  /-- What a worker does is all that it stores into the tile until it comes to its end. -/
  shows : ∀ l es, Thread.Shows (fetched t.array ((launch p groups₀ groups₁).worker g l))
    (kernel.start (fun _ => ()) bindings) es ↔ es = (fetches l).map some
  /-- Each element goes into its cell. -/
  places : ∀ l, ∀ f ∈ fetches l, Visits 0 p.kl.toNat depth f.tile ∧ (∃ u u', f.OnTrip p u u') ∧
    ∃ k < p.kl.toNat, ∃ x < t.extent, f.slot = t.cell g.triple k x ∧
      f.source = .global t.buffer (t.index f.tile k x)
  /-- The workers together fill every cell once. -/
  once : ∀ n, Visits 0 p.kl.toNat depth n → ∀ k < p.kl.toNat, ∀ x < t.extent,
    ∑ l, (fetches l).countP (fun f => f.tile = n ∧ f.slot = t.cell g.triple k x) = 1
  /-- Neighbours read neighbours. -/
  coalesced : ∀ l l', ∀ f ∈ fetches l, ∀ f' ∈ fetches l', f.Abreast p f' →
    ∃ i, f.source = .global t.buffer i ∧ f'.source = .global t.buffer (i + 1)

/-- The workers of a group fill every cell of a tile once. Their shares are disjoint and leave out nothing. -/
theorem Tile.sum_count_fetches {deep : Bool} {n k x : Nat} (valid : p.Valid) (staged : p.staged = true)
    (visits : Visits 0 p.kl.toNat depth n) (below : k < p.kl.toNat) (across : x < t.extent) :
    ∑ l, (t.fetches p deep ((launch p groups₀ groups₁).worker g l) depth).countP
      (fun f => f.tile = n ∧ f.slot = t.cell g.triple k x) = 1 := by
  have count (l : (launch p groups₀ groups₁).Lane) :
      (t.fetches p deep ((launch p groups₀ groups₁).worker g l) depth).countP
        (fun f => f.tile = n ∧ f.slot = t.cell g.triple k x) =
          if Fills p deep ((launch p groups₀ groups₁).worker g l) k x then 1 else 0 :=
    count_fetches valid staged (inGroup g l) visits below across
  obtain ⟨x₀, x₁, first, second, fills⟩ := exists_fills valid staged deep k x
  let l₀ : (launch p groups₀ groups₁).Lane := (⟨x₀, first⟩, ⟨x₁, second⟩, ⟨0, Nat.one_pos⟩)
  have mine : Fills p deep ((launch p groups₀ groups₁).worker g l₀) k x := fills _ rfl rfl
  simp only [count]
  -- Its fill is the only one: two workers who fill the same cell are in the same place of the group.
  rw [Fintype.sum_eq_single l₀ fun l other => if_neg fun also => other ?_, if_pos mine]
  obtain ⟨same, same'⟩ := fills_unique (inGroup g l) (inGroup g l₀) also mine
  exact lane_ext same same'

theorem Tile.filledBy {deep : Bool} (valid : p.Valid) (staged : p.staged = true)
    (shows : ∀ l, Thread.Shows (fetched t.array ((launch p groups₀ groups₁).worker g l))
      (kernel.start (fun _ => ()) bindings)
      ((t.fetches p deep ((launch p groups₀ groups₁).worker g l) depth).map some))
    (adjacent : ∀ n i j, t.index n (spread deep i (j + 1)).1 (spread deep i (j + 1)).2 =
      t.index n (spread deep i j).1 (spread deep i j).2 + 1) :
    t.FilledBy p kernel bindings depth g fun l =>
      t.fetches p deep ((launch p groups₀ groups₁).worker g l) depth where
  shows l _ := ⟨fun other => other.unique (shows l), fun all => all ▸ shows l⟩
  places _ _ member := of_mem_fetches valid member
  once _ visits _ below _ across := sum_count_fetches valid staged visits below across
  coalesced _ _ _ member _ member' := coalesced adjacent member member'

/-- Along the inner loop the left tile is filled from neighbouring addresses. -/
theorem leftTile_adjacent (row n i j : Nat) : (leftTile p a bindings row).index n
    (Tile.spread a.rowsAdjacent i (j + 1)).1 (Tile.spread a.rowsAdjacent i (j + 1)).2 =
      (leftTile p a bindings row).index n (Tile.spread a.rowsAdjacent i j).1
        (Tile.spread a.rowsAdjacent i j).2 + 1 := by
  cases adjacent : a.rowsAdjacent with
  | true => exact MatrixOperand.position_succ_row adjacent (row + j) (n + i)
  | false => exact MatrixOperand.position_succ_col adjacent (row + i) (n + j)

/-- And so is the right one. -/
theorem rightTile_adjacent (col n i j : Nat) : (rightTile p b bindings col).index n
    (Tile.spread (!b.rowsAdjacent) i (j + 1)).1 (Tile.spread (!b.rowsAdjacent) i (j + 1)).2 =
      (rightTile p b bindings col).index n (Tile.spread (!b.rowsAdjacent) i j).1
        (Tile.spread (!b.rowsAdjacent) i j).2 + 1 := by
  cases adjacent : b.rowsAdjacent with
  | true => exact MatrixOperand.position_succ_row adjacent (n + j) (col + i)
  | false => exact MatrixOperand.position_succ_col adjacent (n + i) (col + j)

/-- **The tiles are filled completely, once and side by side.** In every tile of the shared dimension the
workers of a group store every element of an operand that is staged into its cell of the tile, each cell
once; workers whose numbers follow each other read addresses that do. -/
theorem generate_fills {left right : Bool} {program : Program} (checked : p.check = .ok ())
    (generated : generate left right p op = .ok program) (member : kernel ∈ program.kernels)
    (proper : kernel.Proper) (sized : kernel.Sized bindings)
    (multiplies : ∀ s ∈ op.statements, ∀ x ∈ s.value.products, x.lhs = .matrix a ∧ x.rhs = some (.matrix b)) :
    ∃ groups₀ groups₁, kernel.geometry.shape? bindings = some (launch p groups₀ groups₁) ∧
      ∀ g : (launch p groups₀ groups₁).Group,
        (p.stageLeft = true → ∃ fetches,
          (leftTile p a bindings (g.1 * (p.localSize0.toNat * p.ms.toNat))).FilledBy p kernel bindings
            (a.logicalCols.size bindings) g fetches) ∧
        (p.stageRight = true → ∃ fetches,
          (rightTile p b bindings (g.2.1 * (p.localSize1.toNat * p.ns.toNat))).FilledBy p kernel bindings
            (a.logicalCols.size bindings) g fetches) := by
  obtain ⟨problem, target, store, accepted, start, shape, launched⟩ :=
    exists_launched checked generated member proper sized
  obtain ⟨lhs, rhs⟩ := multiplies _ accepted.mem_statements _ (accepted.product ▸ List.mem_cons_self)
  obtain rfl : problem.lhs = a := Expr.matrix.inj lhs
  obtain rfl : problem.rhs = b := Expr.matrix.inj (Option.some.inj rhs)
  refine ⟨_, _, shape, fun g => ⟨fun staged => ⟨_, Tile.filledBy launched.valid
    (Bool.or_eq_true_iff.mpr (Or.inl staged)) (fun l => ?_) (leftTile_adjacent _)⟩, fun staged => ⟨_,
    Tile.filledBy launched.valid (Bool.or_eq_true_iff.mpr (Or.inr staged)) (fun l => ?_)
      (rightTile_adjacent _)⟩⟩⟩
  · rw [start]
    exact body_fetches launched (show "lA" ∉ ["rC", "rA", "rB"] by decide)
      (mem_binders_prologue.mpr (Or.inl (Or.inl ⟨staged, rfl⟩)))
      fun n names named atTile => left_share launched staged named atTile
  · rw [start]
    exact body_fetches launched (show "lB" ∉ ["rC", "rA", "rB"] by decide)
      (mem_binders_prologue.mpr (Or.inl (Or.inr ⟨staged, rfl⟩)))
      fun n names named atTile => right_share launched staged named atTile

/-- Every cell gets its element in every tile. -/
theorem Tile.FilledBy.exists_fetch {fetches : (launch p groups₀ groups₁).Lane → List Fetch} {n k x : Nat}
    (filled : t.FilledBy p kernel bindings depth g fetches) (visits : Visits 0 p.kl.toNat depth n)
    (below : k < p.kl.toNat) (across : x < t.extent) :
    ∃ l, ∃ f ∈ fetches l, f.tile = n ∧ f.slot = t.cell g.triple k x ∧
      f.source = .global t.buffer (t.index n k x) := by
  have once := filled.once n visits k below x across
  obtain ⟨l, -, some⟩ := Finset.exists_ne_zero_of_sum_ne_zero (once.trans_ne Nat.one_ne_zero)
  obtain ⟨f, member, here⟩ := List.countP_pos_iff.mp (Nat.pos_of_ne_zero some)
  obtain ⟨rfl, slot⟩ := of_decide_eq_true here
  obtain ⟨-, -, k', -, x', -, slot', source⟩ := filled.places l f member
  obtain ⟨rfl, rfl⟩ := shared_injective (slot'.symm.trans slot)
  exact ⟨l, f, member, rfl, slot, source⟩

/-- A record that stages both operands, and has two workers fetch side by side. -/
def stagedRecord : ProductTuning :=
  { smallRecord with stageRight := true, localFetch0 := 2, localFetch1 := 1 }

/-- In the second of two tiles, both operands have their elements of depth three. -/
theorem generate_fills_smallOperation : ∃ program kernel,
    generate false false stagedRecord smallOperation = .ok program ∧ program.kernels = [kernel] ∧
      kernel.geometry.shape? smallSizes = some (launch stagedRecord 1 1) ∧
      let g : (launch stagedRecord 1 1).Group := (⟨0, Nat.one_pos⟩, ⟨0, Nat.one_pos⟩, ⟨0, Nat.one_pos⟩)
      ∃ lefts rights : (launch stagedRecord 1 1).Lane → List (Option Fetch),
        (∀ l, Thread.Shows (fetched "lA" ((launch stagedRecord 1 1).worker g l))
          (kernel.start (fun _ => ()) smallSizes) (lefts l)) ∧
        (∀ l, Thread.Shows (fetched "lB" ((launch stagedRecord 1 1).worker g l))
          (kernel.start (fun _ => ()) smallSizes) (rights l)) ∧
        (∃ l, ∃ f, some f ∈ lefts l ∧ f.tile = 2 ∧ f.slot = .shared g.triple "lA" [1, 0] ∧
          f.source = .global "lhs" 3) ∧
        ∃ l, ∃ f, some f ∈ rights l ∧ f.tile = 2 ∧ f.slot = .shared g.triple "lB" [1, 1] ∧
          f.source = .global "rhs" 7 := by
  have accepted : ((generate false false stagedRecord smallOperation).toOption.any fun program =>
      program.kernels.all fun kernel => decide kernel.Proper && decide (kernel.Sized smallSizes) &&
        decide (kernel.geometry.shape? smallSizes = some (launch stagedRecord 1 1))) = true := by
    decide +kernel
  cases generated : generate false false stagedRecord smallOperation with
  | error fault =>
    rw [generated] at accepted
    cases accepted
  | ok program =>
    rw [generated] at accepted
    obtain ⟨problem, target, arguments, store, kernel, -, -, -, kernels, -⟩ := generate_eq_ok generated
    have member : kernel ∈ program.kernels := kernels ▸ List.mem_cons_self
    obtain ⟨⟨proper, sized⟩, shape⟩ : (kernel.Proper ∧ kernel.Sized smallSizes) ∧
        kernel.geometry.shape? smallSizes = some (launch stagedRecord 1 1) := by
      simpa using List.all_eq_true.mp accepted kernel member
    obtain ⟨groups₀, groups₁, shape', fills⟩ := @generate_fills smallOperation stagedRecord
      (.plain "lhs" (.fixed 2) (.symbol "depth")) (.plain "rhs" (.symbol "depth") (.fixed 2)) smallSizes kernel
      false false program rfl generated member proper sized (by decide)
    obtain ⟨rfl, rfl⟩ : groups₀ = 1 ∧ groups₁ = 1 := by
      have same := congrArg Shape.groups (Option.some.inj (shape'.symm.trans shape))
      exact ⟨congrArg Triple.first same, congrArg Triple.second same⟩
    refine ⟨program, kernel, rfl, kernels, shape, ?_⟩
    intro g
    obtain ⟨lefts, filled⟩ := (fills g).1 rfl
    obtain ⟨rights, filled'⟩ := (fills g).2 rfl
    refine ⟨fun l => (lefts l).map some, fun l => (rights l).map some, fun l => (filled.shows l _).mpr rfl,
      fun l => (filled'.shows l _).mpr rfl, ?_, ?_⟩
    · obtain ⟨l, f, member, tile, slot, source⟩ :=
        filled.exists_fetch (n := 2) (k := 1) (x := 0) ⟨1, rfl, by decide⟩ (by decide) (by decide)
      exact ⟨l, f, List.mem_map_of_mem member, tile, slot, source⟩
    · obtain ⟨l, f, member, tile, slot, source⟩ :=
        filled'.exists_fetch (n := 2) (k := 1) (x := 1) ⟨1, rfl, by decide⟩ (by decide) (by decide)
      exact ⟨l, f, List.mem_map_of_mem member, tile, slot, source⟩

end Group

end TunedKernel.MatrixProduct
