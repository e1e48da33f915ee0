/-
**Element-wise matrix statements are computed as the statements say.**

* `elements`, `Parts.stored` — the elements of a shape, and what is stored at one of them.
* `footing` — the places that a worker has to itself: what is stored at the elements of its part.
* `Setting` — what the names of a launched kernel stand for.
* `stores_lead`, `body_leads` — a worker carries out the statements at an element, and at all of its part.
* `generate_carriesOut` — the program of an accepted operation carries out the statements at every element.
-/

import TunedKernel.Proofs.Batch.Spreading
import TunedKernel.Proofs.Execution.Footing
import TunedKernel.Proofs.Execution.Signature
import TunedKernel.Proofs.MatrixStatements.Accesses

namespace TunedKernel.MatrixStatements

variable {α : Type} {r : Reading α} {op : Operation} {k : Parts} {names₀ : Names α}
  {bindings : Bindings}

/-! ### Elements -/

/-- The element in a row and a column. -/
def element (i j : Nat) : Point := { row := i, col := j }

/-- The elements of a shape. -/
def elements (rows cols : Nat) : Set Point :=
  {point | ∃ i < rows, ∃ j < cols, point = element i j}

/-- The statements are carried out at the elements of a shape. -/
def course (rows cols : Nat) : Course where
  points := elements rows cols
  terms point _ := point
  count := 0
  places := {place | ∃ x n, place = .global x n}

/-- What is stored at an element. -/
def Parts.stored (k : Parts) (bindings : Bindings) (point : Point) : Set Place :=
  {place | ∃ s ∈ k.statements, s.target.place? bindings point = some place}

/-- The statements with their steps, at any element. -/
def entries (e : Elements α) (k : Parts) : List (Statement.Entry α) :=
  k.statements.map fun s => ⟨s, k.store s, e.number 0⟩

/-- What is stored at an element is used at no other one. -/
theorem element_unique (apart : Statement.Apart bindings (elements (k.rows.size bindings) (k.cols.size bindings)) k.statements)
    {i j i' j' : Nat} (below : i < k.rows.size bindings) (before : j < k.cols.size bindings)
    (below' : i' < k.rows.size bindings) (before' : j' < k.cols.size bindings) {place : Place}
    (stored : place ∈ k.stored bindings (element i j)) {s : Statement} (member : s ∈ k.statements)
    {leaf : Expr} (used : leaf ∈ s.target :: s.value.leaves)
    (reads : leaf.place? bindings (element i' j') = some place) : i = i' ∧ j = j' := by
  obtain ⟨s', member', stored⟩ := stored
  have same := apart s' member' s member (element i j) ⟨i, below, j, before, rfl⟩ (element i' j')
    ⟨i', below', j', before', rfl⟩ place stored leaf used reads
  exact ⟨congrArg Point.row same, congrArg Point.col same⟩

/-! ### Parts -/

/-- An element is one of a worker's part. -/
structure Mine (k : Parts) (bindings : Bindings) (g : (launch k.record).Group)
    (l : (launch k.record).Lane) (i j : Nat) : Prop where
  below : i < k.rows.size bindings
  before : j < k.cols.size bindings
  row : Split.owner k.record.strided k.rowWorkers (k.rows.size bindings) i = globalRow g l
  col : Split.owner k.record.strided k.colWorkers (k.cols.size bindings) j = globalCol g l

/-- An element is of the part of one worker only. -/
theorem Mine.unique {g g' : (launch k.record).Group} {l l' : (launch k.record).Lane} {i j : Nat}
    (one : Mine k bindings g l i j) (other : Mine k bindings g' l' i j) : g = g' ∧ l = l' := by
  obtain ⟨group, lane⟩ := digits_unique l.1.isLt l'.1.isLt (one.row.symm.trans other.row)
  obtain ⟨group', lane'⟩ := digits_unique l.2.1.isLt l'.2.1.isLt (one.col.symm.trans other.col)
  exact ⟨Prod.ext (Fin.ext group) (Prod.ext (Fin.ext group') (Subsingleton.elim (α := Fin 1) _ _)),
    Prod.ext (Fin.ext lane) (Prod.ext (Fin.ext lane') (Subsingleton.elim (α := Fin 1) _ _))⟩

/-- Every element is of the part of a worker. -/
theorem exists_mine (valid : k.record.Valid) {i j : Nat} (below : i < k.rows.size bindings)
    (before : j < k.cols.size bindings) : ∃ g l, Mine k bindings g l i j := by
  have digits {x groups size : Nat} (less : x < groups * size) :
      ∃ group lane, group < groups ∧ lane < size ∧ x = group * size + lane := by
    have positive : 0 < size := Nat.pos_of_ne_zero fun zero => by simp [zero] at less
    refine ⟨x / size, x % size, Nat.div_lt_of_lt_mul (Nat.mul_comm groups size ▸ less),
      Nat.mod_lt x positive, ?_⟩
    rw [Nat.mul_comm, Nat.div_add_mod]
  have rowOwner : Split.owner k.record.strided k.rowWorkers (k.rows.size bindings) i < k.rowWorkers :=
    Split.owner_lt (Nat.mul_pos valid.numGroups0 valid.localSize0) below
  have colOwner : Split.owner k.record.strided k.colWorkers (k.cols.size bindings) j < k.colWorkers :=
    Split.owner_lt (Nat.mul_pos valid.numGroups1 valid.localSize1) before
  obtain ⟨group, lane, inside, within, row⟩ := digits rowOwner
  obtain ⟨group', lane', inside', within', col⟩ := digits colOwner
  exact ⟨(⟨group, inside⟩, ⟨group', inside'⟩, ⟨0, Nat.one_pos⟩),
    (⟨lane, within⟩, ⟨lane', within'⟩, ⟨0, Nat.one_pos⟩), below, before, row, col⟩

/-- A worker has to itself what is stored at the elements of its part. What is stored nowhere may be read
by all. -/
def footing (k : Parts) (bindings : Bindings) : Footing (launch k.record) where
  cells g l := {cell | ∃ i j, Mine k bindings g l i j ∧
    .global cell.1 cell.2 ∈ k.stored bindings (element i j)}
  inputs := {cell | ∀ i < k.rows.size bindings, ∀ j < k.cols.size bindings,
    .global cell.1 cell.2 ∉ k.stored bindings (element i j)}

/-- An element that is stored into is used at that element only. -/
theorem separate (apart : Statement.Apart bindings (elements (k.rows.size bindings) (k.cols.size bindings)) k.statements) :
    (footing k bindings).Separate where
  unique := by
    rintro g l g' l' ⟨buffer, n⟩ ⟨i, j, one, stored⟩ ⟨i', j', other, s, member, again⟩
    obtain ⟨rfl, rfl⟩ := element_unique apart one.below one.before other.below other.before stored
      member List.mem_cons_self again
    exact one.unique other
  fresh := by
    rintro g l cell ⟨i, j, one, stored⟩ input
    exact input i one.below j one.before stored

/-! ### A worker -/

/-- What the names of a launched kernel stand for. -/
structure Setting (r : Reading α) (op : Operation) (k : Parts) (names₀ : Names α) : Prop where
  valid : k.record.Valid
  accepted : Accepted op k.record k
  known : ∀ names, names₀.Same k.body.binders names → ∀ s ∈ k.statements,
    s.target.Known 1 r.host r.bindings names ∧
      ∀ leaf ∈ s.value.leaves, leaf.Known 1 r.host r.bindings names
  extents : ∀ names, names₀.Same k.body.binders names →
    k.rows.Known r.bindings names ∧ k.cols.Known r.bindings names
  apart : Statement.Apart r.bindings (elements (k.rows.size r.bindings) (k.cols.size r.bindings)) k.statements

/-- A worker. The kernel has no barrier. -/
abbrev station (r : Reading α) (k : Parts) (g : (launch k.record).Group)
    (l : (launch k.record).Lane) : Station α :=
  ((footing k r.bindings).phase g ⟨fun _ => ∅, fun _ => ∅⟩).station r.elements g l

section Worker

variable {names : Names α} {m : Memory α} {g : (launch k.record).Group} {l : (launch k.record).Lane}
  {i j : Nat}

/-- **A worker carries out the statements at an element of its part.** -/
theorem stores_lead (setting : Setting r op k names₀) (mine : Mine k r.bindings g l i j)
    (settled : names₀.Same k.body.binders names) (row : names "row" = some (.index i))
    (col : names "col" = some (.index j))
    (same : ∀ place, (∀ i' < k.rows.size r.bindings, ∀ j' < k.cols.size r.bindings,
      ¬ (i' = i ∧ j' = j) → place ∉ k.stored r.bindings (element i' j')) →
        m place = r.memory place) :
    (station r k g l).Leads k.stores names m fun _ m' =>
      (∀ place ∈ k.stored r.bindings (element i j),
        m' place = Statement.carryAll r (element i j) (entries r.elements k) place) ∧
      ∀ place, place ∉ k.stored r.bindings (element i j) → m' place = m place := by
  have means (s : Statement) (m' : Memory α) : k.scope.Means (station r k g l) names m' 1
      (fun _ => element i j) fun _ => r.elements.number 0 := by
    refine ⟨nofun, fun t named => ?_, fun t named => ?_, nofun⟩
    · cases named
      exact ⟨i, Term.number?_name row, fun _ => rfl⟩
    · cases named
      exact ⟨j, Term.number?_name col, fun _ => rfl⟩
  -- What is used at the element is stored there or nowhere.
  have used {s : Statement} (member : s ∈ k.statements) {leaf : Expr}
      (inside : leaf ∈ s.target :: s.value.leaves) {place : Place}
      (reads : leaf.place? r.bindings (element i j) = some place) :
      place ∈ (station r k g l).reads ∧ m place = r.memory place := by
    have elsewhere (i' : Nat) (below : i' < k.rows.size r.bindings) (j' : Nat)
        (before : j' < k.cols.size r.bindings) (other : ¬ (i' = i ∧ j' = j)) :
        place ∉ k.stored r.bindings (element i' j') := fun stored =>
      other (element_unique setting.apart below before mine.below mine.before stored member inside reads)
    refine ⟨?_, same place elsewhere⟩
    obtain ⟨x, n, rfl⟩ := Expr.exists_global_of_place reads
    by_cases here : .global x n ∈ k.stored r.bindings (element i j)
    · exact Or.inl ⟨i, j, mine, here⟩
    · refine Or.inr fun i' below j' before stored => ?_
      by_cases equal : i' = i ∧ j' = j
      · obtain ⟨rfl, rfl⟩ := equal
        exact here stored
      · exact elsewhere i' below j' before equal stored
  have keeps : ∀ entry ∈ entries r.elements k, entry.statement.Keeps r.bindings (element i j)
      {place | m place = r.memory place} := by
    intro entry inside
    obtain ⟨s, member, rfl⟩ := List.mem_map.mp inside
    exact ⟨fun place stored => (used member List.mem_cons_self stored).2,
      fun leaf value place reads => (used member (List.mem_cons_of_mem _ value) reads).2⟩
  refine (Statement.carries_lead r.host r.bindings (element i j) (fun _ => k.scope)
    (fun s => ⟨s, k.store s, r.elements.number 0⟩) setting.accepted.stores (fun s member => ?_)
    (fun s member => setting.known names settled s member) fun s member leaf value place reads =>
      (used member (List.mem_cons_of_mem _ value) reads).1).weaken ?_
  · obtain ⟨a, isMatrix, -⟩ := setting.accepted.targets s member
    obtain ⟨place, stored⟩ : ∃ place, s.target.place? r.bindings (element i j) = some place := by
      rw [isMatrix]
      exact ⟨_, rfl⟩
    obtain ⟨x, n, rfl⟩ := Expr.exists_global_of_place stored
    have cell : (x, n) ∈ (footing k r.bindings).cells g l := ⟨i, j, mine, s, member, stored⟩
    exact ⟨_, stored, ⟨Or.inl cell, cell⟩, fun m' _ => means s m'⟩
  · rintro names' m' - ⟨-, rfl⟩
    refine ⟨fun place ⟨s, member, stored⟩ => ?_, fun place outside => ?_⟩
    · exact Statement.carryAll_eqOn (r := r) keeps (fun _ => id)
        (used member List.mem_cons_self stored).2
    · refine Statement.carryAll_of_ne (r := ⟨r.elements, r.host, r.bindings, m⟩) fun entry inside => ?_
      obtain ⟨s, member, rfl⟩ := List.mem_map.mp inside
      exact fun stored => outside ⟨s, member, stored⟩

/-- **A worker carries out the statements at the elements of a row** that are of its part. -/
theorem cols_lead (setting : Setting r op k names₀) (below : i < k.rows.size r.bindings)
    (owner : Split.owner k.record.strided k.rowWorkers (k.rows.size r.bindings) i = globalRow g l)
    (settled : names₀.Same k.body.binders names) (row : names "row" = some (.index i))
    (same : ∀ place, (∀ i' < k.rows.size r.bindings, ∀ j < k.cols.size r.bindings, i' ≠ i →
      place ∉ k.stored r.bindings (element i' j)) → m place = r.memory place) :
    (station r k g l).Leads (k.colWalk.around k.stores) names m fun _ m' =>
      (∀ j, Mine k r.bindings g l i j → ∀ place ∈ k.stored r.bindings (element i j),
        m' place = Statement.carryAll r (element i j) (entries r.elements k) place) ∧
      ∀ place, (∀ j, Mine k r.bindings g l i j → place ∉ k.stored r.bindings (element i j)) →
        m' place = m place := by
  have plain := setting.accepted.binders_stores
  have inner : ∀ x ∈ k.colWalk.declared ++ "col" :: k.stores.binders,
      x ∈ (k.colWalk.around k.stores).binders := fun x bound =>
    Walk.mem_binders_split.mpr ((List.mem_append.mp bound).imp id List.mem_cons.mp)
  have after {names' : Names α} (same' : names.Same (k.colWalk.declared ++ "col" :: k.stores.binders)
      names') : names₀.Same k.body.binders names' := settled.trans (same'.mono fun x bound =>
    Walk.mem_binders_split.mpr (Or.inr (Or.inr (inner x bound))))
  refine (Station.Leads.splitParts (x := globalCol g l) (n := k.cols.size r.bindings)
    (fun j => k.stored r.bindings (element i j)) (fun j place cell =>
      cell = Statement.carryAll r (element i j) (entries r.elements k) place) (globalCol_lt g l) rfl rfl
    (plain ▸ List.not_mem_nil) (fun y _ => plain ▸ List.not_mem_nil) (fun names' same' => ?_) ?_
    ?_).weaken ?_
  · exact Extent.number?_term (setting.extents names' (after same')).2
  · rintro j j' place ⟨before, -⟩ ⟨before', -⟩ stored ⟨s, member, again⟩
    exact (element_unique setting.apart below before below before' stored member List.mem_cons_self
      again).2
  · rintro j ⟨before, mine⟩ names₁ m₁ same₁ col same'
    refine stores_lead setting ⟨below, before, owner, mine⟩ (after same₁) ?_ col fun place outside => ?_
    · refine (same₁ "row" fun bound => ?_).trans row
      exact rows_fresh plain "row" (List.mem_append_right _ List.mem_cons_self) (inner "row" bound)
    · rw [same' place fun j' ⟨before', _⟩ other => outside i below j' before' fun equal =>
        other equal.2]
      exact same place fun i' below' j' before' other => outside i' below' j' before' fun equal =>
        other equal.1
  · rintro _ m' - ⟨filled, frame⟩
    exact ⟨fun j mine => filled j ⟨mine.before, mine.col⟩, fun place outside =>
      frame place fun j ⟨before, mine⟩ => outside j ⟨below, before, owner, mine⟩⟩

/-- **A worker carries out the statements at all elements of its part.** -/
theorem body_leads (setting : Setting r op k names₀) :
    (station r k g l).Leads k.body names₀ r.memory fun _ m' => ∀ i j, Mine k r.bindings g l i j →
      ∀ place ∈ k.stored r.bindings (element i j),
        m' place = Statement.carryAll r (element i j) (entries r.elements k) place := by
  have fresh := rows_fresh setting.accepted.binders_stores
  have settled {names : Names α} (same : names₀.Same (k.rowWalk.declared ++
      "row" :: (k.colWalk.around k.stores).binders) names) : names₀.Same k.body.binders names :=
    same.mono fun x bound =>
      Walk.mem_binders_split.mpr ((List.mem_append.mp bound).imp id List.mem_cons.mp)
  refine (Station.Leads.splitParts (x := globalRow g l) (n := k.rows.size r.bindings)
    (fun i => {place | ∃ j, Mine k r.bindings g l i j ∧ place ∈ k.stored r.bindings (element i j)})
    (fun i place cell => ∀ j, Mine k r.bindings g l i j → place ∈ k.stored r.bindings (element i j) →
      cell = Statement.carryAll r (element i j) (entries r.elements k) place) (globalRow_lt g l) rfl rfl
    (fresh "row" (List.mem_append_right _ List.mem_cons_self))
    (fun y declared => fresh y (List.mem_append_left _ declared)) (fun names same => ?_) ?_ ?_).weaken ?_
  · exact Extent.number?_term (setting.extents names (settled same)).1
  · rintro i i' place - - ⟨j, one, stored⟩ ⟨j', other, s, member, again⟩
    exact (element_unique setting.apart one.below one.before other.below other.before stored member
      List.mem_cons_self again).1
  · rintro i ⟨below, owner⟩ names m same row others
    refine (cols_lead setting below owner (settled same) row fun place outside => ?_).weaken ?_
    · exact others place fun i' _ other ⟨j, mine, stored⟩ =>
        outside i' mine.below j mine.before other stored
    · rintro _ m' - ⟨filled, frame⟩
      exact ⟨fun place _ j mine stored => filled j mine place stored, fun place outside =>
        frame place fun j mine stored => outside ⟨j, mine, stored⟩⟩
  · rintro _ m' - ⟨filled, -⟩ i j mine place stored
    exact filled i ⟨mine.below, mine.row⟩ place ⟨j, mine, stored⟩ j mine stored

end Worker

/-! ### The kernel -/

/-- The kernel of an accepted operation, whose names and sizes are in order. What a statement stores at an
element is used at no other one. -/
structure Emitted (op : Operation) (bindings : Bindings) (k : Parts) (kernel : Kernel) : Prop where
  accepted : Accepted op k.record k
  collected : collectArguments op 1 = .ok kernel.arguments
  code : kernel.body = k.body
  proper : kernel.Proper
  sized : kernel.Sized bindings
  numerals : op.Numerals
  apart : Statement.Apart bindings (elements (k.rows.size bindings) (k.cols.size bindings)) op.statements

namespace Emitted

variable {kernel : Kernel}

/-- The names of the kernel stand for what its code takes them for. -/
theorem setting (emitted : Emitted op bindings k kernel) (valid : k.record.Valid) (e : Elements α)
    (host : String → α) (m : Memory α) :
    Setting ⟨e, host, bindings, m⟩ op k (kernel.names host bindings) where
  valid := valid
  accepted := emitted.accepted
  known names same s member := by
    rw [← emitted.code] at same
    have known {node : Expr} (inside : node ∈ op.nodes) : node.Known 1 host bindings names :=
      (Kernel.known emitted.collected (fun _ _ found => found) rfl emitted.numerals emitted.sized
        inside).mono (emitted.proper.kept same)
    rw [emitted.accepted.statements] at member
    exact ⟨known (Operation.mem_nodes_target member), fun leaf inside =>
      known (Operation.mem_nodes_value member (Expr.leaves_sub_nodes inside))⟩
  extents names same := by
    rw [← emitted.code] at same
    obtain ⟨a, target, rows, cols⟩ := emitted.accepted.exists_matrix
    obtain ⟨s, member, isMatrix⟩ := List.mem_map.mp target
    have extent {x : Extent} (inside : x ∈ (Expr.matrix a).extents) : x.Known bindings names :=
      (Kernel.known_extent emitted.collected (fun _ _ found => found) emitted.sized
        (isMatrix ▸ Operation.mem_nodes_target member) inside).mono (emitted.proper.kept same)
    exact ⟨rows ▸ extent a.logicalRows_mem_extents, cols ▸ extent a.logicalCols_mem_extents⟩
  apart := emitted.accepted.statements ▸ emitted.apart

/-- **The kernel carries out the statements at every element**, and leaves everything else in the buffers
as it was. -/
theorem ends (emitted : Emitted op bindings k kernel) (valid : k.record.Valid)
    (geometry : kernel.geometry = .plane k.record.localSize0.toNat k.record.localSize1.toNat
      (.fixed k.record.numGroups0.toNat) (.fixed k.record.numGroups1.toNat)) (e : Elements α)
    (host : String → α) (m : Memory α) :
    kernel.Ends host bindings e m fun m' =>
      (∀ i < k.rows.size bindings, ∀ j < k.cols.size bindings, ∀ place ∈ k.stored bindings (element i j),
        m' place = Statement.carryAll ⟨e, host, bindings, m⟩ (element i j) (entries e k) place) ∧
      ∀ x n, (∀ i < k.rows.size bindings, ∀ j < k.cols.size bindings,
        .global x n ∉ k.stored bindings (element i j)) → m' (.global x n) = m (.global x n) := by
  have setting := emitted.setting valid e host m
  have : Nonempty (launch k.record).Lane :=
    ⟨⟨0, valid.localSize0⟩, ⟨0, valid.localSize1⟩, ⟨0, Nat.one_pos⟩⟩
  have shaped : kernel.geometry.shape? bindings = some (launch k.record) := by
    rw [geometry]
    rfl
  refine Kernel.ends_of_footing shaped (separate setting.apart) (fun _ => ⟨fun _ => ∅, fun _ => ∅⟩)
    (fun _ => ⟨fun none => absurd none (Set.notMem_empty _), fun none => none⟩)
    (fun g m' => ∀ l i j, Mine k bindings g l i j → ∀ place ∈ k.stored bindings (element i j),
      m' place = Statement.carryAll ⟨e, host, bindings, m⟩ (element i j) (entries e k) place)
    (fun g => ?_) fun m' groups others => ⟨?_, fun x n none => others x n ?_⟩
  · rw [emitted.code]
    refine (Stage.Leads.work fun l => body_leads setting).weaken ?_
    rintro last - ⟨phase, -, each⟩ m' joins l i j mine place inside
    obtain ⟨s, member, stored⟩ := inside
    obtain ⟨x, n, rfl⟩ := Expr.exists_global_of_place stored
    rw [phase] at joins
    have cell : (x, n) ∈ (footing k bindings).cells g l := ⟨i, j, mine, s, member, stored⟩
    rw [Footing.joins_cell joins cell]
    exact each l i j mine _ ⟨s, member, stored⟩
  · rintro i below j before place ⟨s, member, stored⟩
    obtain ⟨g, l, mine⟩ := exists_mine valid below before
    obtain ⟨m₁, reached, agree⟩ := groups g
    obtain ⟨x, n, rfl⟩ := Expr.exists_global_of_place stored
    rw [agree l x n ⟨i, j, mine, s, member, stored⟩]
    exact reached l i j mine _ ⟨s, member, stored⟩
  · rintro g l ⟨i, j, mine, stored⟩
    exact none i mine.below j mine.before stored

end Emitted

end TunedKernel.MatrixStatements
