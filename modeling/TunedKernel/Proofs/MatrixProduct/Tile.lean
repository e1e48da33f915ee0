/-
**Local tiles, and the elements of the result.**

* `Fetches` — which elements of a tile a worker fetches; `exists_fetches` and `fetches_unique`: each
  element is fetched by exactly one worker.
* `fetchTile_leads` — what a worker leaves in a tile; `fetchLeft_eq` and `fetchRight_eq` say which.
* `leftTerm_gives`, `rightTerm_gives` — the operands' elements, from the tiles or from the buffers.
* `finish_leads` — what a worker leaves in the result.
-/

import TunedKernel.Proofs.MatrixProduct.Block

namespace TunedKernel.MatrixProduct

variable {α : Type} {q : Station α} {p : ProductTuning} {type : NumericType}
  {names names' : Names α} {m : Memory α} {bindings : Bindings}

/-! ### Which worker fetches what -/

/-- A worker fetches the elements at these positions along the axis that lies further apart in
memory and along the one that lies side by side. -/
def Fetches (p : ProductTuning) (w : Worker) (further nearer : Nat) : Prop :=
  further % p.localFetch1.toNat = flat p w / p.localFetch0.toNat ∧
    nearer % p.localFetch0.toNat = flat p w % p.localFetch0.toNat

/-- A worker stands in a group of the record's size. -/
structure InGroup (p : ProductTuning) (w : Worker) : Prop where
  first : w.lane.first < p.localSize0.toNat
  second : w.lane.second < p.localSize1.toNat

theorem InGroup.flat_lt {w : Worker} (inGroup : InGroup p w) :
    flat p w < p.localSize0.toNat * p.localSize1.toNat := by
  unfold flat
  calc w.lane.first + w.lane.second * p.localSize0.toNat
      < p.localSize0.toNat + w.lane.second * p.localSize0.toNat :=
        Nat.add_lt_add_right inGroup.first _
    _ = (w.lane.second + 1) * p.localSize0.toNat := by rw [Nat.succ_mul, Nat.add_comm]
    _ ≤ p.localSize1.toNat * p.localSize0.toNat := Nat.mul_le_mul_right _ inGroup.second
    _ = p.localSize0.toNat * p.localSize1.toNat := Nat.mul_comm ..

/-- The number of a worker tells it from the others of its group. -/
theorem flat_injective {w w' : Worker} (inGroup : InGroup p w) (inGroup' : InGroup p w')
    (same : flat p w = flat p w') :
    w.lane.first = w'.lane.first ∧ w.lane.second = w'.lane.second := by
  unfold flat at same
  have positive : 0 < p.localSize0.toNat := Nat.zero_lt_of_lt inGroup.first
  have first := congrArg (· % p.localSize0.toNat) same
  simp only [Nat.add_mul_mod_self_right, Nat.mod_eq_of_lt inGroup.first,
    Nat.mod_eq_of_lt inGroup'.first] at first
  refine ⟨first, ?_⟩
  rw [first] at same
  exact Nat.eq_of_mul_eq_mul_right positive (Nat.add_left_cancel same)

/-- No two workers of a group fetch the same element. -/
theorem fetches_unique {w w' : Worker} (inGroup : InGroup p w) (inGroup' : InGroup p w')
    {further nearer : Nat} (fetches : Fetches p w further nearer)
    (fetches' : Fetches p w' further nearer) :
    w.lane.first = w'.lane.first ∧ w.lane.second = w'.lane.second := by
  refine flat_injective inGroup inGroup' ?_
  have quotient := fetches.1.symm.trans fetches'.1
  have remainder := fetches.2.symm.trans fetches'.2
  calc flat p w = p.localFetch0.toNat * (flat p w / p.localFetch0.toNat) +
        flat p w % p.localFetch0.toNat := (Nat.div_add_mod ..).symm
    _ = p.localFetch0.toNat * (flat p w' / p.localFetch0.toNat) +
        flat p w' % p.localFetch0.toNat := by rw [quotient, remainder]
    _ = flat p w' := Nat.div_add_mod ..

/-- Every element is fetched by some worker of the group. -/
theorem exists_fetches (valid : p.Valid) (staged : p.staged = true) (further nearer : Nat) :
    ∃ x y, x < p.localSize0.toNat ∧ y < p.localSize1.toNat ∧ ∀ w : Worker,
      w.lane.first = x → w.lane.second = y → Fetches p w further nearer := by
  have near := Nat.mod_lt nearer valid.fetch0
  have far := Nat.mod_lt further valid.fetch1
  -- The number of the worker whose residues are those of the element.
  obtain ⟨n, number⟩ : ∃ n, n = further % p.localFetch1.toNat * p.localFetch0.toNat +
    nearer % p.localFetch0.toNat := ⟨_, rfl⟩
  have below : n < p.localSize1.toNat * p.localSize0.toNat := by
    rw [Nat.mul_comm, ← valid.fetch staged, Nat.mul_comm]
    calc n < further % p.localFetch1.toNat * p.localFetch0.toNat + p.localFetch0.toNat := by omega
      _ = (further % p.localFetch1.toNat + 1) * p.localFetch0.toNat := (Nat.succ_mul ..).symm
      _ ≤ p.localFetch1.toNat * p.localFetch0.toNat := Nat.mul_le_mul_right _ far
  refine ⟨n % p.localSize0.toNat, n / p.localSize0.toNat, Nat.mod_lt _ valid.localSize0,
    Nat.div_lt_of_lt_mul (by rw [Nat.mul_comm]; exact below), fun w first second => ?_⟩
  have flatN : flat p w = n := by
    rw [flat, first, second, Nat.mul_comm, Nat.mod_add_div]
  unfold Fetches
  rw [flatN, number, Nat.mul_comm, Nat.mul_add_div valid.fetch0, Nat.div_eq_of_lt near, Nat.add_zero,
    Nat.mul_add_mod, Nat.mod_mod]
  exact ⟨rfl, rfl⟩

/-! ### Fetching -/

/-- How a worker counts along the axis that lies further apart in memory. -/
theorem Ready.counts_further {w : Worker} (ready : Ready p w names) (valid : p.Valid)
    (staged : p.staged = true) (extent : Nat) :
    (Walk.cooperative "a" (v "fid1") extent p.localFetch1.toNat).loop.Counts w names ["a", "b"]
      (flat p w / p.localFetch0.toNat) p.localFetch1.toNat extent :=
  Walk.counts_cooperative "a" valid.fetch1 fun _ same =>
    Term.number?_name ((same "fid1" (show "fid1" ∉ ["a", "b"] by decide)).trans (ready.fid1 staged))

/-- How it counts along the one that lies side by side. -/
theorem Ready.counts_nearer {w : Worker} (ready : Ready p w names) (valid : p.Valid)
    (staged : p.staged = true) (extent : Nat) :
    (Walk.cooperative "b" (v "fid0") extent p.localFetch0.toNat).loop.Counts w names ["a", "b"]
      (flat p w % p.localFetch0.toNat) p.localFetch0.toNat extent :=
  Walk.counts_cooperative "b" valid.fetch0 fun _ same =>
    Term.number?_name ((same "fid0" (show "fid0" ∉ ["a", "b"] by decide)).trans (ready.fid0 staged))

/-- A worker fetches its share of a tile, for any way in which the two axes lie in the tile. -/
theorem fetch_leads (valid : p.Valid) (staged : p.staged = true) (inGroup : InGroup p q.worker)
    (ready : Ready p q.worker names) {further nearer : Nat} {target source : Term}
    (place : Nat → Nat → Place) (value : Nat → Nat → α) (access : ∀ name, target ≠ .name name)
    (injective : ∀ i j i' j', place i j = place i' j' → i = i' ∧ j = j')
    (inside : ∀ i < further, ∀ j < nearer, Fetches p q.worker i j →
      place i j ∈ q.reads ∩ q.writes)
    (here : ∀ i < further, ∀ j < nearer, ∀ names', names.Same ["a", "b"] names' →
      names' "a" = some (.index i) → names' "b" = some (.index j) →
      q.At names' target (place i j))
    (gives : ∀ i < further, ∀ j < nearer, ∀ names' m', names.Same ["a", "b"] names' →
      names' "a" = some (.index i) → names' "b" = some (.index j) →
      (∀ p', (∀ i j, p' ≠ place i j) → m' p' = m p') →
      q.Gives names' m' source fun _ => value i j) :
    q.Leads (fetch p further nearer target source) names m fun _ m' =>
      (∀ i < further, ∀ j < nearer, Fetches p q.worker i j →
        (m' (place i j)).value = value i j) ∧
      ∀ p', (∀ i < further, ∀ j < nearer, Fetches p q.worker i j → p' ≠ place i j) →
        m' p' = m p' := by
  have far : flat p q.worker / p.localFetch0.toNat < p.localFetch1.toNat := by
    refine Nat.div_lt_of_lt_mul ?_
    rw [valid.fetch staged]
    exact inGroup.flat_lt
  have near := Nat.mod_lt (flat p q.worker) valid.fetch0
  have visits {i j : Nat} (row : i < further) (col : j < nearer)
      (mine : Fetches p q.worker i j) :
      Visits (flat p q.worker / p.localFetch0.toNat) p.localFetch1.toNat further i ∧
        Visits (flat p q.worker % p.localFetch0.toNat) p.localFetch0.toNat nearer j :=
    ⟨(visits_iff far).mpr ⟨row, mine.1⟩, (visits_iff near).mpr ⟨col, mine.2⟩⟩
  have binders : (put target source).binders = [] := Code.binders_store access
  have counts₁ := ready.counts_further valid staged further
  have counts₂ := ready.counts_nearer valid staged nearer
  show q.Leads (Code.ofLoop (Walk.cooperative "a" _ _ _).loop
    (Code.ofLoop (Walk.cooperative "b" _ _ _).loop (put _ _))) _ _ _
  refine (Station.Leads.grid place (fun i j cell => cell.value = value i j)
    (binders.symm ▸ counts₁) (binders.symm ▸ counts₂) (show "a" ≠ "b" by decide)
    (binders ▸ List.not_mem_nil) (binders ▸ List.not_mem_nil)
    (fun i j i' j' _ _ _ _ => injective i j i' j') ?_).weaken ?_
  · intro i j row col names' m' same atA atB _ others
    rw [binders] at same
    obtain ⟨row, mineRow⟩ := (visits_iff far).mp row
    obtain ⟨col, mineCol⟩ := (visits_iff near).mp col
    exact Station.Leads.store access (here i row j col names' same atA atB)
      (inside i row j col ⟨mineRow, mineCol⟩) (gives i row j col names' m' same atA atB
        fun p' other => others p' fun i' j' _ _ => other i' j')
  · rintro _ m' - ⟨filled, others⟩
    refine ⟨fun i row j col mine => ?_, fun p' other => others p' fun i j row col => ?_⟩
    · exact filled i j (visits row col mine).1 (visits row col mine).2
    · obtain ⟨row, mineRow⟩ := (visits_iff far).mp row
      obtain ⟨col, mineCol⟩ := (visits_iff near).mp col
      exact other i row j col ⟨mineRow, mineCol⟩

/-- The code that fills a tile, along its depth or across it. -/
def fetchTile (p : ProductTuning) (deep : Bool) (tile : LocalMemory) (extent : Nat)
    (source : Term → Term → Term) : Code :=
  if deep then fetch p p.kl.toNat extent (tile.access [v "a", v "b"]) (source (v "a") (v "b"))
  else fetch p extent p.kl.toNat (tile.access [v "b", v "a"]) (source (v "b") (v "a"))

theorem fetchLeft_eq (t : Tiling) (a : MatrixOperand) :
    fetchLeft t a = fetchTile t.record a.rowsAdjacent t.left t.ml fun depth across =>
      a.element (v "gm" + across) (v "k0" + depth) := by
  unfold fetchLeft fetchTile
  cases a.rowsAdjacent <;> rfl

theorem fetchRight_eq (t : Tiling) (b : MatrixOperand) :
    fetchRight t b = fetchTile t.record (!b.rowsAdjacent) t.right t.nl fun depth across =>
      b.element (v "k0" + depth) (v "gn" + across) := by
  unfold fetchRight fetchTile
  cases b.rowsAdjacent <;> rfl

/-- The elements of a tile that a worker fetches, by their depth and how far across they lie. -/
def Fills (p : ProductTuning) (deep : Bool) (w : Worker) (depth across : Nat) : Prop :=
  if deep then Fetches p w depth across else Fetches p w across depth

theorem fills_unique {deep : Bool} {w w' : Worker} (inGroup : InGroup p w) (inGroup' : InGroup p w')
    {depth across : Nat} (fills : Fills p deep w depth across)
    (fills' : Fills p deep w' depth across) :
    w.lane.first = w'.lane.first ∧ w.lane.second = w'.lane.second := by
  cases deep
  · exact fetches_unique inGroup inGroup' fills fills'
  · exact fetches_unique inGroup inGroup' fills fills'

theorem exists_fills (valid : p.Valid) (staged : p.staged = true) (deep : Bool)
    (depth across : Nat) :
    ∃ x y, x < p.localSize0.toNat ∧ y < p.localSize1.toNat ∧ ∀ w : Worker,
      w.lane.first = x → w.lane.second = y → Fills p deep w depth across := by
  cases deep
  · exact exists_fetches valid staged across depth
  · exact exists_fetches valid staged depth across

theorem shared_injective {group : Triple Nat} {array : String} {i j i' j' : Nat}
    (same : Place.shared group array [i, j] = .shared group array [i', j']) :
    i = i' ∧ j = j' := by
  simpa using same

/-- **A worker fetches its share of a tile**, and changes nothing else. -/
theorem fetchTile_leads (valid : p.Valid) (staged : p.staged = true) (inGroup : InGroup p q.worker)
    (ready : Ready p q.worker names) {deep : Bool} {tile : LocalMemory} {extent : Nat}
    {source : Term → Term → Term} (value : Nat → Nat → α)
    (bound : names tile.name = some (.sharedArray [p.kl.toNat, extent + 1]))
    (fresh : tile.name ∉ ["a", "b"])
    (inside : ∀ k < p.kl.toNat, ∀ x < extent, Fills p deep q.worker k x →
      .shared q.worker.group tile.name [k, x] ∈ q.reads ∩ q.writes)
    (gives : ∀ k < p.kl.toNat, ∀ x < extent, ∀ depth across names' m', names.Same ["a", "b"] names' →
      depth.number? q.worker names' = some k → across.number? q.worker names' = some x →
      (∀ place, (∀ k x, place ≠ .shared q.worker.group tile.name [k, x]) → m' place = m place) →
      q.Gives names' m' (source depth across) fun _ => value k x) :
    q.Leads (fetchTile p deep tile extent source) names m fun _ m' =>
      (∀ k < p.kl.toNat, ∀ x < extent, Fills p deep q.worker k x →
        (m' (.shared q.worker.group tile.name [k, x])).value = value k x) ∧
      ∀ place, (∀ k < p.kl.toNat, ∀ x < extent, Fills p deep q.worker k x →
        place ≠ .shared q.worker.group tile.name [k, x]) → m' place = m place := by
  have access {names' : Names α} {k x : Nat} {s t : Term}
      (same : names.Same ["a", "b"] names') (first : s.number? q.worker names' = some k)
      (second : t.number? q.worker names' = some x) (below₁ : k < p.kl.toNat) (below₂ : x < extent) :
      q.At names' (tile.access [s, t]) (.shared q.worker.group tile.name [k, x]) :=
    Station.at_shared ((same _ fresh).trans bound) (Term.mapM_pair first second)
      (Term.inside_pair below₁ (Nat.lt_succ_of_lt below₂))
  cases deep with
  | true =>
    refine fetch_leads valid staged inGroup ready
      (fun k x => .shared q.worker.group tile.name [k, x]) value (fun _ => Term.noConfusion)
      (fun _ _ _ _ => shared_injective) inside ?_ ?_
    · intro k depth x across names' same atA atB
      exact access same (Term.number?_name atA) (Term.number?_name atB) depth across
    · intro k depth x across names' m' same atA atB others
      exact gives k depth x across _ _ names' m' same (Term.number?_name atA)
        (Term.number?_name atB) others
  | false =>
    refine (fetch_leads valid staged inGroup ready
      (fun x k => .shared q.worker.group tile.name [k, x]) (fun x k => value k x)
      (fun _ => Term.noConfusion) (fun _ _ _ _ same => (shared_injective same).symm)
      (fun x across k depth => inside k depth x across) ?_ ?_).weaken ?_
    · intro x across k depth names' same atA atB
      exact access same (Term.number?_name atB) (Term.number?_name atA) depth across
    · intro x across k depth names' m' same atA atB others
      exact gives k depth x across _ _ names' m' same (Term.number?_name atB)
        (Term.number?_name atA) fun place none => others place fun x k => none k x
    · rintro _ m' - ⟨filled, others⟩
      exact ⟨fun k depth x across => filled x across k depth,
        fun place none => others place fun x across k depth => none k depth x across⟩

/-! ### Elements of the operands -/

/-- The row of the result that a worker's register row stands for. -/
def rowOf (p : ProductTuning) (w : Worker) (i : Nat) : Nat :=
  w.group.first * (p.localSize0.toNat * p.ms.toNat) + (w.lane.first + i * p.localSize0.toNat)

/-- The column of the result that a worker's register column stands for. -/
def colOf (p : ProductTuning) (w : Worker) (j : Nat) : Nat :=
  w.group.second * (p.localSize1.toNat * p.ns.toNat) + (w.lane.second + j * p.localSize1.toNat)

/-- A position inside a tile, for a worker in its group and a register of its block. -/
theorem block_lt {x size i count : Nat} (lane : x < size) (register : i < count) :
    x + i * size < size * count := by
  calc x + i * size < size + i * size := Nat.add_lt_add_right lane _
    _ = size * (i + 1) := by rw [Nat.mul_succ, Nat.mul_comm, Nat.add_comm]
    _ ≤ size * count := Nat.mul_le_mul_left _ register

theorem number?_blockRow {w : Worker} {i : Nat} (ready : Ready p w names)
    (atM : names "m" = some (.index i)) : (blockRow p).number? w names =
      some (w.lane.first + i * p.localSize0.toNat) :=
  Term.number?_add (Term.number?_name ready.lid0) (Term.number?_mul (Term.number?_name atM) rfl)

theorem number?_blockCol {w : Worker} {j : Nat} (ready : Ready p w names)
    (atN : names "n" = some (.index j)) : (blockCol p).number? w names =
      some (w.lane.second + j * p.localSize1.toNat) :=
  Term.number?_add (Term.number?_name ready.lid1) (Term.number?_mul (Term.number?_name atN) rfl)

theorem number?_resultRow {w : Worker} {i : Nat} (ready : Ready p w names)
    (atM : names "m" = some (.index i)) :
    (resultRow p).number? w names = some (rowOf p w i) := by
  rw [rowOf, ← Nat.add_assoc]
  exact Term.number?_add (Term.number?_add (Term.number?_name ready.gm)
    (Term.number?_name ready.lid0)) (Term.number?_mul (Term.number?_name atM) rfl)

theorem number?_resultCol {w : Worker} {j : Nat} (ready : Ready p w names)
    (atN : names "n" = some (.index j)) :
    (resultCol p).number? w names = some (colOf p w j) := by
  rw [colOf, ← Nat.add_assoc]
  exact Term.number?_add (Term.number?_add (Term.number?_name ready.gn)
    (Term.number?_name ready.lid1)) (Term.number?_mul (Term.number?_name atN) rfl)

/-- The element of a matrix at a row and column. -/
theorem element_gives {host : String → α} {a : MatrixOperand} {row col : Term} {i j : Nat}
    (known : (Expr.matrix a).Known 1 host bindings names)
    (atRow : row.number? q.worker names = some i) (atCol : col.number? q.worker names = some j)
    (inside : .global a.name (a.position bindings i j) ∈ q.reads) :
    q.Gives names m (a.element row col) fun _ =>
      (m (.global a.name (a.position bindings i j))).value := by
  have found := Term.spot?_buffer (w := q.worker) known.1
    (MatrixOperand.number?_offset known.2.1 known.2.2 atRow atCol)
  rw [Spot.packed_one] at found
  exact .at found inside

theorem number?_depth {w : Worker} {k₀ k u : Nat} (atTile : names "k0" = some (.index k₀))
    (atStep : names "k" = some (.index k)) (atDepth : names "kk" = some (.index u)) :
    (v "k0" + v "k" + v "kk").number? w names = some (k₀ + (k + u)) := by
  rw [← Nat.add_assoc]
  exact Term.number?_add (Term.number?_add (Term.number?_name atTile) (Term.number?_name atStep))
    (Term.number?_name atDepth)

/-- **An element of the left operand**, from its tile or from its buffer. -/
theorem leftTerm_gives {problem : Problem} {host : String → α} {value : Nat → Nat → α} {k₀ : Nat}
    (ready : Ready p q.worker names) (inGroup : InGroup p q.worker)
    (atTile : names "k0" = some (.index k₀))
    (tile : p.stageLeft = true → ∀ d < p.kl.toNat, ∀ r < p.localSize0.toNat * p.ms.toNat,
      .shared q.worker.group "lA" [d, r] ∈ q.reads ∧
        (m (.shared q.worker.group "lA" [d, r])).value = value r d)
    (known : ∀ names', names.Same ["k", "kk", "m", "n"] names' →
      (Expr.matrix problem.lhs).Known 1 host bindings names')
    (buffer : p.stageLeft = false → ∀ d < p.kl.toNat, ∀ i < p.ms.toNat,
      .global problem.lhs.name (problem.lhs.position bindings (rowOf p q.worker i) (k₀ + d)) ∈
        q.reads ∧
      (m (.global problem.lhs.name
        (problem.lhs.position bindings (rowOf p q.worker i) (k₀ + d)))).value =
          value (q.worker.lane.first + i * p.localSize0.toNat) d)
    {k u i : Nat} (depth : k + u < p.kl.toNat) (row : i < p.ms.toNat) {m' : Memory α}
    (same : names.Same ["k", "kk", "m", "n"] names') (atStep : names' "k" = some (.index k))
    (atDepth : names' "kk" = some (.index u)) (atM : names' "m" = some (.index i))
    (unchanged : q.worker.Private m m') :
    q.Gives names' m' (leftTerm (.of p type) problem) fun _ =>
      value (q.worker.lane.first + i * p.localSize0.toNat) (k + u) := by
  have ready' := ready.after
    (same.mono (show ∀ x ∈ ["k", "kk", "m", "n"], x ∈ loopNames by decide))
  unfold leftTerm
  cases staged : p.stageLeft with
  | true =>
    have below := block_lt inGroup.first row
    obtain ⟨read, content⟩ := tile staged (k + u) depth _ below
    rw [← content, ← unchanged _ fun _ _ => Place.noConfusion]
    rw [if_pos (show (Tiling.of p type).record.stageLeft = true from staged)]
    exact .at (Station.at_shared (ready'.left staged) (Term.mapM_pair (Term.number?_add
      (Term.number?_name atStep) (Term.number?_name atDepth)) (number?_blockRow ready' atM))
      (Term.inside_pair depth (Nat.lt_succ_of_lt below))) read
  | false =>
    obtain ⟨read, content⟩ := buffer staged (k + u) depth i row
    rw [← content, ← unchanged _ fun _ _ => Place.noConfusion]
    rw [if_neg (show ¬ (Tiling.of p type).record.stageLeft = true from
      fun absurd => Bool.noConfusion (staged.symm.trans absurd))]
    exact element_gives (known names' same) (number?_resultRow ready' atM)
      (number?_depth ((same "k0" (show "k0" ∉ ["k", "kk", "m", "n"] by decide)).trans atTile)
        atStep atDepth) read

/-- **An element of the right operand**, from its tile or from its buffer. -/
theorem rightTerm_gives {problem : Problem} {host : String → α} {value : Nat → Nat → α} {k₀ : Nat}
    (ready : Ready p q.worker names) (inGroup : InGroup p q.worker)
    (atTile : names "k0" = some (.index k₀))
    (tile : p.stageRight = true → ∀ d < p.kl.toNat, ∀ c < p.localSize1.toNat * p.ns.toNat,
      .shared q.worker.group "lB" [d, c] ∈ q.reads ∧
        (m (.shared q.worker.group "lB" [d, c])).value = value c d)
    (known : ∀ names', names.Same ["k", "kk", "m", "n"] names' →
      (Expr.matrix problem.rhs).Known 1 host bindings names')
    (buffer : p.stageRight = false → ∀ d < p.kl.toNat, ∀ j < p.ns.toNat,
      .global problem.rhs.name (problem.rhs.position bindings (k₀ + d) (colOf p q.worker j)) ∈
        q.reads ∧
      (m (.global problem.rhs.name
        (problem.rhs.position bindings (k₀ + d) (colOf p q.worker j)))).value =
          value (q.worker.lane.second + j * p.localSize1.toNat) d)
    {k u j : Nat} (depth : k + u < p.kl.toNat) (col : j < p.ns.toNat) {m' : Memory α}
    (same : names.Same ["k", "kk", "m", "n"] names') (atStep : names' "k" = some (.index k))
    (atDepth : names' "kk" = some (.index u)) (atN : names' "n" = some (.index j))
    (unchanged : q.worker.Private m m') :
    q.Gives names' m' (rightTerm (.of p type) problem) fun _ =>
      value (q.worker.lane.second + j * p.localSize1.toNat) (k + u) := by
  have ready' := ready.after
    (same.mono (show ∀ x ∈ ["k", "kk", "m", "n"], x ∈ loopNames by decide))
  unfold rightTerm
  cases staged : p.stageRight with
  | true =>
    have below := block_lt inGroup.second col
    obtain ⟨read, content⟩ := tile staged (k + u) depth _ below
    rw [← content, ← unchanged _ fun _ _ => Place.noConfusion]
    rw [if_pos (show (Tiling.of p type).record.stageRight = true from staged)]
    exact .at (Station.at_shared (ready'.right staged) (Term.mapM_pair (Term.number?_add
      (Term.number?_name atStep) (Term.number?_name atDepth)) (number?_blockCol ready' atN))
      (Term.inside_pair depth (Nat.lt_succ_of_lt below))) read
  | false =>
    obtain ⟨read, content⟩ := buffer staged (k + u) depth j col
    rw [← content, ← unchanged _ fun _ _ => Place.noConfusion]
    rw [if_neg (show ¬ (Tiling.of p type).record.stageRight = true from
      fun absurd => Bool.noConfusion (staged.symm.trans absurd))]
    exact element_gives (known names' same) (number?_depth
      ((same "k0" (show "k0" ∉ ["k", "kk", "m", "n"] by decide)).trans atTile) atStep atDepth)
      (number?_resultCol ready' atN) read

/-! ### The result -/

/-- The element of the result that a worker's register stands for. -/
def pointOf (p : ProductTuning) (w : Worker) (i j : Nat) : Point :=
  { row := rowOf p w i, col := colOf p w j }

/-- The scope of the statement means the element of the register. -/
theorem resultScope_means {i j : Nat} {sum : α} (ready : Ready p q.worker names) (owns : q.Owns)
    (row : names "row" = some (.index (rowOf p q.worker i)))
    (col : names "col" = some (.index (colOf p q.worker j)))
    (atM : names "m" = some (.index i)) (atN : names "n" = some (.index j)) (below : i < p.ms.toNat)
    (below' : j < p.ns.toNat) (sums : (m (.own q.worker.group q.worker.lane "rC" [i, j])).value = sum) :
    (resultScope type).Means q names m 1 (fun _ => pointOf p q.worker i j) fun _ => sum where
  index _ addressed := nomatch addressed
  row t addressed := by
    cases addressed
    exact ⟨_, Term.number?_name row, fun _ => rfl⟩
  col t addressed := by
    cases addressed
    exact ⟨_, Term.number?_name col, fun _ => rfl⟩
  product t addressed := by
    cases addressed
    rw [← sums]
    exact .at (at_register ready.rC (Term.number?_name atM) (Term.number?_name atN) below below')
      (owns _ _).1

/-- **A worker carries out the statement for every element of its block**, and changes nothing
else. -/
theorem finish_leads {host : String → α} {s : Statement} {store : Step}
    {place : Nat → Nat → Place} {sums : Nat → Nat → α} (ready : Ready p q.worker names)
    (owns : q.Owns) (emitted : s.storeStep (resultScope type) = .ok store)
    (free : store.binder? = none)
    (known : ∀ names', names.Same ["m", "n", "row", "col"] names' →
      s.target.Known 1 host bindings names' ∧
        ∀ leaf ∈ s.value.leaves, leaf.Known 1 host bindings names')
    (targets : ∀ i < p.ms.toNat, ∀ j < p.ns.toNat,
      s.target.place? bindings (pointOf p q.worker i j) = some (place i j))
    (isGlobal : ∀ i j, ∃ buffer n, place i j = .global buffer n)
    (injective : ∀ i < p.ms.toNat, ∀ j < p.ns.toNat, ∀ i' < p.ms.toNat, ∀ j' < p.ns.toNat,
      place i j = place i' j' → i = i' ∧ j = j')
    (inside : ∀ i < p.ms.toNat, ∀ j < p.ns.toNat, place i j ∈ q.reads ∩ q.writes)
    (reads : ∀ i < p.ms.toNat, ∀ j < p.ns.toNat, ∀ leaf ∈ s.value.leaves, ∀ p',
      leaf.place? bindings (pointOf p q.worker i j) = some p' → p' ∈ q.reads ∧
        (p' = place i j ∨ ∀ i' < p.ms.toNat, ∀ j' < p.ns.toNat, p' ≠ place i' j'))
    (held : ∀ i < p.ms.toNat, ∀ j < p.ns.toNat,
      (m (.own q.worker.group q.worker.lane "rC" [i, j])).value = sums i j) :
    q.Leads (finish p store) names m fun _ m' =>
      (∀ i < p.ms.toNat, ∀ j < p.ns.toNat, m' (place i j) =
        s.outcome ⟨q.elements, host, bindings, m⟩ (sums i j) (pointOf p q.worker i j) store
          (m (place i j))) ∧
      ∀ p', (∀ i < p.ms.toNat, ∀ j < p.ns.toNat, p' ≠ place i j) → m' p' = m p' := by
  have binders : (Code.ofSteps [.declare .index "row" (resultRow p),
      .declare .index "col" (resultCol p), store]).binders = ["row", "col"] := by
    show ["row"] ++ (["col"] ++ (store.binder?.toList ++ [])) = _
    rw [free]
    rfl
  show q.Leads (Code.ofLoop (Walk.counted "m" _).loop (Code.ofLoop (Walk.counted "n" _).loop
    (Code.ofSteps _))) _ _ _
  refine (Station.Leads.grid place (fun i j cell => cell =
        s.outcome ⟨q.elements, host, bindings, m⟩ (sums i j) (pointOf p q.worker i j) store
          (m (place i j))) (Walk.counts_counted ..)
    (Walk.counts_counted ..) (show "m" ≠ "n" by decide) ?_ ?_ ?_ ?_).weaken ?_
  · rw [binders]
    exact show "m" ∉ ["row", "col"] by decide
  · rw [binders]
    exact show "n" ∉ ["row", "col"] by decide
  · intro i j i' j' row col row' col'
    exact injective i (visits_one.mp row) j (visits_one.mp col) i' (visits_one.mp row') j'
      (visits_one.mp col')
  · intro i j row col names' m' same atM atN here others
    rw [binders] at same
    replace row := visits_one.mp row
    replace col := visits_one.mp col
    have inLoops : ∀ x ∈ ["m", "n", "row", "col"], x ∈ loopNames := by decide
    have ready' := ready.after (same.mono inLoops)
    refine .declareIndex (number?_resultRow ready' atM) ?_
    have atN' : (names'.bind "row" (.index (rowOf p q.worker i))) "n" = some (.index j) :=
      (Names.bind_of_ne (show "n" ≠ "row" by decide)).trans atN
    have same' := same.bind (show "row" ∈ ["m", "n", "row", "col"] by decide)
      (.index (rowOf p q.worker i))
    refine .declareIndex (number?_resultCol (ready.after (same'.mono inLoops)) atN') ?_
    have sum : (m' (.own q.worker.group q.worker.lane "rC" [i, j])).value = sums i j := by
      rw [others _ fun i' j' _ _ equal => ?_, held i row j col]
      obtain ⟨buffer, n, global⟩ := isGlobal i' j'
      exact Place.noConfusion (equal.trans global)
    have last := same'.bind (show "col" ∈ ["m", "n", "row", "col"] by decide)
      (.index (colOf p q.worker j))
    have means : (resultScope type).Means q _ m' 1 _ _ :=
      resultScope_means (ready.after (last.mono inLoops)) owns
        ((Names.bind_of_ne (show "row" ≠ "col" by decide)).trans (Names.bind_self ..))
        (Names.bind_self ..) ((Names.bind_of_ne (show "m" ≠ "col" by decide)).trans
          ((Names.bind_of_ne (show "m" ≠ "row" by decide)).trans atM))
        ((Names.bind_of_ne (show "n" ≠ "col" by decide)).trans atN') row col sum
    refine (Statement.leads emitted means (known _ last).1 (targets i row j col)
      (inside i row j col) (known _ last).2
      fun leaf member _ p' stored => (reads i row j col leaf member p' stored).1).weaken ?_
    rintro _ m'' - ⟨-, rfl⟩
    refine ⟨?_, fun p' ne => Function.update_of_ne ne _ _⟩
    rw [Function.update_self, here]
    refine Statement.outcome_congr s rfl rfl rfl fun leaf member p' stored => ?_
    rcases (reads i row j col leaf member p' stored).2 with rfl | other
    · exact here
    · exact others p' fun i' j' row' col' => other i' (visits_one.mp row') j' (visits_one.mp col')
  · rintro _ m' - ⟨filled, others⟩
    refine ⟨fun i row j col => filled i j (visits_one.mpr row) (visits_one.mpr col), ?_⟩
    exact fun p' other => others p' fun i j row col =>
      other i (visits_one.mp row) j (visits_one.mp col)

end TunedKernel.MatrixProduct
