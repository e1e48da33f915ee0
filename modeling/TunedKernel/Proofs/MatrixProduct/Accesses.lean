/-
**What the kernel of a matrix product accesses.**

* `Reads` — the operands are read at the rows and columns of the tiles, and along the shared dimension as
  far as the tiles go; the other leaves of the statement at the elements of the tiles.
* `fetchTile_passes`, `advance_passes`, `tile_passes`, `finish_passes`, `body_passes` — what a worker
  accesses as it fills the tiles, takes in their terms, and in all.
* `Covers`, `generate_orderly` — the kernel of an accepted operation; what has to hold of the operands for
  every leaf to have the elements that are read.
-/

import TunedKernel.Proofs.Batch.Accesses
import TunedKernel.Proofs.MatrixProduct.Correctness

namespace TunedKernel.MatrixProduct

variable {op : Operation} {p : ProductTuning} {type : NumericType} {problem : Problem}
  {target : MatrixOperand} {store : Step} {bindings : Bindings} {arrays : List (String × List Nat)}
  {names₀ names : Names Unit} {groups₀ groups₁ : Nat} {g : (launch p groups₀ groups₁).Group}
  {l : (launch p groups₀ groups₁).Lane}

/-! ### Allowed accesses -/

/-- A position along the shared dimension that lies in one of the tiles. -/
def Deep (p : ProductTuning) (problem : Problem) (bindings : Bindings) (n : Nat) : Prop :=
  ∃ k₀ d, Visits 0 p.kl.toNat (problem.lhs.logicalCols.size bindings) k₀ ∧ d < p.kl.toNat ∧ n = k₀ + d

/-- Whole tiles do not go beyond the shared dimension. -/
theorem Deep.lt {n : Nat} (deep : Deep p problem bindings n)
    (whole : p.kl.toNat ∣ problem.lhs.logicalCols.size bindings) :
    n < problem.lhs.logicalCols.size bindings := by
  obtain ⟨_, d, begins, inside, rfl⟩ := deep
  exact begins.add_lt whole inside

/-- The points at which a leaf is read. -/
def Reads (p : ProductTuning) (problem : Problem) (bindings : Bindings) (groups₀ groups₁ : Nat)
    (leaf : Expr) (point : Point) : Prop :=
  (leaf = .matrix problem.lhs ∧ point.row < groups₀ * (p.localSize0.toNat * p.ms.toNat) ∧
      Deep p problem bindings point.col) ∨
    (leaf = .matrix problem.rhs ∧ Deep p problem bindings point.row ∧
      point.col < groups₁ * (p.localSize1.toNat * p.ns.toNat)) ∨
    leaf ∈ problem.statement.target.leaves ++ problem.statement.value.leaves ∧
      point.row < groups₀ * (p.localSize0.toNat * p.ms.toNat) ∧
      point.col < groups₁ * (p.localSize1.toNat * p.ns.toNat)

/-- A worker that keeps to the arrays given and to the leaves of the statement. -/
abbrev watch (problem : Problem) (bindings : Bindings) (arrays : List (String × List Nat))
    (g : (launch p groups₀ groups₁).Group) (l : (launch p groups₀ groups₁).Lane) : Watch :=
  .of bindings arrays (Reads p problem bindings groups₀ groups₁) ((launch p groups₀ groups₁).worker g l)

/-- The kernel of an accepted operation with the arrays that it uses; the extents of its operands keep
their sizes. -/
structure Served (op : Operation) (p : ProductTuning) (problem : Problem) (target : MatrixOperand)
    (store : Step) (bindings : Bindings) (arrays : List (String × List Nat)) (names₀ : Names Unit) :
    Prop where
  valid : p.Valid
  accepted : Accepted op problem target
  stored : problem.statement.storeStep (resultScope op.numericType) = .ok store
  left : p.stageLeft = true →
    ("lA", [p.kl.toNat, p.localSize0.toNat * p.ms.toNat + 1]) ∈ arrays
  right : p.stageRight = true →
    ("lB", [p.kl.toNat, p.localSize1.toNat * p.ns.toNat + 1]) ∈ arrays
  rC : ("rC", [p.ms.toNat, p.ns.toNat]) ∈ arrays
  rA : ("rA", [p.ks.toNat, p.ms.toNat]) ∈ arrays
  rB : ("rB", [p.ks.toNat, p.ns.toNat]) ∈ arrays
  known : ∀ names, names₀.Same (body (.of p op.numericType) op.numericType problem store).binders names →
    ∀ node ∈ op.nodes, ∀ x ∈ node.extents, x.Known bindings names

/-- An element of an array of two dimensions. -/
theorem inside_register {reads : Expr → Point → Prop} {w : Worker} {array : String}
    {d₁ d₂ i j : Nat} {row col : Term} (declared : (array, [d₁, d₂]) ∈ arrays)
    (first : row.number? w names = some i) (second : col.number? w names = some j) (below₁ : i < d₁)
    (below₂ : j < d₂) :
    ∀ a ∈ (register array row col).accesses, (Watch.of bindings arrays reads w).allowed names a :=
  Watch.of_inside ⟨array, "", [d₁, d₂]⟩ _ _ declared
    (List.cons_ne_nil _ _) (Term.mapM_pair first second) (Term.inside_pair below₁ below₂)

/-- Storing an element accesses what its sides do. -/
theorem put_passes {q : Watch} {slot source : Term} (there : ∀ a ∈ slot.accesses, q.allowed names a)
    (here : ∀ a ∈ source.accesses, q.allowed names a) :
    q.Passes (put slot source) names fun _ => True :=
  .step (fun a member => (List.mem_append.mp member).elim (there a) (here a)) rfl (.done trivial)

/-- Code that is there under a condition only. -/
theorem onlyIf_passes {q : Watch} {condition : Bool} {code : Code}
    (used : condition = true → q.Passes code names fun _ => True) :
    q.Passes (onlyIf condition code) names fun _ => True := by
  cases condition with
  | false => exact .done trivial
  | true => exact used rfl

/-! ### Setting up -/

/-- The declarations of the local tiles in use. -/
theorem memories_pass {q : Watch} :
    q.Passes (Code.ofSteps ((Tiling.of p type).memories.map Step.declareLocal)) names fun names' =>
      (p.stageLeft = true → names' "lA" =
        some (.sharedArray [p.kl.toNat, p.localSize0.toNat * p.ms.toNat + 1])) ∧
      (p.stageRight = true → names' "lB" =
        some (.sharedArray [p.kl.toNat, p.localSize1.toNat * p.ns.toNat + 1])) := by
  have used : (Tiling.of p type).memories =
      (if p.stageLeft then [(Tiling.of p type).left] else []) ++
        if p.stageRight then [(Tiling.of p type).right] else [] := rfl
  rw [used]
  cases p.stageLeft <;> cases p.stageRight
  · exact .done ⟨nofun, nofun⟩
  · exact .step nofun rfl (.done ⟨nofun, fun _ => Names.bind_self ..⟩)
  · exact .step nofun rfl (.done ⟨fun _ => Names.bind_self .., nofun⟩)
  · refine .step nofun rfl (.step nofun rfl (.done ⟨fun _ => ?_, fun _ => Names.bind_self ..⟩))
    exact (Names.bind_of_ne (show "lA" ≠ "lB" by decide)).trans (Names.bind_self ..)

/-- **The prologue sets up the variables of a worker** without accesses. -/
theorem prologue_passes {q : Watch} (positive : 0 < p.localFetch0.toNat) :
    q.Passes (prologue (.of p type) type) names fun names' => Ready p q.worker names' := by
  rw [prologue_eq]
  refine .append (memories_pass.weaken ?_)
  rintro names₁ - ⟨left, right⟩
  obtain ⟨names₂, declares, same, numbered⟩ :=
    exists_declares_numbers type q.worker names₁ positive
  refine .declares declares (.step nofun rfl (.step nofun rfl (.step nofun rfl (.done ?_))))
  exact numbered.ready (fun staged => (same _ (by decide)).trans (left staged))
    fun staged => (same _ (by decide)).trans (right staged)

/-- The registers of the result are cleared. -/
theorem clear_passes (served : Served op p problem target store bindings arrays names₀)
    {reduce : ReduceOp} : (watch problem bindings arrays g l).Passes
      (clear p (reduce.neutral op.numericType)) names fun _ => True := by
  show (watch problem bindings arrays g l).Passes (Code.ofLoop (Walk.counted "m" _).loop
    (Code.ofLoop (Walk.counted "n" _).loop (put _ _))) _ _
  refine .grid (Walk.counts_counted ..) (Walk.counts_counted ..) (show "m" ≠ "n" by decide)
    List.not_mem_nil List.not_mem_nil fun i j row col names' same atM atN => put_passes ?_ ?_
  · exact inside_register served.rC (Term.number?_name atM) (Term.number?_name atN)
      (visits_one.mp row) (visits_one.mp col)
  · rw [Term.accesses_neutral]
    nofun

/-! ### Filling the tiles -/

/-- A worker fetches its share of a tile, for any way in which the two axes lie in the tile. -/
theorem fetch_passes {q : Watch} (valid : p.Valid) (staged : p.staged = true)
    (ready : Ready p q.worker names) {further nearer : Nat} {slot source : Term}
    (access : ∀ name, slot ≠ .name name)
    (here : ∀ i < further, ∀ j < nearer, ∀ names', names.Same ["a", "b"] names' →
      names' "a" = some (.index i) → names' "b" = some (.index j) →
      (∀ a ∈ slot.accesses, q.allowed names' a) ∧ ∀ a ∈ source.accesses, q.allowed names' a) :
    q.Passes (fetch p further nearer slot source) names fun _ => True := by
  have binders : (put slot source).binders = [] := Code.binders_store access
  show q.Passes (Code.ofLoop (Walk.cooperative "a" _ _ _).loop
    (Code.ofLoop (Walk.cooperative "b" _ _ _).loop (put _ _))) _ _
  have counts₁ := ready.counts_further valid staged further
  have counts₂ := ready.counts_nearer valid staged nearer
  refine .grid (binders.symm ▸ counts₁) (binders.symm ▸ counts₂) (show "a" ≠ "b" by decide)
    (binders ▸ List.not_mem_nil) (binders ▸ List.not_mem_nil) ?_
  rintro i j ⟨_, -, row⟩ ⟨_, -, col⟩ names' same atA atB
  rw [binders] at same
  exact put_passes (here i row j col names' same atA atB).1 (here i row j col names' same atA atB).2

/-- **A worker fetches its share of a tile**, which lies inside it. -/
theorem fetchTile_passes {reads : Expr → Point → Prop} {w : Worker} (valid : p.Valid)
    (staged : p.staged = true) (ready : Ready p w names) {deep : Bool} {tile : LocalMemory}
    {extent : Nat} {source : Term → Term → Term} (declared : (tile.name, tile.dims) ∈ arrays)
    (dims : tile.dims = [p.kl.toNat, extent + 1])
    (here : ∀ k < p.kl.toNat, ∀ x < extent, ∀ depth across names', names.Same ["a", "b"] names' →
      depth.number? w names' = some k → across.number? w names' = some x →
      ∀ a ∈ (source depth across).accesses, (Watch.of bindings arrays reads w).allowed names' a) :
    (Watch.of bindings arrays reads w).Passes (fetchTile p deep tile extent source) names
      fun _ => True := by
  have slot {names' : Names Unit} {k x : Nat} {s t : Term} (first : s.number? w names' = some k)
      (second : t.number? w names' = some x) (below₁ : k < p.kl.toNat) (below₂ : x < extent) :
      ∀ a ∈ (tile.access [s, t]).accesses, (Watch.of bindings arrays reads w).allowed names' a :=
    Watch.of_inside _ _ _ declared (List.cons_ne_nil _ _) (Term.mapM_pair first second)
      (dims ▸ Term.inside_pair below₁ (Nat.lt_succ_of_lt below₂))
  cases deep with
  | true =>
    refine fetch_passes valid staged ready (fun _ => Term.noConfusion) ?_
    intro k depth x across names' same atA atB
    exact ⟨slot (Term.number?_name atA) (Term.number?_name atB) depth across,
      here k depth x across _ _ names' same (Term.number?_name atA) (Term.number?_name atB)⟩
  | false =>
    refine fetch_passes valid staged ready (fun _ => Term.noConfusion) ?_
    intro x across k depth names' same atA atB
    exact ⟨slot (Term.number?_name atB) (Term.number?_name atA) depth across,
      here k depth x across _ _ names' same (Term.number?_name atB) (Term.number?_name atA)⟩

namespace Served

variable (served : Served op p problem target store bindings arrays names₀)

include served

/-- The left operand is read at a row of a tile and a position along the shared dimension. -/
theorem reads_left (named : Named p op.numericType problem store names₀
      ((launch p groups₀ groups₁).worker g l) names) {row col : Term} {i n : Nat}
    (atRow : row.number? ((launch p groups₀ groups₁).worker g l) names = some i)
    (atCol : col.number? ((launch p groups₀ groups₁).worker g l) names = some n)
    (below : i < groups₀ * (p.localSize0.toNat * p.ms.toNat)) (deep : Deep p problem bindings n) :
    ∀ a ∈ (problem.lhs.element row col).accesses, (watch problem bindings arrays g l).allowed names a :=
  fun _ member => Or.inr ⟨.matrix problem.lhs, _, Or.inl ⟨rfl, below, deep⟩,
    Expr.meets_element (served.known names named.settled _ served.accepted.mem_of_left) atRow atCol member⟩

/-- The right operand is read at a position along the shared dimension and a column of a tile. -/
theorem reads_right (named : Named p op.numericType problem store names₀
      ((launch p groups₀ groups₁).worker g l) names) {row col : Term} {n j : Nat}
    (atRow : row.number? ((launch p groups₀ groups₁).worker g l) names = some n)
    (atCol : col.number? ((launch p groups₀ groups₁).worker g l) names = some j)
    (deep : Deep p problem bindings n) (below : j < groups₁ * (p.localSize1.toNat * p.ns.toNat)) :
    ∀ a ∈ (problem.rhs.element row col).accesses, (watch problem bindings arrays g l).allowed names a :=
  fun _ member => Or.inr ⟨.matrix problem.rhs, _, Or.inr (Or.inl ⟨rfl, deep, below⟩),
    Expr.meets_element (served.known names named.settled _ served.accepted.mem_of_right) atRow atCol member⟩

end Served

/-- A position in the tile of a group. -/
theorem tile_lt {t groups tile x : Nat} (group : t < groups) (across : x < tile) :
    t * tile + x < groups * tile :=
  calc t * tile + x < t * tile + tile := Nat.add_lt_add_left across _
    _ = (t + 1) * tile := (Nat.succ_mul ..).symm
    _ ≤ groups * tile := Nat.mul_le_mul_right _ group

section Tile

variable {n : Nat}

/-- **A worker fills its share of the tiles in use.** -/
theorem share_passes (served : Served op p problem target store bindings arrays names₀)
    (named : Named p op.numericType problem store names₀ ((launch p groups₀ groups₁).worker g l) names)
    (atTile : names "k0" = some (.index n))
    (begins : Visits 0 p.kl.toNat (problem.lhs.logicalCols.size bindings) n) :
    (watch problem bindings arrays g l).Passes
      (onlyIf p.stageLeft (fetchLeft (.of p op.numericType) problem.lhs) ++
        onlyIf p.stageRight (fetchRight (.of p op.numericType) problem.rhs)) names fun _ => True := by
  have both {x : String} (staged : p.staged = true) (member : x ∈ ["a", "b"]) : Active p x :=
    Or.inr ⟨staged, member⟩
  have depth {names names' : Names Unit} {s : Term} {d : Nat} (at' : names "k0" = some (.index n))
      (same : names.Same ["a", "b"] names')
      (number : s.number? ((launch p groups₀ groups₁).worker g l) names' = some d) :
      (v "k0" + s).number? ((launch p groups₀ groups₁).worker g l) names' = some (n + d) :=
    Term.number?_add (Term.number?_name ((same "k0" (show "k0" ∉ ["a", "b"] by decide)).trans at')) number
  rw [fetchLeft_eq, fetchRight_eq]
  refine .seq (onlyIf_passes fun left => ?_) fun names₁ same₁ => onlyIf_passes fun right => ?_
  · have staged : p.staged = true := Bool.or_eq_true_iff.mpr (Or.inl left)
    refine fetchTile_passes served.valid staged named.ready (served.left left) rfl ?_
    intro d below x across s t names' same atDepth atAcross
    have named' := named.after same fun x => both staged
    exact served.reads_left named' (Term.number?_add (Term.number?_name named'.ready.gm) atAcross)
      (depth atTile same atDepth) (tile_lt g.1.isLt across) ⟨n, d, begins, below, rfl⟩
  · have staged : p.staged = true := Bool.or_eq_true_iff.mpr (Or.inr right)
    have fetched (x : String) (bound : x ∈ (onlyIf (Tiling.of p op.numericType).record.stageLeft
        (fetchTile (Tiling.of p op.numericType).record problem.lhs.rowsAdjacent
          (Tiling.of p op.numericType).left (Tiling.of p op.numericType).ml fun depth across =>
            problem.lhs.element (v "gm" + across) (v "k0" + depth))).binders) : x ∈ ["a", "b"] :=
      (binders_onlyIf id binders_fetchTile bound).2
    have named₁ := named.after same₁ fun x bound => both staged (fetched x bound)
    refine fetchTile_passes served.valid staged named₁.ready (served.right right) rfl ?_
    intro d below x across s t names' same atDepth atAcross
    have named' := named₁.after same fun x => both staged
    refine served.reads_right named' (depth ?_ same atDepth)
      (Term.number?_add (Term.number?_name named'.ready.gn) atAcross) ⟨n, d, begins, below, rfl⟩
      (tile_lt g.2.1.isLt across)
    exact (same₁ "k0" fun bound => absurd (fetched _ bound) (by decide)).trans atTile

/-! ### Taking in the terms of a tile -/

/-- The operands' registers are loaded. -/
theorem load_passes {reads : Expr → Point → Prop} {w : Worker} {array counter : String} {extent : Nat}
    (source : Term) (declared : (array, [p.ks.toNat, extent]) ∈ arrays) (apart : "kk" ≠ counter)
    (here : ∀ u < p.ks.toNat, ∀ i < extent, ∀ names', names.Same ["kk", counter] names' →
      names' "kk" = some (.index u) → names' counter = some (.index i) →
      ∀ a ∈ source.accesses, (Watch.of bindings arrays reads w).allowed names' a) :
    (Watch.of bindings arrays reads w).Passes
      (Walk.nest [Walk.counted "kk" p.ks.toNat, Walk.counted counter extent]
        (put (register array (v "kk") (v counter)) source)) names fun _ => True := by
  show (Watch.of bindings arrays reads w).Passes (Code.ofLoop (Walk.counted "kk" _).loop
    (Code.ofLoop (Walk.counted counter _).loop (put _ _))) _ _
  refine .grid (Walk.counts_counted ..) (Walk.counts_counted ..) apart List.not_mem_nil
    List.not_mem_nil fun u i depth across names' same atDepth atAcross => put_passes ?_ ?_
  · exact inside_register declared (Term.number?_name atDepth) (Term.number?_name atAcross)
      (visits_one.mp depth) (visits_one.mp across)
  · exact here u (visits_one.mp depth) i (visits_one.mp across) names' same atDepth atAcross

/-- One more term is taken in for every element of the register block. -/
theorem accumulate_passes (served : Served op p problem target store bindings arrays names₀) :
    (watch problem bindings arrays g l).Passes
      (Walk.nest [Walk.counted "kk" p.ks.toNat, Walk.counted "m" p.ms.toNat,
        Walk.counted "n" p.ns.toNat] (put (register "rC" (v "m") (v "n"))
          (problem.reduce.combine (register "rC" (v "m") (v "n"))
            (problem.combine.apply (register "rA" (v "kk") (v "m")) (register "rB" (v "kk") (v "n"))))))
      names fun _ => True := by
  show (watch problem bindings arrays g l).Passes (Code.ofLoop (Walk.counted "kk" _).loop
    (Code.ofLoop (Walk.counted "m" _).loop (Code.ofLoop (Walk.counted "n" _).loop (put _ _)))) _ _
  refine .loop (Walk.counts_counted ..) (show "kk" ∉ ["m", "n"] by decide) fun u depth names₁ _ atDepth => ?_
  refine .grid (Walk.counts_counted ..) (Walk.counts_counted ..) (show "m" ≠ "n" by decide)
    List.not_mem_nil List.not_mem_nil fun i j row col names₂ same₂ atM atN => ?_
  have stays : names₂ "kk" = some (.index u) :=
    (same₂ "kk" (show "kk" ∉ ["m", "n"] by decide)).trans atDepth
  have sum : ∀ a ∈ (register "rC" (v "m") (v "n")).accesses,
      (watch problem bindings arrays g l).allowed names₂ a :=
    inside_register served.rC (Term.number?_name atM) (Term.number?_name atN) (visits_one.mp row)
      (visits_one.mp col)
  refine put_passes sum fun a member => ?_
  rw [Term.accesses_combine, Term.accesses_apply] at member
  rcases List.mem_append.mp member with member | member
  · exact sum a member
  · rcases List.mem_append.mp member with member | member
    · exact inside_register served.rA (Term.number?_name stays) (Term.number?_name atM) (visits_one.mp depth)
        (visits_one.mp row) a member
    · exact inside_register served.rB (Term.number?_name stays) (Term.number?_name atN) (visits_one.mp depth)
        (visits_one.mp col) a member

/-- **The step along a tile stays inside it**, and reads elements of the operands otherwise. -/
theorem advance_passes (served : Served op p problem target store bindings arrays names₀)
    (named : Named p op.numericType problem store names₀ ((launch p groups₀ groups₁).worker g l) names)
    (atTile : names "k0" = some (.index n))
    (begins : Visits 0 p.kl.toNat (problem.lhs.logicalCols.size bindings) n) {k : Nat}
    (atStep : names "k" = some (.index k)) (room : ∀ u < p.ks.toNat, k + u < p.kl.toNat) :
    (watch problem bindings arrays g l).Passes (advance (.of p op.numericType) problem) names
      fun _ => True := by
  have active : ∀ x ∈ ["kk", "m", "n"], Active p x := fun x member => Or.inl
    ((show ∀ x ∈ ["kk", "m", "n"], x ∈ ["k0", "k", "kk", "m", "n", "row", "col"] by decide) x member)
  have place {names' : Names Unit} (same : names.Same ["kk", "m", "n"] names') :
      Named p op.numericType problem store names₀ ((launch p groups₀ groups₁).worker g l) names' ∧
        names' "k0" = some (.index n) ∧ names' "k" = some (.index k) :=
    ⟨named.after same active, (same _ (by decide)).trans atTile, (same _ (by decide)).trans atStep⟩
  have loaded : (watch problem bindings arrays g l).Passes (Walk.nest
      [Walk.counted "kk" p.ks.toNat, Walk.counted "m" p.ms.toNat]
        (put (register "rA" (v "kk") (v "m")) (leftTerm (.of p op.numericType) problem))) names
      fun _ => True := by
    refine load_passes _ served.rA (by decide) fun u depth i row names' same atDepth atM => ?_
    obtain ⟨named', atTile', atStep'⟩ := place (same.mono (by decide))
    unfold leftTerm
    split
    · next staged =>
      exact inside_register (served.left staged)
        (Term.number?_add (Term.number?_name atStep') (Term.number?_name atDepth))
        (number?_blockRow named'.ready atM) (room u depth)
        (Nat.lt_succ_of_lt (block_lt (inGroup g l).first row))
    · exact served.reads_left named' (number?_resultRow named'.ready atM)
        (number?_depth atTile' atStep' atDepth) (rowOf_lt g l row) ⟨n, _, begins, room u depth, rfl⟩
  refine .seq loaded fun names₁ same₁ => ?_
  replace same₁ : names.Same ["kk", "m"] names₁ := same₁
  refine .seq (load_passes (rightTerm (.of p op.numericType) problem) served.rB (by decide)
    fun u depth j col names' same atDepth atN => ?_) fun names₂ same₂ =>
      .seq (accumulate_passes served) fun _ _ => .done trivial
  obtain ⟨named', atTile', atStep'⟩ :=
    place ((same₁.mono (by decide)).trans (same.mono (by decide)))
  unfold rightTerm
  split
  · next staged =>
    exact inside_register (served.right staged)
      (Term.number?_add (Term.number?_name atStep') (Term.number?_name atDepth))
      (number?_blockCol named'.ready atN) (room u depth)
      (Nat.lt_succ_of_lt (block_lt (inGroup g l).second col))
  · exact served.reads_right named' (number?_depth atTile' atStep' atDepth)
      (number?_resultCol named'.ready atN) ⟨n, _, begins, room u depth, rfl⟩ (colOf_lt g l col)

/-- **What a worker accesses for a tile.** -/
theorem tile_passes (served : Served op p problem target store bindings arrays names₀)
    (named : Named p op.numericType problem store names₀ ((launch p groups₀ groups₁).worker g l) names)
    (atTile : names "k0" = some (.index n))
    (begins : Visits 0 p.kl.toNat (problem.lhs.logicalCols.size bindings) n) :
    (watch problem bindings arrays g l).Passes (tileCode (.of p op.numericType) problem) names
      fun _ => True := by
  have barrier {names : Names Unit} : (watch problem bindings arrays g l).Passes
      (onlyIf p.staged (Code.ofSteps [.barrier])) names fun _ => True :=
    onlyIf_passes fun _ => .step nofun rfl (.done trivial)
  have pieces : tileCode (.of p op.numericType) problem =
      (onlyIf p.stageLeft (fetchLeft (.of p op.numericType) problem.lhs) ++
        onlyIf p.stageRight (fetchRight (.of p op.numericType) problem.rhs)) ++
      (onlyIf p.staged (Code.ofSteps [.barrier]) ++
        ((Walk.stepped "k" (.count p.kl.toNat) p.ks.toNat).around
          (advance (.of p op.numericType) problem) ++
        (onlyIf p.staged (Code.ofSteps [.barrier]) ++ .done))) := by
    rw [Code.append_assoc]
    rfl
  rw [pieces]
  refine .seq (share_passes served named atTile begins) fun names₁ same₁ =>
    .seq barrier fun names₂ same₂ => .seq ?_ fun _ _ => .seq barrier fun _ _ => .done trivial
  obtain rfl := same₂.eq binders_onlyIf_barrier
  have fetched {x : String} (other : x ∉ ["a", "b"]) : names₂ x = names x :=
    same₁ x fun bound => other (binders_share bound).2
  have named₂ := named.after same₁ fun x bound => Or.inr (binders_share bound)
  rw [Walk.around_plain rfl rfl]
  refine .loop (Walk.counts_stepped "k" served.valid.ks fun _ _ => rfl)
    (show "k" ∉ ["kk", "m", "kk", "n", "kk", "m", "n"] by decide) fun k visits names₃ same₃ atK => ?_
  replace same₃ : names₂.Same ["k", "kk", "m", "kk", "n", "kk", "m", "n"] names₃ := same₃
  have atTile₃ : names₃ "k0" = some (.index n) := by
    rw [same₃ "k0" (by decide), fetched (by decide), atTile]
  refine advance_passes served (named₂.after same₃ fun x bound => Or.inl ?_) atTile₃ begins atK
    fun u below => visits.add_lt served.valid.step below
  exact (show ∀ x ∈ ["k", "kk", "m", "kk", "n", "kk", "m", "n"],
    x ∈ ["k0", "k", "kk", "m", "n", "row", "col"] by decide) x bound

end Tile

/-! ### The result -/

/-- **The statement is carried out at elements of the worker's block.** -/
theorem finish_passes (served : Served op p problem target store bindings arrays names₀)
    (named : Named p op.numericType problem store names₀ ((launch p groups₀ groups₁).worker g l) names) :
    (watch problem bindings arrays g l).Passes (finish p store) names fun _ => True := by
  have free : store.binder? = none :=
    Statement.binder?_storeStep served.stored (Or.inr ⟨target, served.accepted.stores⟩)
  have binders : (Code.ofSteps [.declare .index "row" (resultRow p),
      .declare .index "col" (resultCol p), store]).binders = ["row", "col"] := by
    show ["row"] ++ (["col"] ++ (store.binder?.toList ++ [])) = _
    rw [free]
    rfl
  have active : ∀ x ∈ ["m", "n", "row", "col"], Active p x := fun x member => Or.inl
    ((show ∀ x ∈ ["m", "n", "row", "col"], x ∈ ["k0", "k", "kk", "m", "n", "row", "col"]
      by decide) x member)
  show (watch problem bindings arrays g l).Passes (Code.ofLoop (Walk.counted "m" _).loop
    (Code.ofLoop (Walk.counted "n" _).loop (Code.ofSteps _))) _ _
  refine .grid (Walk.counts_counted ..) (Walk.counts_counted ..) (show "m" ≠ "n" by decide)
    (binders.symm ▸ show "m" ∉ ["row", "col"] by decide)
    (binders.symm ▸ show "n" ∉ ["row", "col"] by decide) fun i j row col names' same atM atN => ?_
  rw [binders] at same
  replace row := visits_one.mp row
  replace col := visits_one.mp col
  refine .index (number?_resultRow (named.after same active).ready atM) ?_
  have same' := same.bind (show "row" ∈ ["m", "n", "row", "col"] by decide)
    (.index (rowOf p ((launch p groups₀ groups₁).worker g l) i))
  have atN' : (names'.bind "row" (.index (rowOf p ((launch p groups₀ groups₁).worker g l) i))) "n" =
      some (.index j) := (Names.bind_of_ne (show "n" ≠ "row" by decide)).trans atN
  refine .index (number?_resultCol (named.after same' active).ready atN') ?_
  have last := same'.bind (show "col" ∈ ["m", "n", "row", "col"] by decide)
    (.index (colOf p ((launch p groups₀ groups₁).worker g l) j))
  have named' := named.after last active
  obtain ⟨_, _, -, -, is⟩ := Statement.storeStep_eq_ok served.stored
  refine .step (Statement.accesses_storeStep
    (pointOf p ((launch p groups₀ groups₁).worker g l) i j) ⟨fun t addressed => ?_,
      fun t addressed => ?_, fun t addressed => ?_⟩ served.stored (fun leaf inside => ?_)
      (fun leaf inside => Or.inr (Or.inr ⟨inside, rowOf_lt g l row, colOf_lt g l col⟩))
      fun t addressed => ?_) (by rw [is]; rfl) (.done trivial)
  · cases addressed
  · cases addressed
    exact Term.number?_name ((Names.bind_of_ne (show "row" ≠ "col" by decide)).trans
      (Names.bind_self ..))
  · cases addressed
    exact Term.number?_name (Names.bind_self ..)
  · exact served.known _ named'.settled leaf
      (Operation.mem_nodes_statement served.accepted.mem_statements inside)
  · cases addressed
    exact inside_register served.rC (Term.number?_name ((Names.bind_of_ne (show "m" ≠ "col" by decide)).trans
      ((Names.bind_of_ne (show "m" ≠ "row" by decide)).trans atM)))
      (Term.number?_name ((Names.bind_of_ne (show "n" ≠ "col" by decide)).trans atN')) row col

/-- **What a worker accesses.** -/
theorem body_passes (served : Served op p problem target store bindings arrays names₀)
    (g : (launch p groups₀ groups₁).Group) (l : (launch p groups₀ groups₁).Lane) :
    (watch problem bindings arrays g l).Passes (body (.of p op.numericType) op.numericType problem store)
      names₀ fun _ => True := by
  refine .append ((prologue_passes served.valid.fetch0).weaken fun names₁ same₁ ready => ?_)
  have named₁ : Named p op.numericType problem store names₀
      ((launch p groups₀ groups₁).worker g l) names₁ :=
    ⟨same₁.mono fun x bound => Code.mem_binders_join.mpr ⟨_, List.mem_cons_self, bound⟩, ready⟩
  refine .seq (clear_passes served) fun names₂ same₂ => ?_
  have named₂ := named₁.after same₂ fun x bound => Or.inl
    ((show ∀ x ∈ ["m", "n"], x ∈ ["k0", "k", "kk", "m", "n", "row", "col"] by decide) x bound)
  refine .seq ?_ fun names₃ same₃ => .seq (finish_passes served (named₂.after same₃ fun x bound => ?_))
    fun _ _ => .done trivial
  · rw [Walk.around_plain rfl rfl]
    refine .loop (Walk.counts_stepped "k0" served.valid.kl fun names' same => ?_) k0_fresh
      fun n begins names' same atTile => tile_passes served
        (named₂.after same fun x => active_of_tile) atTile begins
    exact Extent.number?_term (served.known names'
      (named₂.after same fun x => active_of_tile).settled _ served.accepted.mem_of_left _
      problem.lhs.logicalCols_mem_extents)
  · rw [Walk.around_plain rfl rfl] at bound
    exact active_of_tile (List.mem_cons.mpr ((List.mem_cons.mp bound).imp id fun inside =>
      (List.mem_append.mp inside).resolve_right List.not_mem_nil))

/-! ### The program -/

theorem arrays_onlyIf {condition : Bool} {code : Code} (none : code.arrays = []) :
    (onlyIf condition code).arrays = [] := by
  cases condition with
  | false => rfl
  | true => exact none

theorem arrays_fetchTile {deep : Bool} {tile : LocalMemory} {extent : Nat}
    {source : Term → Term → Term} : (fetchTile p deep tile extent source).arrays = [] := by
  cases deep <;> rfl

/-- The code for a tile declares no array. -/
theorem arrays_tileCode : (tileCode (.of p type) problem).arrays = [] := by
  rw [tileCode, Code.arrays_join, List.flatMap_eq_nil_iff]
  intro piece member
  simp only [List.mem_cons, List.not_mem_nil, or_false] at member
  rcases member with rfl | rfl | rfl | rfl | rfl
  · rw [fetchLeft_eq]
    exact arrays_onlyIf arrays_fetchTile
  · rw [fetchRight_eq]
    exact arrays_onlyIf arrays_fetchTile
  · exact arrays_onlyIf rfl
  · rfl
  · exact arrays_onlyIf rfl

/-- **The arrays of the kernel** are the local tiles in use and the registers. -/
theorem arrays_body (stored : problem.statement.storeStep (resultScope type) = .ok store) :
    (body (.of p type) type problem store).arrays =
      ((if p.stageLeft then [("lA", [p.kl.toNat, p.localSize0.toNat * p.ms.toNat + 1])] else []) ++
        if p.stageRight then [("lB", [p.kl.toNat, p.localSize1.toNat * p.ns.toNat + 1])] else []) ++
      [("rC", [p.ms.toNat, p.ns.toNat]), ("rA", [p.ks.toNat, p.ms.toNat]),
        ("rB", [p.ks.toNat, p.ns.toNat])] := by
  have tiles : (Code.ofSteps ((Tiling.of p type).memories.map Step.declareLocal)).arrays =
      (if p.stageLeft then [("lA", [p.kl.toNat, p.localSize0.toNat * p.ms.toNat + 1])] else []) ++
        if p.stageRight then [("lB", [p.kl.toNat, p.localSize1.toNat * p.ns.toNat + 1])] else [] := by
    have used : (Tiling.of p type).memories =
        (if p.stageLeft then [(Tiling.of p type).left] else []) ++
          if p.stageRight then [(Tiling.of p type).right] else [] := rfl
    rw [used]
    cases p.stageLeft <;> cases p.stageRight <;> rfl
  have numbers : (Code.ofSteps (numberSteps (.of p type) ++ fetchSteps p)).arrays = [] := by
    unfold fetchSteps
    cases p.staged <;> rfl
  have finished : (finish p store).arrays = [] := by
    obtain ⟨_, _, -, -, rfl⟩ := Statement.storeStep_eq_ok stored
    rfl
  have prologued : (prologue (.of p type) type).arrays = (Code.ofSteps
      ((Tiling.of p type).memories.map Step.declareLocal)).arrays ++ [("rC", [p.ms.toNat, p.ns.toNat]),
        ("rA", [p.ks.toNat, p.ms.toNat]), ("rB", [p.ks.toNat, p.ns.toNat])] := by
    rw [prologue_eq, Code.arrays_append, Code.arrays_append]
    exact congrArg (_ ++ ·) (congrArg (· ++ _) numbers)
  rw [body, Code.arrays_join, List.flatMap_cons, List.flatMap_cons, List.flatMap_cons,
    List.flatMap_cons, Walk.arrays_around_plain rfl rfl, arrays_tileCode, prologued, tiles]
  exact (congrArg (_ ++ ·) (congrArg (· ++ []) finished)).trans (List.append_nil _)

/-- The extents are whole tiles, and the matrices outside of the product have as many rows and columns
as the target. -/
def Covers (p : ProductTuning) (op : Operation) (bindings : Bindings) : Prop :=
  ∀ s ∈ op.statements, (∀ x ∈ s.value.products, ∀ y, x.lhs = .matrix y →
      p.kl.toNat ∣ y.logicalCols.size bindings) ∧
    ∀ y, s.target = .matrix y →
      (p.localSize0.toNat * p.ms.toNat ∣ y.logicalRows.size bindings ∧
        p.localSize1.toNat * p.ns.toNat ∣ y.logicalCols.size bindings) ∧
      ∀ x, .matrix x ∈ s.value.leaves → y.logicalRows.size bindings ≤ x.logicalRows.size bindings ∧
        y.logicalCols.size bindings ≤ x.logicalCols.size bindings

/-- Where the operands cover the tiles, every leaf has the elements that are read. -/
theorem Accepted.has (accepted : Accepted op problem target) (valid : p.Valid)
    (stored : problem.statement.storeStep (resultScope type) = .ok store)
    (covers : Covers p op bindings) {leaf : Expr} {point : Point}
    (reads : Reads p problem bindings
      (GroupCount.tiles (problem.lhs.logicalRows.size bindings) (p.localSize0.toNat * p.ms.toNat))
      (GroupCount.tiles (problem.rhs.logicalCols.size bindings) (p.localSize1.toNat * p.ns.toNat))
      leaf point) : leaf.Has 1 bindings point := by
  obtain ⟨depth, statement⟩ := covers _ accepted.mem_statements
  replace depth := depth _ (accepted.product ▸ List.mem_cons_self) problem.lhs rfl
  obtain ⟨⟨rows, cols⟩, others⟩ := statement target accepted.stores
  rw [accepted.rows] at rows
  rw [accepted.cols] at cols
  rw [Reads, tiles_mul (Nat.mul_pos valid.localSize0 valid.ms) rows,
    tiles_mul (Nat.mul_pos valid.localSize1 valid.ns) cols] at reads
  rcases reads with ⟨rfl, row, deep⟩ | ⟨rfl, deep, col⟩ | ⟨inside, row, col⟩
  · exact ⟨row, deep.lt depth⟩
  · exact ⟨accepted.inner ▸ deep.lt depth, col⟩
  · obtain ⟨t, value, first, second, -⟩ := Statement.storeStep_eq_ok stored
    have addressed := (List.mem_append.mp inside).elim (Expr.addressed_of_term first leaf)
      (Expr.addressed_of_term second leaf)
    rw [← accepted.rows] at row
    rw [← accepted.cols] at col
    rcases addressed with ⟨x, rfl⟩ | ⟨x, rfl, index⟩ | ⟨x, rfl, -⟩
    · trivial
    · exact absurd rfl index
    · rcases List.mem_append.mp inside with own | read
      · rw [accepted.stores] at own
        cases List.mem_singleton.mp own
        exact ⟨row, col⟩
      · exact ⟨row.trans_le (others x read).1, col.trans_le (others x read).2⟩

/-- The arrays of the kernel are told apart by their names. -/
theorem arrays_unique {x : String} {dims dims' : List Nat}
    (one : (x, dims) ∈ (body (.of p type) type problem store).arrays)
    (two : (x, dims') ∈ (body (.of p type) type problem store).arrays)
    (stored : problem.statement.storeStep (resultScope type) = .ok store) : dims' = dims := by
  rw [arrays_body stored] at one two
  have listed {dims : List Nat} (member : (x, dims) ∈
      ((if p.stageLeft then [("lA", [p.kl.toNat, p.localSize0.toNat * p.ms.toNat + 1])] else []) ++
        if p.stageRight then [("lB", [p.kl.toNat, p.localSize1.toNat * p.ns.toNat + 1])] else []) ++
      [("rC", [p.ms.toNat, p.ns.toNat]), ("rA", [p.ks.toNat, p.ms.toNat]),
        ("rB", [p.ks.toNat, p.ns.toNat])]) :
      (x = "lA" ∧ dims = [p.kl.toNat, p.localSize0.toNat * p.ms.toNat + 1]) ∨
      (x = "lB" ∧ dims = [p.kl.toNat, p.localSize1.toNat * p.ns.toNat + 1]) ∨
      (x = "rC" ∧ dims = [p.ms.toNat, p.ns.toNat]) ∨ (x = "rA" ∧ dims = [p.ks.toNat, p.ms.toNat]) ∨
      x = "rB" ∧ dims = [p.ks.toNat, p.ns.toNat] := by
    cases left : p.stageLeft <;> cases right : p.stageRight <;>
      simp [left, right] at member <;> tauto
  rcases listed one with ⟨rfl, rfl⟩ | ⟨rfl, rfl⟩ | ⟨rfl, rfl⟩ | ⟨rfl, rfl⟩ | ⟨rfl, rfl⟩ <;>
    simpa using listed two

/-- **The kernel of an accepted operation is orderly**, and where its operands cover the tiles, every leaf
has the elements that are read. -/
theorem generate_orderly {left right : Bool} {program : Program} (valid : p.Valid)
    (ok : generate left right p op = .ok program) {kernel : Kernel} (member : kernel ∈ program.kernels)
    (proper : kernel.Proper) (sized : kernel.Sized bindings) :
    ∃ reads, kernel.Orderly op bindings reads ∧ (Covers p op bindings → ∀ leaf point,
      reads leaf point → leaf.Has 1 bindings point) := by
  obtain ⟨problem, target, operands, store, sole, accepted, collected, stored, kernels, arguments,
    scratch, geometry, code⟩ := generate_eq_ok ok
  rw [kernels] at member
  obtain rfl := List.mem_singleton.mp member
  have serves : kernel.Serves op 1 operands bindings :=
    ⟨collected, fun name a found => arguments ▸ found, proper, sized⟩
  have arrays : kernel.arrays = (body (.of p op.numericType) op.numericType problem store).arrays := by
    rw [Kernel.arrays, scratch, if_pos rfl, List.append_nil, code]
  have declared {array : String × List Nat} (here : array ∈
      ((if p.stageLeft then [("lA", [p.kl.toNat, p.localSize0.toNat * p.ms.toNat + 1])] else []) ++
        if p.stageRight then [("lB", [p.kl.toNat, p.localSize1.toNat * p.ns.toNat + 1])] else []) ++
      [("rC", [p.ms.toNat, p.ns.toNat]), ("rA", [p.ks.toNat, p.ms.toNat]),
        ("rB", [p.ks.toNat, p.ns.toNat])]) : array ∈ kernel.arrays := by
    rw [arrays, arrays_body stored]
    exact here
  refine ⟨_, .of_serves serves scratch (.of_passes _ (accepted.shape? (arguments ▸ collected) sized
    geometry) fun g l => ?_) ?_ ?_, fun covers leaf point => accepted.has valid stored covers⟩
  · rw [code]
    refine body_passes ⟨valid, accepted, stored, fun staged => declared ?_, fun staged => declared ?_,
      declared (by simp), declared (by simp), declared (by simp), fun names same node inside =>
        serves.known (code ▸ same) inside⟩ g l
    · simp [staged]
    · simp [staged]
  · rintro leaf point (⟨rfl, -⟩ | ⟨rfl, -⟩ | ⟨inside, -⟩)
    · exact accepted.mem_of_left
    · exact accepted.mem_of_right
    · exact Operation.mem_nodes_statement accepted.mem_statements inside
  · intro x dims dims' one two
    rw [arrays] at one two
    exact arrays_unique one two stored

end TunedKernel.MatrixProduct
