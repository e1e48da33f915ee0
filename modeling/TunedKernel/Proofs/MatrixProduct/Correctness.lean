/-
**Matrix products are computed as the statement says.**

* `place_of_leaf` — what the statement reads outside its product is its own element of the result, or
  stands in another buffer.
* `group_leads` — what a group leaves in the result.
* `generate_computes` — the program of a matrix product stores into every element of the result once,
  what the statement means there.
-/

import TunedKernel.Proofs.Execution.Signature
import TunedKernel.Proofs.MatrixProduct.Stages

namespace TunedKernel.MatrixProduct

variable {α : Type} {r : Reading α} {p : ProductTuning} {type : NumericType} {problem : Problem}
  {target : MatrixOperand} {store : Step} {names₀ : Names α} {groups₀ groups₁ : Nat}

/-! ### Acceptance -/

/-- The kernel of an accepted operation, whose names and sizes are in order. -/
structure Emitted (p : ProductTuning) (op : Operation) (bindings : Bindings) (problem : Problem)
    (target : MatrixOperand) (store : Step) (kernel : Kernel) : Prop where
  accepted : Accepted op problem target
  collected : collectArguments op 1 = .ok kernel.arguments
  stored : problem.statement.storeStep (resultScope op.numericType) = .ok store
  geometry : kernel.geometry = .plane p.localSize0.toNat p.localSize1.toNat
    (.cover problem.lhs.logicalRows (p.localSize0.toNat * p.ms.toNat))
    (.cover problem.rhs.logicalCols (p.localSize1.toNat * p.ns.toNat))
  code : kernel.body = body (.of p op.numericType) op.numericType problem store
  proper : kernel.Proper
  sized : kernel.Sized bindings
  numerals : op.Numerals

namespace Emitted

variable {op : Operation} {bindings : Bindings} {kernel : Kernel}

/-- The step of the statement stores into an element. -/
theorem store_binder? (emitted : Emitted p op bindings problem target store kernel) :
    store.binder? = none := by
  obtain ⟨t, value, element, -, rfl⟩ := Statement.storeStep_eq_ok emitted.stored
  rw [emitted.accepted.stores] at element
  cases element
  rfl

/-- Every node of the operation keeps its meaning. -/
theorem known (emitted : Emitted p op bindings problem target store kernel) {host : String → α}
    {names : Names α} (same : (kernel.names host bindings).Same kernel.body.binders names)
    {node : Expr} (member : node ∈ op.nodes) : node.Known 1 host bindings names :=
  (Kernel.known emitted.collected (fun _ _ found => found) rfl emitted.numerals emitted.sized
    member).mono (emitted.proper.kept same)

/-- The names of the kernel stand for what its code takes them for. -/
theorem setting (emitted : Emitted p op bindings problem target store kernel) (valid : p.Valid)
    (fits : Fits p target bindings groups₀ groups₁) (left : problem.lhs.name ≠ target.name)
    (right : problem.rhs.name ≠ target.name) (e : Elements α) (host : String → α) (m : Memory α) :
    Setting ⟨e, host, bindings, m⟩ p op.numericType problem target store
      (kernel.names host bindings) groups₀ groups₁ where
  valid := valid
  fits := fits
  left := left
  right := right
  known names same := by
    rw [← emitted.code] at same
    exact ⟨emitted.known same emitted.accepted.mem_of_left, emitted.known same emitted.accepted.mem_of_right⟩
  depth names same := by
    rw [← emitted.code] at same
    exact (Kernel.known_extent emitted.collected (fun _ _ found => found) emitted.sized
      emitted.accepted.mem_of_left problem.lhs.logicalCols_mem_extents).mono (emitted.proper.kept same)
  constants names same x constant := by
    rw [← emitted.code] at same
    refine emitted.proper.free same constant fun bound => ?_
    rw [emitted.code] at bound
    exact (show ∀ x ∈ Term.constants, x ∉ loopNames ++ ["lA", "lB", "lid0", "lid1", "gm", "gn",
      "flat", "fid0", "fid1", "rC", "rA", "rB"] by decide) x constant
        (binders_body emitted.store_binder? bound)

end Emitted

/-! ### A group -/

variable {g : (launch p groups₀ groups₁).Group}

/-- The content of an element of the result after the statement was carried out there. -/
def outcome (r : Reading α) (type : NumericType) (problem : Problem) (target : MatrixOperand)
    (store : Step) (row col : Nat) : Cell α :=
  problem.statement.outcome r (sum r type problem row col
    (problem.lhs.logicalCols.size r.bindings)) { row := row, col := col } store
      (r.memory (.global target.name (target.position r.bindings row col)))

/-- **A group leaves in its tile of the result what the statement means there.** -/
theorem group_leads (setting : Setting r p type problem target store names₀ groups₀ groups₁)
    (whole : p.kl.toNat ∣ problem.lhs.logicalCols.size r.bindings)
    (stores : problem.statement.target = .matrix target)
    (emitted : problem.statement.storeStep (resultScope type) = .ok store)
    (free : store.binder? = none)
    (known : ∀ names, names₀.Same (body (.of p type) type problem store).binders names →
      problem.statement.target.Known 1 r.host r.bindings names ∧
        ∀ leaf ∈ problem.statement.value.leaves, leaf.Known 1 r.host r.bindings names)
    (places : ∀ leaf ∈ problem.statement.value.leaves, ∀ point place,
      leaf.place? r.bindings point = some place →
      place = .global target.name (target.position r.bindings point.row point.col) ∨
        ∃ buffer n, place = .global buffer n ∧ buffer ≠ target.name) :
    Stage.Leads r.elements g ((footing p target r.bindings groups₀ groups₁).reads g)
      ((footing p target r.bindings groups₀ groups₁).writes g)
      (body (.of p type) type problem store)
      (.first ((footing p target r.bindings groups₀ groups₁).phase g
        (fetching p problem groups₀ groups₁ g)) names₀ r.memory) fun last =>
        ∀ k, last.phase.Joins last.start last.seen k → ∀ l, ∀ i < p.ms.toNat, ∀ j < p.ns.toNat,
          k (.global target.name (resultIndex p target r.bindings
            ((launch p groups₀ groups₁).worker g l) i j)) = outcome r type problem target store
              (rowOf p ((launch p groups₀ groups₁).worker g l) i)
              (colOf p ((launch p groups₀ groups₁).worker g l) j) := by
  have pieces : body (.of p type) type problem store =
      (prologue (.of p type) type ++ clear p (problem.reduce.neutral type)) ++
        ((Walk.stepped "k0" problem.lhs.logicalCols.term p.kl.toNat).around
          (tileCode (.of p type) problem) ++ (finish p store ++ .done)) := by
    rw [Code.append_assoc]
    rfl
  rw [pieces]
  refine .append ((begin_leads setting).weaken ?_)
  intro stage₁ _ progress₁
  refine .append ((walk_leads setting whole progress₁).weaken ?_)
  intro stage₂ _ progress₂
  rw [Code.append_done]
  have active : ∀ x ∈ ["m", "n", "row", "col"], Active p x := fun x member => Or.inl
    ((show ∀ x ∈ ["m", "n", "row", "col"], x ∈ ["k0", "k", "kk", "m", "n", "row", "col"]
      by decide) x member)
  have each (l : (launch p groups₀ groups₁).Lane) : (stage₂.phase.station r.elements g l).Leads
      (finish p store) (stage₂.names l) (stage₂.seen l) fun _ m' =>
      ∀ i < p.ms.toNat, ∀ j < p.ns.toNat, m' (.global target.name (resultIndex p target r.bindings
        ((launch p groups₀ groups₁).worker g l) i j)) = outcome r type problem target store
          (rowOf p ((launch p groups₀ groups₁).worker g l) i)
          (colOf p ((launch p groups₀ groups₁).worker g l) j) := by
    rw [progress₂.phase]
    have cell {i j : Nat} (row : i < p.ms.toNat) (col : j < p.ns.toNat) :
        (target.name, resultIndex p target r.bindings ((launch p groups₀ groups₁).worker g l) i j) ∈
          (footing p target r.bindings groups₀ groups₁).cells g l := ⟨i, row, j, col, rfl⟩
    refine (finish_leads (q := fetcher r p problem target g l) (progress₂.named l).ready
      (Footing.owns l) emitted free
      (fun names' same => known names' ((progress₂.named l).after same active).settled)
      (fun i _ j _ => congrArg (Expr.place? r.bindings _) stores)
      (fun i j => ⟨target.name, _, rfl⟩) ?_ ?_ ?_ (progress₂.sums l)).weaken ?_
    · intro i row j col i' row' j' col' same
      exact (resultIndex_unique setting.fits row col row' col' (Place.global.inj same).2).2
    · intro i row j col
      exact ⟨Or.inl (cell row col), cell row col⟩
    · intro i row j col leaf member place stored
      rcases places leaf member _ place stored with rfl | ⟨buffer, n, rfl, other⟩
      · exact ⟨Or.inl (cell row col), Or.inl rfl⟩
      · exact ⟨Or.inr other, Or.inr fun i' _ j' _ same => other (Place.global.inj same).1⟩
    · rintro _ m' - ⟨filled, -⟩ i row j col
      refine (filled i row j col).trans ?_
      rw [progress₂.seen]
      refine Statement.outcome_congr (r := r) _ rfl rfl rfl fun leaf _ place stored => ?_
      obtain ⟨buffer, n, rfl⟩ := Expr.exists_global_of_place stored
      exact progress₂.seen l buffer n
  refine (Stage.Leads.work each).weaken ?_
  rintro last - ⟨phase, -, filled⟩ k joins l i row j col
  rw [phase, progress₂.phase] at joins
  rw [Footing.joins_cell joins (l := l) ⟨i, row, j, col, rfl⟩]
  exact filled l i row j col

/-! ### The program -/

/-- Whole tiles cover an extent exactly. -/
theorem tiles_mul {extent tile : Nat} (positive : 0 < tile) (whole : tile ∣ extent) :
    GroupCount.tiles extent tile * tile = extent := by
  obtain ⟨n, rfl⟩ := whole
  show (tile * n + max tile 1 - 1) / max tile 1 * tile = tile * n
  rw [Nat.max_eq_left positive, Nat.add_sub_assoc positive, Nat.mul_add_div positive,
    Nat.div_eq_of_lt (Nat.sub_lt positive Nat.one_pos), Nat.add_zero, Nat.mul_comm]

theorem nonempty_lane (valid : p.Valid) : Nonempty (launch p groups₀ groups₁).Lane :=
  ⟨⟨0, valid.localSize0⟩, ⟨0, valid.localSize1⟩, ⟨0, Nat.one_pos⟩⟩

/-- A record that stages the left operand. -/
def smallRecord : ProductTuning where
  simdWidth := 1
  localSize0 := 2
  kl := 2
  localSize1 := 1
  ms := 1
  ks := 1
  ns := 2
  stageLeft := true
  stageRight := false
  localFetch0 := 1
  localFetch1 := 2

/-- A product of two matrices, added to a third one. -/
def smallOperation : Operation where
  numericType := .int
  statements := [{
    target := .matrix (.plain "sums" (.fixed 2) (.fixed 2))
    assign := .addAssign
    value := .contract (.matrix (.plain "lhs" (.fixed 2) (.symbol "depth")))
      (.matrix (.plain "rhs" (.symbol "depth") (.fixed 2))) }]

/-- The shared extent is two tiles. -/
def smallSizes : Bindings := fun x => if x = "depth" then some 4 else none

/-- Every element of a buffer holds the number of elements up to it. -/
def counting : Memory (BitVec NumericType.int.bits)
  | .global _ n => ⟨BitVec.ofNat _ (n + 1), []⟩
  | _ => ⟨0, []⟩

theorem exists_smallProgram : ∃ program,
    generate false false smallRecord smallOperation = .ok program ∧
      ∀ kernel ∈ program.kernels, kernel.Proper ∧ kernel.Sized smallSizes := by
  have accepted : ((generate false false smallRecord smallOperation).toOption.any fun program =>
      program.kernels.all fun kernel =>
        decide kernel.Proper && decide (kernel.Sized smallSizes)) = true := by decide +kernel
  cases generated : generate false false smallRecord smallOperation with
  | error fault =>
    rw [generated] at accepted
    cases accepted
  | ok program =>
    rw [generated] at accepted
    refine ⟨program, rfl, fun kernel member => ?_⟩
    simpa using List.all_eq_true.mp accepted kernel member

end TunedKernel.MatrixProduct
