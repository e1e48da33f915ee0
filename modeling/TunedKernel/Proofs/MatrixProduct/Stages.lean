/-
**What a group does in a matrix product, from barrier to barrier.**

* `sum` — the first terms of the product for an element of the result, folded.
* `Progress` — the state of a group that has taken in so many terms.
* `Filled` — the tiles in use hold the operands' elements.
* `begin_leads`, `fill_leads`, `compute_leads`, `tile_leads`, `walk_leads` — how a group gets from
  one to the next.
-/

import TunedKernel.Proofs.MatrixProduct.Launch

namespace TunedKernel.MatrixProduct

variable {α : Type} {r : Reading α} {p : ProductTuning} {type : NumericType} {problem : Problem}
  {target : MatrixOperand} {store : Step} {names₀ : Names α} {groups₀ groups₁ : Nat}

/-- The product of the statement. -/
def Problem.product (problem : Problem) : Product :=
  ⟨.matrix problem.lhs, some (.matrix problem.rhs), problem.combine, problem.reduce⟩

/-- The first terms of the product for an element of the result, folded. -/
def sum (r : Reading α) (type : NumericType) (problem : Problem) (row col n : Nat) : α :=
  r.elements.fold type problem.reduce ((List.range n).map fun k =>
    problem.product.value r { row := row, col := k } { row := k, col := col })

/-- More terms are taken in after the first ones. -/
theorem sum_add (row col n count : Nat) : sum r type problem row col (n + count) =
    ((List.range count).map fun u => problem.product.value r { row := row, col := n + u }
      { row := n + u, col := col }).foldl (r.elements.reduce problem.reduce)
        (sum r type problem row col n) :=
  foldl_range_add ..

/-! ### Names -/

theorem binders_fetchTile {deep : Bool} {tile : LocalMemory} {extent : Nat}
    {source : Term → Term → Term} : (fetchTile p deep tile extent source).binders = ["a", "b"] := by
  cases deep <;> rfl

theorem binders_onlyIf {condition : Bool} {holds : Prop} {code : Code} {names : List String}
    {x : String} (within : condition = true → holds) (binders : code.binders = names)
    (bound : x ∈ (onlyIf condition code).binders) : holds ∧ x ∈ names := by
  cases condition with
  | false => cases bound
  | true => exact ⟨within rfl, binders ▸ bound⟩

/-- Code that is there under a condition only. -/
theorem onlyIf_leads {q : Station α} {names : Names α} {m : Memory α} {condition : Bool}
    {code : Code} {goal : Names α → Memory α → Prop}
    (used : condition = true → q.Leads code names m goal)
    (unused : condition = false → goal names m) :
    q.Leads (onlyIf condition code) names m goal := by
  cases condition with
  | false => exact .done (unused rfl)
  | true => exact used rfl

theorem binders_onlyIf_barrier {condition : Bool} :
    (onlyIf condition (Code.ofSteps [.barrier])).binders = [] := by
  cases condition <;> rfl

/-- Filling the tiles binds the counters of the fetches only. -/
theorem binders_share {x : String} (bound : x ∈ (onlyIf p.stageLeft (fetchLeft (.of p type) problem.lhs) ++
    onlyIf p.stageRight (fetchRight (.of p type) problem.rhs)).binders) :
    p.staged = true ∧ x ∈ ["a", "b"] := by
  rw [fetchLeft_eq, fetchRight_eq] at bound
  rcases Code.mem_binders_append.mp bound with bound | bound
  · exact binders_onlyIf (fun left => Bool.or_eq_true_iff.mpr (Or.inl left)) binders_fetchTile bound
  · exact binders_onlyIf (fun right => Bool.or_eq_true_iff.mpr (Or.inr right)) binders_fetchTile bound

/-- The code for a tile binds names of loops only. -/
theorem binders_tileCode {x : String} (bound : x ∈ (tileCode (.of p type) problem).binders) :
    x ∈ ["k", "kk", "m", "n"] ∨ p.staged = true ∧ x ∈ ["a", "b"] := by
  obtain ⟨piece, member, bound⟩ := Code.mem_binders_join.mp bound
  have barrier (bound : x ∈ (onlyIf p.staged (Code.ofSteps [.barrier])).binders) : False := by
    rw [binders_onlyIf_barrier] at bound
    cases bound
  simp only [List.mem_cons, List.not_mem_nil, or_false] at member
  rcases member with rfl | rfl | rfl | rfl | rfl
  · exact Or.inr (binders_share (Code.mem_binders_append.mpr (Or.inl bound)))
  · exact Or.inr (binders_share (Code.mem_binders_append.mpr (Or.inr bound)))
  · exact (barrier bound).elim
  · refine Or.inl ?_
    rw [Walk.around_plain rfl rfl] at bound
    replace bound : x ∈ ["k", "kk", "m", "kk", "n", "kk", "m", "n"] := bound
    exact (show ∀ x ∈ ["k", "kk", "m", "kk", "n", "kk", "m", "n"], x ∈ ["k", "kk", "m", "n"]
      by decide) x bound
  · exact (barrier bound).elim

/-- What the prologue binds. -/
theorem mem_binders_prologue {x : String} : x ∈ (prologue (.of p type) type).binders ↔
    (p.stageLeft = true ∧ x = "lA" ∨ p.stageRight = true ∧ x = "lB") ∨
      x ∈ ["lid0", "lid1", "gm", "gn", "rC", "rA", "rB"] ∨
        p.staged = true ∧ x ∈ ["flat", "fid0", "fid1"] := by
  have tiles : x ∈ (Code.ofSteps ((Tiling.of p type).memories.map Step.declareLocal)).binders ↔
      p.stageLeft = true ∧ x = "lA" ∨ p.stageRight = true ∧ x = "lB" := by
    have used : (Tiling.of p type).memories =
        (if p.stageLeft then [(Tiling.of p type).left] else []) ++
          if p.stageRight then [(Tiling.of p type).right] else [] := rfl
    rw [used]
    cases p.stageLeft <;> cases p.stageRight <;>
      simp [Code.ofSteps, Code.binders, Step.binder?, Tiling.of]
  have fetches : x ∈ (Code.ofSteps (fetchSteps p)).binders ↔
      p.staged = true ∧ x ∈ ["flat", "fid0", "fid1"] := by
    unfold fetchSteps
    cases p.staged <;> simp [Code.ofSteps, Code.binders, Step.binder?]
  have numbers : (Code.ofSteps (numberSteps (.of p type))).binders = ["lid0", "lid1", "gm", "gn"] := rfl
  have registers : (Code.ofSteps (registerSteps p type)).binders = ["rC", "rA", "rB"] := rfl
  rw [prologue_eq, Code.ofSteps_append, Code.mem_binders_append, Code.mem_binders_append,
    Code.mem_binders_append, tiles, numbers]
  show _ ∨ (_ ∨ x ∈ (Code.ofSteps (fetchSteps p)).binders) ∨
    x ∈ (Code.ofSteps (registerSteps p type)).binders ↔ _
  rw [fetches, registers, show ["lid0", "lid1", "gm", "gn", "rC", "rA", "rB"] =
    ["lid0", "lid1", "gm", "gn"] ++ ["rC", "rA", "rB"] from rfl, List.mem_append]
  tauto

/-- The names that the code after the prologue binds for a record. -/
def Active (p : ProductTuning) (x : String) : Prop :=
  x ∈ ["k0", "k", "kk", "m", "n", "row", "col"] ∨ p.staged = true ∧ x ∈ ["a", "b"]

theorem mem_loopNames_of_active {x : String} (active : Active p x) : x ∈ loopNames := by
  rcases active with member | ⟨-, member⟩
  · exact (show ∀ x ∈ ["k0", "k", "kk", "m", "n", "row", "col"], x ∈ loopNames by decide) x member
  · exact (show ∀ x ∈ ["a", "b"], x ∈ loopNames by decide) x member

/-- The loop over the tiles binds such names. -/
theorem active_of_tile {x : String} (bound : x ∈ "k0" :: (tileCode (.of p type) problem).binders) :
    Active p x := by
  rcases List.mem_cons.mp bound with rfl | bound
  · exact Or.inl List.mem_cons_self
  · rcases binders_tileCode bound with member | fetch
    · exact Or.inl ((show ∀ x ∈ ["k", "kk", "m", "n"],
        x ∈ ["k0", "k", "kk", "m", "n", "row", "col"] by decide) x member)
    · exact Or.inr fetch

/-- Its counter outlasts a tile. -/
theorem k0_fresh : "k0" ∉ (tileCode (.of p type) problem).binders := by
  intro bound
  rcases binders_tileCode bound with member | ⟨-, fetch⟩
  · exact absurd member (by decide)
  · exact absurd fetch (by decide)

theorem mem_tileCode_of_fetch (staged : p.staged = true) {x : String} (fetch : x ∈ ["a", "b"]) :
    x ∈ (tileCode (.of p type) problem).binders := by
  rcases Bool.or_eq_true_iff.mp staged with left | right
  · refine Code.mem_binders_join.mpr ⟨_, List.mem_cons_self, ?_⟩
    rw [show (Tiling.of p type).record.stageLeft = true from left, onlyIf, if_pos rfl, fetchLeft_eq,
      binders_fetchTile]
    exact fetch
  · refine Code.mem_binders_join.mpr ⟨_, List.mem_cons_of_mem _ List.mem_cons_self, ?_⟩
    rw [show (Tiling.of p type).record.stageRight = true from right, onlyIf, if_pos rfl,
      fetchRight_eq, binders_fetchTile]
    exact fetch

/-- All of them are bound by the code of the kernel. -/
theorem mem_binders_of_active {x : String} (active : Active p x) :
    x ∈ (body (.of p type) type problem store).binders := by
  have inTile (bound : x ∈ "k0" :: (tileCode (.of p type) problem).binders) :
      x ∈ (body (.of p type) type problem store).binders := by
    refine Code.mem_binders_join.mpr ⟨_, List.mem_cons_of_mem _ (List.mem_cons_of_mem _
      List.mem_cons_self), ?_⟩
    rw [Walk.around_plain rfl rfl]
    rcases List.mem_cons.mp bound with rfl | bound
    · exact List.mem_cons_self
    · exact List.mem_cons_of_mem _ (List.mem_append_left _ bound)
  have inFinish (bound : x ∈ ["m", "n", "row", "col"]) :
      x ∈ (body (.of p type) type problem store).binders := by
    refine Code.mem_binders_join.mpr ⟨finish p store, by simp [Tiling.of], ?_⟩
    show x ∈ "m" :: ("n" :: ((["row"] ++ (["col"] ++ (store.binder?.toList ++ []))) ++ []) ++ [])
    simp only [List.mem_cons, List.not_mem_nil, or_false] at bound
    rcases bound with rfl | rfl | rfl | rfl <;> simp
  rcases active with member | ⟨staged, member⟩
  · have depth : "k" ∈ (tileCode (.of p type) problem).binders ∧
        "kk" ∈ (tileCode (.of p type) problem).binders := by
      have walk : ∀ x ∈ ["k", "kk"], x ∈ ((Walk.stepped "k" (.count p.kl.toNat) p.ks.toNat).around
          (advance (.of p type) problem)).binders := by
        rw [Walk.around_plain rfl rfl]
        exact show ∀ x ∈ ["k", "kk"], x ∈ ["k", "kk", "m", "kk", "n", "kk", "m", "n"] by decide
      exact ⟨Code.mem_binders_join.mpr ⟨_, by simp [Tiling.of], walk "k" (by decide)⟩,
        Code.mem_binders_join.mpr ⟨_, by simp [Tiling.of], walk "kk" (by decide)⟩⟩
    simp only [List.mem_cons, List.not_mem_nil, or_false] at member
    rcases member with rfl | rfl | rfl | rfl | rfl | rfl | rfl
    · exact inTile List.mem_cons_self
    · exact inTile (List.mem_cons_of_mem _ depth.1)
    · exact inTile (List.mem_cons_of_mem _ depth.2)
    · exact inFinish (by decide)
    · exact inFinish (by decide)
    · exact inFinish (by decide)
    · exact inFinish (by decide)
  · exact inTile (List.mem_cons_of_mem _ (mem_tileCode_of_fetch staged member))

/-- **What the code of the kernel binds**: its prologue, and the names of its loops. -/
theorem mem_binders_body (free : store.binder? = none) {x : String} :
    x ∈ (body (.of p type) type problem store).binders ↔
      x ∈ (prologue (.of p type) type).binders ∨ Active p x := by
  constructor
  · intro bound
    obtain ⟨piece, member, bound⟩ := Code.mem_binders_join.mp bound
    simp only [List.mem_cons, List.not_mem_nil, or_false] at member
    rcases member with rfl | rfl | rfl | rfl
    · exact Or.inl bound
    · exact Or.inr (Or.inl ((show ∀ x ∈ ["m", "n"],
        x ∈ ["k0", "k", "kk", "m", "n", "row", "col"] by decide) x bound))
    · rw [Walk.around_plain rfl rfl] at bound
      exact Or.inr (active_of_tile (List.mem_cons.mpr ((List.mem_cons.mp bound).imp id fun inside =>
        (List.mem_append.mp inside).resolve_right List.not_mem_nil)))
    · replace bound : x ∈ "m" :: ("n" :: ((["row"] ++ (["col"] ++ (store.binder?.toList ++ []))) ++ [])
        ++ []) := bound
      rw [free] at bound
      exact Or.inr (Or.inl ((show ∀ x ∈ ["m", "n", "row", "col"],
        x ∈ ["k0", "k", "kk", "m", "n", "row", "col"] by decide) x bound))
  · rintro (entered | active)
    · exact Code.mem_binders_join.mpr ⟨_, List.mem_cons_self, entered⟩
    · exact mem_binders_of_active active

/-- They are variables of the kernel's own. -/
theorem binders_body (free : store.binder? = none) {x : String}
    (bound : x ∈ (body (.of p type) type problem store).binders) :
    x ∈ loopNames ++
      ["lA", "lB", "lid0", "lid1", "gm", "gn", "flat", "fid0", "fid1", "rC", "rA", "rB"] := by
  rcases (mem_binders_body free).mp bound with entered | active
  · refine List.mem_append_right _ ?_
    rcases mem_binders_prologue.mp entered with (⟨-, rfl⟩ | ⟨-, rfl⟩) | number | ⟨-, fetch⟩
    · decide
    · decide
    · exact (show ∀ x ∈ ["lid0", "lid1", "gm", "gn", "rC", "rA", "rB"], x ∈ ["lA", "lB", "lid0", "lid1",
        "gm", "gn", "flat", "fid0", "fid1", "rC", "rA", "rB"] by decide) x number
    · exact (show ∀ x ∈ ["flat", "fid0", "fid1"], x ∈ ["lA", "lB", "lid0", "lid1", "gm", "gn", "flat",
        "fid0", "fid1", "rC", "rA", "rB"] by decide) x fetch
  · exact List.mem_append_left _ (mem_loopNames_of_active active)

/-- What a worker's names stand for after the prologue, given what they stood for at first. -/
structure Named (p : ProductTuning) (type : NumericType) (problem : Problem) (store : Step)
    (names₀ : Names α) (w : Worker) (names : Names α) : Prop where
  settled : names₀.Same (body (.of p type) type problem store).binders names
  ready : Ready p w names

theorem Named.after {w : Worker} {names names' : Names α} {bound : List String}
    (named : Named p type problem store names₀ w names) (same : names.Same bound names')
    (active : ∀ x ∈ bound, Active p x) : Named p type problem store names₀ w names' where
  settled := named.settled.trans (same.mono fun x member => mem_binders_of_active (active x member))
  ready := named.ready.after (same.mono fun x member => mem_loopNames_of_active (active x member))

/-- A kernel over a memory, with what its names have to stand for. -/
structure Setting (r : Reading α) (p : ProductTuning) (type : NumericType) (problem : Problem)
    (target : MatrixOperand) (store : Step) (names₀ : Names α) (groups₀ groups₁ : Nat) : Prop where
  valid : p.Valid
  fits : Fits p target r.bindings groups₀ groups₁
  left : problem.lhs.name ≠ target.name
  right : problem.rhs.name ≠ target.name
  known : ∀ names, names₀.Same (body (.of p type) type problem store).binders names →
    (Expr.matrix problem.lhs).Known 1 r.host r.bindings names ∧
      (Expr.matrix problem.rhs).Known 1 r.host r.bindings names
  depth : ∀ names, names₀.Same (body (.of p type) type problem store).binders names →
    problem.lhs.logicalCols.Known r.bindings names
  constants : ∀ names, names₀.Same (body (.of p type) type problem store).binders names →
    Constants names

variable {g : (launch p groups₀ groups₁).Group} {stage : Stage (launch p groups₀ groups₁) α}
  {reads writes : Set Place}

/-! ### Filling the tiles -/

section Worker

variable {l : (launch p groups₀ groups₁).Lane} {names : Names α} {m : Memory α} {n : Nat}

/-- The group reads the elements of a buffer that is not the result. -/
theorem reads_input {use : Use (launch p groups₀ groups₁)} {a : MatrixOperand}
    (other : a.name ≠ target.name) (index : Nat) : .global a.name index ∈
      (((footing p target r.bindings groups₀ groups₁).phase g use).station r.elements g l).reads :=
  Or.inr other

/-- A worker while the tiles are filled. -/
abbrev fetcher (r : Reading α) (p : ProductTuning) (problem : Problem) (target : MatrixOperand)
    (g : (launch p groups₀ groups₁).Group) (l : (launch p groups₀ groups₁).Lane) : Station α :=
  ((footing p target r.bindings groups₀ groups₁).phase g
    (fetching p problem groups₀ groups₁ g)).station r.elements g l

/-- A worker fetches its share of the left tile. -/
theorem fetchLeft_leads (setting : Setting r p type problem target store names₀ groups₀ groups₁)
    (staged : p.stageLeft = true)
    (named : Named p type problem store names₀ ((launch p groups₀ groups₁).worker g l) names)
    (atTile : names "k0" = some (.index n))
    (buffers : ∀ buffer i, m (.global buffer i) = r.memory (.global buffer i)) :
    (fetcher r p problem target g l).Leads
      (fetchLeft (.of p type) problem.lhs) names m fun _ m' =>
      (∀ d < p.kl.toNat, ∀ x < p.localSize0.toNat * p.ms.toNat,
        Fills p problem.lhs.rowsAdjacent ((launch p groups₀ groups₁).worker g l) d x →
        (m' (.shared g.triple "lA" [d, x])).value = r.element problem.lhs.name
          (problem.lhs.position r.bindings
            (g.1.val * (p.localSize0.toNat * p.ms.toNat) + x) (n + d))) ∧
      ∀ place, (∀ subscripts, place ≠ .shared g.triple "lA" subscripts) → m' place = m place := by
  have both : p.staged = true := Bool.or_eq_true_iff.mpr (Or.inl staged)
  rw [fetchLeft_eq]
  refine (fetchTile_leads setting.valid both (inGroup g l) named.ready
    (fun d x => r.element problem.lhs.name (problem.lhs.position r.bindings
      (g.1.val * (p.localSize0.toNat * p.ms.toNat) + x) (n + d)))
    (named.ready.left staged) (show "lA" ∉ ["a", "b"] by decide) ?_ ?_).weaken ?_
  · intro d depth x across fills
    exact ⟨⟨rfl, d, x, Or.inl ⟨rfl, fills⟩⟩, rfl, d, x, Or.inl ⟨rfl, fills⟩⟩
  · intro d depth x across s t names' m' same atDepth atAcross others
    have named' := named.after same fun x member => Or.inr ⟨both, member⟩
    have gives := element_gives (m := m') (setting.known names' named'.settled).1
      (Term.number?_add (Term.number?_name named'.ready.gm) atAcross)
      (Term.number?_add (Term.number?_name ((same "k0" (show "k0" ∉ ["a", "b"] by decide)).trans
        atTile)) atDepth) (reads_input setting.left _)
    rw [others _ fun _ _ => Place.noConfusion, buffers] at gives
    exact gives
  · rintro _ m' - ⟨filled, others⟩
    exact ⟨filled, fun place none => others place fun k _ x _ _ => none _⟩

/-- A worker fetches its share of the right tile. -/
theorem fetchRight_leads (setting : Setting r p type problem target store names₀ groups₀ groups₁)
    (staged : p.stageRight = true)
    (named : Named p type problem store names₀ ((launch p groups₀ groups₁).worker g l) names)
    (atTile : names "k0" = some (.index n))
    (buffers : ∀ buffer i, m (.global buffer i) = r.memory (.global buffer i)) :
    (fetcher r p problem target g l).Leads
      (fetchRight (.of p type) problem.rhs) names m fun _ m' =>
      (∀ d < p.kl.toNat, ∀ x < p.localSize1.toNat * p.ns.toNat,
        Fills p (!problem.rhs.rowsAdjacent) ((launch p groups₀ groups₁).worker g l) d x →
        (m' (.shared g.triple "lB" [d, x])).value = r.element problem.rhs.name
          (problem.rhs.position r.bindings (n + d)
            (g.2.1.val * (p.localSize1.toNat * p.ns.toNat) + x))) ∧
      ∀ place, (∀ subscripts, place ≠ .shared g.triple "lB" subscripts) → m' place = m place := by
  have both : p.staged = true := Bool.or_eq_true_iff.mpr (Or.inr staged)
  rw [fetchRight_eq]
  refine (fetchTile_leads setting.valid both (inGroup g l) named.ready
    (fun d x => r.element problem.rhs.name (problem.rhs.position r.bindings (n + d)
      (g.2.1.val * (p.localSize1.toNat * p.ns.toNat) + x)))
    (named.ready.right staged) (show "lB" ∉ ["a", "b"] by decide) ?_ ?_).weaken ?_
  · intro d depth x across fills
    exact ⟨⟨rfl, d, x, Or.inr ⟨rfl, fills⟩⟩, rfl, d, x, Or.inr ⟨rfl, fills⟩⟩
  · intro d depth x across s t names' m' same atDepth atAcross others
    have named' := named.after same fun x member => Or.inr ⟨both, member⟩
    have gives := element_gives (m := m') (setting.known names' named'.settled).2
      (Term.number?_add (Term.number?_name ((same "k0" (show "k0" ∉ ["a", "b"] by decide)).trans
        atTile)) atDepth) (Term.number?_add (Term.number?_name named'.ready.gn) atAcross)
      (reads_input setting.right _)
    rw [others _ fun _ _ => Place.noConfusion, buffers] at gives
    exact gives
  · rintro _ m' - ⟨filled, others⟩
    exact ⟨filled, fun place none => others place fun k _ x _ _ => none _⟩

/-- What a worker leaves in the tiles that are in use. -/
structure Share (r : Reading α) (p : ProductTuning) (problem : Problem)
    (g : (launch p groups₀ groups₁).Group) (l : (launch p groups₀ groups₁).Lane) (n : Nat)
    (m m' : Memory α) : Prop where
  left : p.stageLeft = true → ∀ d < p.kl.toNat, ∀ x < p.localSize0.toNat * p.ms.toNat,
    Fills p problem.lhs.rowsAdjacent ((launch p groups₀ groups₁).worker g l) d x →
    (m' (.shared g.triple "lA" [d, x])).value = r.element problem.lhs.name
      (problem.lhs.position r.bindings (g.1.val * (p.localSize0.toNat * p.ms.toNat) + x) (n + d))
  right : p.stageRight = true → ∀ d < p.kl.toNat, ∀ x < p.localSize1.toNat * p.ns.toNat,
    Fills p (!problem.rhs.rowsAdjacent) ((launch p groups₀ groups₁).worker g l) d x →
    (m' (.shared g.triple "lB" [d, x])).value = r.element problem.rhs.name
      (problem.rhs.position r.bindings (n + d) (g.2.1.val * (p.localSize1.toNat * p.ns.toNat) + x))
  others : ∀ place, (∀ array subscripts, place ≠ .shared g.triple array subscripts) →
    m' place = m place

/-- **A worker fills its share of the tiles in use.** -/
theorem share_leads (setting : Setting r p type problem target store names₀ groups₀ groups₁)
    (named : Named p type problem store names₀ ((launch p groups₀ groups₁).worker g l) names)
    (atTile : names "k0" = some (.index n))
    (buffers : ∀ buffer i, m (.global buffer i) = r.memory (.global buffer i)) :
    (fetcher r p problem target g l).Leads
      (onlyIf p.stageLeft (fetchLeft (.of p type) problem.lhs) ++
        onlyIf p.stageRight (fetchRight (.of p type) problem.rhs)) names m fun _ m' =>
      Share r p problem g l n m m' := by
  have left : (fetcher r p problem target g l).Leads
      (onlyIf p.stageLeft (fetchLeft (.of p type) problem.lhs)) names m fun _ m' =>
      (p.stageLeft = true → ∀ d < p.kl.toNat, ∀ x < p.localSize0.toNat * p.ms.toNat,
        Fills p problem.lhs.rowsAdjacent ((launch p groups₀ groups₁).worker g l) d x →
        (m' (.shared g.triple "lA" [d, x])).value = r.element problem.lhs.name
          (problem.lhs.position r.bindings
            (g.1.val * (p.localSize0.toNat * p.ms.toNat) + x) (n + d))) ∧
      ∀ place, (∀ subscripts, place ≠ .shared g.triple "lA" subscripts) → m' place = m place := by
    refine onlyIf_leads (fun staged => ?_) fun unused => ⟨fun staged => ?_, fun _ _ => rfl⟩
    · refine (fetchLeft_leads setting staged named atTile buffers).weaken ?_
      rintro _ m' - ⟨filled, others⟩
      exact ⟨fun _ => filled, others⟩
    · exact absurd (unused.symm.trans staged) Bool.noConfusion
  refine .append (left.weaken ?_)
  rintro names₁ m₁ same₁ ⟨filled₁, others₁⟩
  have active (x : String)
      (bound : x ∈ (onlyIf p.stageLeft (fetchLeft (.of p type) problem.lhs)).binders) :
      Active p x := by
    rw [fetchLeft_eq] at bound
    exact Or.inr (binders_onlyIf (fun left => Bool.or_eq_true_iff.mpr (Or.inl left))
      binders_fetchTile bound)
  have atTile₁ : names₁ "k0" = some (.index n) := by
    rw [same₁ "k0" fun bound => ?_, atTile]
    rw [fetchLeft_eq] at bound
    exact absurd (binders_onlyIf id binders_fetchTile bound).2 (by decide)
  refine onlyIf_leads (fun staged => ?_) fun unused => ⟨filled₁, fun staged => ?_, ?_⟩
  · refine (fetchRight_leads setting staged (named.after same₁ active) atTile₁
      fun buffer i => (others₁ _ fun _ => Place.noConfusion).trans (buffers buffer i)).weaken ?_
    rintro _ m₂ - ⟨filled₂, others₂⟩
    refine ⟨fun left d depth x across fills => ?_, fun _ => filled₂, fun place none => ?_⟩
    · rw [others₂ _ fun _ same => ?_, filled₁ left d depth x across fills]
      exact absurd (Place.shared.inj same).2.1 (by decide)
    · rw [others₂ place (none "lB"), others₁ place (none "lA")]
  · exact absurd (unused.symm.trans staged) Bool.noConfusion
  · exact fun place none => others₁ place (none "lA")

end Worker

/-! ### From barrier to barrier -/

/-- How the workers use the tiles while they multiply; with no tile in use there is no barrier. -/
def multiplying (p : ProductTuning) (problem : Problem) (groups₀ groups₁ : Nat)
    (g : (launch p groups₀ groups₁).Group) : Use (launch p groups₀ groups₁) :=
  if p.staged then computing p groups₀ groups₁ else fetching p problem groups₀ groups₁ g

/-- The state of a group that has taken in so many terms. -/
structure Progress (r : Reading α) (p : ProductTuning) (type : NumericType) (problem : Problem)
    (target : MatrixOperand) (store : Step) (names₀ : Names α)
    (g : (launch p groups₀ groups₁).Group) (use : Use (launch p groups₀ groups₁)) (n : Nat)
    (stage : Stage (launch p groups₀ groups₁) α) : Prop where
  phase : stage.phase = (footing p target r.bindings groups₀ groups₁).phase g use
  named : ∀ l, Named p type problem store names₀ ((launch p groups₀ groups₁).worker g l)
    (stage.names l)
  start : ∀ buffer i, stage.start (.global buffer i) = r.memory (.global buffer i)
  seen : ∀ l buffer i, stage.seen l (.global buffer i) = r.memory (.global buffer i)
  sums : ∀ l, ∀ i < p.ms.toNat, ∀ j < p.ns.toNat,
    (stage.seen l (.own g.triple l.triple "rC" [i, j])).value =
      sum r type problem (rowOf p ((launch p groups₀ groups₁).worker g l) i)
        (colOf p ((launch p groups₀ groups₁).worker g l) j) n

/-- The tiles in use hold the elements of the operands from a term on. -/
structure Filled (r : Reading α) (p : ProductTuning) (problem : Problem)
    (g : (launch p groups₀ groups₁).Group) (n : Nat)
    (stage : Stage (launch p groups₀ groups₁) α) : Prop where
  left : p.stageLeft = true → ∀ l, ∀ d < p.kl.toNat, ∀ x < p.localSize0.toNat * p.ms.toNat,
    (stage.seen l (.shared g.triple "lA" [d, x])).value = r.element problem.lhs.name
      (problem.lhs.position r.bindings (g.1.val * (p.localSize0.toNat * p.ms.toNat) + x) (n + d))
  right : p.stageRight = true → ∀ l, ∀ d < p.kl.toNat, ∀ x < p.localSize1.toNat * p.ns.toNat,
    (stage.seen l (.shared g.triple "lB" [d, x])).value = r.element problem.rhs.name
      (problem.rhs.position r.bindings (n + d) (g.2.1.val * (p.localSize1.toNat * p.ns.toNat) + x))

/-- At a barrier nothing of a group's progress is lost. -/
theorem Progress.barrier (setting : Setting r p type problem target store names₀ groups₀ groups₁)
    {use next : Use (launch p groups₀ groups₁)} (apart : next.Apart) {n : Nat}
    (progress : Progress r p type problem target store names₀ g use n stage) :
    Stage.Leads r.elements g ((footing p target r.bindings groups₀ groups₁).reads g)
      ((footing p target r.bindings groups₀ groups₁).writes g) (Code.ofSteps [.barrier]) stage
      fun after => Progress r p type problem target store names₀ g next n after ∧
        after.names = stage.names ∧ (∀ l, after.seen l = after.start) ∧
        ((footing p target r.bindings groups₀ groups₁).phase g use).Joins stage.start stage.seen
          after.start := by
  refine (Stage.Leads.barrier _ (Footing.apart (separate setting.fits) apart)).weaken ?_
  rintro after - ⟨phase, names, seen, joins⟩
  rw [progress.phase] at joins
  have buffers (buffer : String) (i : Nat) :
      after.start (.global buffer i) = r.memory (.global buffer i) :=
    Footing.joins_same joins (progress.start buffer i) fun l => progress.seen l buffer i
  refine ⟨⟨phase, fun l => names ▸ progress.named l, buffers, fun l buffer i => ?_,
    fun l i row j col => ?_⟩, names, seen, joins⟩
  · rw [seen l, buffers]
  · rw [seen l, Footing.joins_own joins l, progress.sums l i row j col]

/-- Every slot of a tile is filled by some worker of the group. -/
theorem exists_filler (setting : Setting r p type problem target store names₀ groups₀ groups₁)
    (staged : p.staged = true) (g : (launch p groups₀ groups₁).Group) (deep : Bool) (d x : Nat) :
    ∃ l, Fills p deep ((launch p groups₀ groups₁).worker g l) d x := by
  obtain ⟨first, second, below₀, below₁, fills⟩ := exists_fills setting.valid staged deep d x
  exact ⟨(⟨first, below₀⟩, ⟨second, below₁⟩, ⟨0, Nat.one_pos⟩), fills _ rfl rfl⟩

/-- **The workers of a group fill the tiles together.** -/
theorem fill_leads (setting : Setting r p type problem target store names₀ groups₀ groups₁) {n : Nat}
    (progress : Progress r p type problem target store names₀ g
      (fetching p problem groups₀ groups₁ g) n stage)
    (atTile : ∀ l, stage.names l "k0" = some (.index n)) :
    Stage.Leads r.elements g ((footing p target r.bindings groups₀ groups₁).reads g)
      ((footing p target r.bindings groups₀ groups₁).writes g)
      ((onlyIf p.stageLeft (fetchLeft (.of p type) problem.lhs) ++
        onlyIf p.stageRight (fetchRight (.of p type) problem.rhs)) ++
        onlyIf p.staged (Code.ofSteps [.barrier])) stage
      fun next => Progress r p type problem target store names₀ g
        (multiplying p problem groups₀ groups₁ g) n next ∧ Filled r p problem g n next ∧
        ∀ l, next.names l "k0" = some (.index n) := by
  have each (l : (launch p groups₀ groups₁).Lane) :
      (stage.phase.station r.elements g l).Leads
        (onlyIf p.stageLeft (fetchLeft (.of p type) problem.lhs) ++
          onlyIf p.stageRight (fetchRight (.of p type) problem.rhs)) (stage.names l) (stage.seen l)
        fun _ => Share r p problem g l n (stage.seen l) := by
    rw [progress.phase]
    exact share_leads setting (progress.named l) (atTile l) (progress.seen l)
  refine .append ((Stage.Leads.work each).weaken ?_)
  rintro next same ⟨phase, start, shares⟩
  have atTile' (l : (launch p groups₀ groups₁).Lane) : next.names l "k0" = some (.index n) := by
    rw [same l "k0" fun bound => absurd (binders_share bound).2 (by decide), atTile l]
  have kept : Progress r p type problem target store names₀ g
      (fetching p problem groups₀ groups₁ g) n next := by
    refine ⟨phase.trans progress.phase, fun l => ?_, fun buffer i => ?_, fun l buffer i => ?_,
      fun l i row j col => ?_⟩
    · exact (progress.named l).after (same l) fun x bound => Or.inr (binders_share bound)
    · rw [start, progress.start]
    · rw [(shares l).others _ fun _ _ => Place.noConfusion, progress.seen]
    · rw [(shares l).others _ fun _ _ => Place.noConfusion, progress.sums l i row j col]
  cases staged : p.staged with
  | false =>
    have none := Bool.or_eq_false_iff.mp staged
    refine .done ⟨?_, ⟨fun left => ?_, fun right => ?_⟩, atTile'⟩
    · rw [multiplying, staged]
      exact kept
    · exact absurd (none.1.symm.trans left) Bool.noConfusion
    · exact absurd (none.2.symm.trans right) Bool.noConfusion
  | true =>
    refine (kept.barrier setting computing_apart).weaken ?_
    rintro after - ⟨progress', names, seen, joins⟩
    refine ⟨?_, ⟨fun left l d depth x across => ?_, fun right l d depth x across => ?_⟩, fun l => ?_⟩
    · rw [multiplying, staged]
      exact progress'
    · obtain ⟨l', fills⟩ := exists_filler setting staged g problem.lhs.rowsAdjacent d x
      rw [seen l, Footing.joins_shared joins (l := l') ⟨d, x, Or.inl ⟨rfl, fills⟩⟩]
      exact (shares l').left left d depth x across fills
    · obtain ⟨l', fills⟩ := exists_filler setting staged g (!problem.rhs.rowsAdjacent) d x
      rw [seen l, Footing.joins_shared joins (l := l') ⟨d, x, Or.inr ⟨rfl, fills⟩⟩]
      exact (shares l').right right d depth x across fills
    · rw [names, atTile' l]

/-- A worker while the tiles are read. -/
abbrev multiplier (r : Reading α) (p : ProductTuning) (problem : Problem) (target : MatrixOperand)
    (g : (launch p groups₀ groups₁).Group) (l : (launch p groups₀ groups₁).Lane) : Station α :=
  ((footing p target r.bindings groups₀ groups₁).phase g
    (multiplying p problem groups₀ groups₁ g)).station r.elements g l

theorem reads_tile (staged : p.staged = true) (l : (launch p groups₀ groups₁).Lane)
    (array : String) (subscripts : List Nat) :
    .shared g.triple array subscripts ∈ (multiplier r p problem target g l).reads := by
  refine ⟨rfl, ?_⟩
  rw [multiplying, staged]
  trivial

/-- **The workers of a group take in the terms of a tile.** -/
theorem compute_leads (setting : Setting r p type problem target store names₀ groups₀ groups₁)
    {n : Nat} (progress : Progress r p type problem target store names₀ g
      (multiplying p problem groups₀ groups₁ g) n stage) (filled : Filled r p problem g n stage)
    (atTile : ∀ l, stage.names l "k0" = some (.index n)) :
    Stage.Leads r.elements g reads writes
      ((Walk.stepped "k" (.count p.kl.toNat) p.ks.toNat).around (advance (.of p type) problem)) stage
      (Progress r p type problem target store names₀ g (multiplying p problem groups₀ groups₁ g)
        (n + p.kl.toNat)) := by
  have each (l : (launch p groups₀ groups₁).Lane) : (stage.phase.station r.elements g l).Leads
      ((Walk.stepped "k" (.count p.kl.toNat) p.ks.toNat).around (advance (.of p type) problem))
      (stage.names l) (stage.seen l) fun _ m' =>
      (∀ i < p.ms.toNat, ∀ j < p.ns.toNat, (m' (.own g.triple l.triple "rC" [i, j])).value =
        sum r type problem (rowOf p ((launch p groups₀ groups₁).worker g l) i)
          (colOf p ((launch p groups₀ groups₁).worker g l) j) (n + p.kl.toNat)) ∧
      ((launch p groups₀ groups₁).worker g l).Private (stage.seen l) m' := by
    rw [progress.phase]
    have named := progress.named l
    have active : ∀ x ∈ ["k", "kk", "m", "n"], Active p x := fun x member => Or.inl
      ((show ∀ x ∈ ["k", "kk", "m", "n"], x ∈ ["k0", "k", "kk", "m", "n", "row", "col"] by decide) x
        member)
    have element {a : MatrixOperand} (other : a.name ≠ target.name) (row col : Nat) :
        .global a.name (a.position r.bindings row col) ∈
          (multiplier r p problem target g l).reads ∧
        (stage.seen l (.global a.name (a.position r.bindings row col))).value =
          r.element a.name (a.position r.bindings row col) := by
      refine ⟨reads_input other _, ?_⟩
      rw [progress.seen]
      rfl
    refine (depth_leads (q := multiplier r p problem target g l)
      (a := fun i d => r.element problem.lhs.name (problem.lhs.position r.bindings
        (rowOf p ((launch p groups₀ groups₁).worker g l) i) (n + d)))
      (b := fun j d => r.element problem.rhs.name (problem.rhs.position r.bindings (n + d)
        (colOf p ((launch p groups₀ groups₁).worker g l) j)))
      setting.valid named.ready (Footing.owns l) ?_ ?_ (progress.sums l)).weaken ?_
    · intro k u depth i row names' m' same atStep atDepth atM unchanged
      exact leftTerm_gives named.ready (inGroup g l) (atTile l)
        (fun staged d below x across => ⟨reads_tile (Bool.or_eq_true_iff.mpr (Or.inl staged)) l _ _,
          filled.left staged l d below x across⟩)
        (fun names' same => (setting.known names' (named.after same active).settled).1)
        (fun _ d _ i _ => element setting.left _ _) depth row same atStep atDepth atM unchanged
    · intro k u depth j col names' m' same atStep atDepth atN unchanged
      exact rightTerm_gives named.ready (inGroup g l) (atTile l)
        (fun staged d below x across => ⟨reads_tile (Bool.or_eq_true_iff.mpr (Or.inr staged)) l _ _,
          filled.right staged l d below x across⟩)
        (fun names' same => (setting.known names' (named.after same active).settled).2)
        (fun _ d _ j _ => element setting.right _ _) depth col same atStep atDepth atN unchanged
    · rintro _ m' - ⟨sums, unchanged⟩
      refine ⟨fun i row j col => ?_, unchanged⟩
      rw [sum_add]
      exact sums i row j col
  refine (Stage.Leads.work each).weaken ?_
  rintro next same ⟨phase, start, worked⟩
  refine ⟨phase.trans progress.phase, fun l => (progress.named l).after (same l) fun x bound => ?_,
    fun buffer i => ?_, fun l buffer i => ?_, fun l => (worked l).1⟩
  · rw [Walk.around_plain rfl rfl] at bound
    exact Or.inl ((show ∀ x ∈ ["k", "kk", "m", "kk", "n", "kk", "m", "n"],
      x ∈ ["k0", "k", "kk", "m", "n", "row", "col"] by decide) x bound)
  · rw [start, progress.start]
  · rw [(worked l).2 _ fun _ _ => Place.noConfusion, progress.seen]

/-- **A group takes in one tile after the other.** -/
theorem tile_leads (setting : Setting r p type problem target store names₀ groups₀ groups₁)
    {n : Nat} (progress : Progress r p type problem target store names₀ g
      (fetching p problem groups₀ groups₁ g) n stage)
    (atTile : ∀ l, stage.names l "k0" = some (.index n)) :
    Stage.Leads r.elements g ((footing p target r.bindings groups₀ groups₁).reads g)
      ((footing p target r.bindings groups₀ groups₁).writes g) (tileCode (.of p type) problem) stage
      (Progress r p type problem target store names₀ g (fetching p problem groups₀ groups₁ g)
        (n + p.kl.toNat)) := by
  have pieces : tileCode (.of p type) problem =
      ((onlyIf p.stageLeft (fetchLeft (.of p type) problem.lhs) ++
        onlyIf p.stageRight (fetchRight (.of p type) problem.rhs)) ++
        onlyIf p.staged (Code.ofSteps [.barrier])) ++
      ((Walk.stepped "k" (.count p.kl.toNat) p.ks.toNat).around (advance (.of p type) problem) ++
        (onlyIf p.staged (Code.ofSteps [.barrier]) ++ .done)) := by
    rw [Code.append_assoc, Code.append_assoc]
    rfl
  rw [pieces]
  refine .append ((fill_leads setting progress atTile).weaken ?_)
  rintro next - ⟨progress', filled, atTile'⟩
  refine .append ((compute_leads setting progress' filled atTile').weaken ?_)
  rintro after - progress''
  rw [Code.append_done]
  cases staged : p.staged with
  | false =>
    rw [multiplying, staged] at progress''
    exact .done progress''
  | true =>
    have apart : (fetching p problem groups₀ groups₁ g).Apart := fetching_apart
    refine (progress''.barrier setting apart).weaken ?_
    rintro last - ⟨progress₃, -⟩
    exact progress₃

/-! ### Along the shared dimension -/

theorem Progress.bind {use : Use (launch p groups₀ groups₁)} {n : Nat}
    (progress : Progress r p type problem target store names₀ g use n stage) (binding : Binding α) :
    Progress r p type problem target store names₀ g use n (stage.bind "k0" binding) where
  phase := progress.phase
  named l := (progress.named l).after ((Names.Same.refl ["k0"] _).bind List.mem_cons_self binding)
    fun x member => Or.inl ((show ∀ x ∈ ["k0"], x ∈ ["k0", "k", "kk", "m", "n", "row", "col"]
      by decide) x member)
  start := progress.start
  seen := progress.seen
  sums := progress.sums

/-- **A group takes in all terms.** -/
theorem walk_leads (setting : Setting r p type problem target store names₀ groups₀ groups₁)
    (whole : p.kl.toNat ∣ problem.lhs.logicalCols.size r.bindings)
    (progress : Progress r p type problem target store names₀ g
      (fetching p problem groups₀ groups₁ g) 0 stage) :
    Stage.Leads r.elements g ((footing p target r.bindings groups₀ groups₁).reads g)
      ((footing p target r.bindings groups₀ groups₁).writes g)
      ((Walk.stepped "k0" problem.lhs.logicalCols.term p.kl.toNat).around
        (tileCode (.of p type) problem)) stage
      (Progress r p type problem target store names₀ g (fetching p problem groups₀ groups₁ g)
        (problem.lhs.logicalCols.size r.bindings)) := by
  rw [Walk.around_plain rfl rfl]
  refine Stage.Leads.range setting.valid.kl (fun l => Walk.counts_stepped "k0" setting.valid.kl
      fun names' same => Extent.number?_term
        (setting.depth names' ((progress.named l).after same fun x => active_of_tile).settled))
    (fun t here => Progress r p type problem target store names₀ g
      (fetching p problem groups₀ groups₁ g) (t * p.kl.toNat) here) k0_fresh ?_ ?_ ?_
  · rw [Nat.zero_mul]
    exact progress.bind _
  · intro t below here same atTile holds
    rw [Nat.zero_add] at atTile
    refine (tile_leads setting holds atTile).weaken ?_
    intro next _ further
    rw [Nat.succ_mul]
    exact further.bind _
  · intro here same holds
    rw [trips_of_dvd setting.valid.kl whole] at holds
    exact .done holds

/-- **A group begins with the neutral value** for every element of the result. -/
theorem begin_leads (setting : Setting r p type problem target store names₀ groups₀ groups₁) :
    Stage.Leads r.elements g reads writes
      (prologue (.of p type) type ++ clear p (problem.reduce.neutral type))
      (.first ((footing p target r.bindings groups₀ groups₁).phase g
        (fetching p problem groups₀ groups₁ g)) names₀ r.memory)
      (Progress r p type problem target store names₀ g (fetching p problem groups₀ groups₁ g) 0) := by
  have settled {names' : Names α} (same : names₀.Same (prologue (.of p type) type ++
      clear p (problem.reduce.neutral type)).binders names') :
      names₀.Same (body (.of p type) type problem store).binders names' := by
    refine same.mono fun x bound => ?_
    rcases Code.mem_binders_append.mp bound with bound | bound
    · exact Code.mem_binders_join.mpr ⟨_, List.mem_cons_self, bound⟩
    · exact Code.mem_binders_join.mpr ⟨_, List.mem_cons_of_mem _ List.mem_cons_self, bound⟩
  have each (l : (launch p groups₀ groups₁).Lane) : (fetcher r p problem target g l).Leads
      (prologue (.of p type) type ++ clear p (problem.reduce.neutral type)) names₀ r.memory
      fun names' m' => Ready p ((launch p groups₀ groups₁).worker g l) names' ∧
        (∀ i < p.ms.toNat, ∀ j < p.ns.toNat, (m' (.own g.triple l.triple "rC" [i, j])).value =
          r.elements.neutral type problem.reduce) ∧
        ((launch p groups₀ groups₁).worker g l).Private r.memory m' := by
    refine .append ((prologue_leads setting.valid.fetch0).weaken ?_)
    rintro names₁ m₁ same₁ ⟨rfl, ready⟩
    have known := setting.constants names₁ (settled (same₁.mono fun x bound =>
      Code.mem_binders_append.mpr (Or.inl bound)))
    refine (clear_leads ready (Footing.owns l) known).weaken ?_
    rintro names₂ m₂ same₂ ⟨cleared, unchanged⟩
    exact ⟨ready.after (same₂.mono (show ∀ x ∈ ["m", "n"], x ∈ loopNames by decide)), cleared,
      unchanged⟩
  refine (Stage.Leads.work each).weaken ?_
  rintro next same ⟨phase, start, begun⟩
  refine ⟨phase, fun l => ⟨settled (same l), (begun l).1⟩, fun buffer i => ?_, fun l buffer i => ?_,
    fun l => (begun l).2.1⟩
  · rw [start]
    rfl
  · rw [(begun l).2.2 _ fun _ _ => Place.noConfusion]

end TunedKernel.MatrixProduct
