/-
**When the loops of matrix products come to their ends.**

A group walks the shared dimension by the depth of a tile, and fetches the tiles in use by the fetch shape,
which need not divide a tile. All of these strides have to reach the ends of their ranges. The unrolled
loops, and the one over the depth of a tile, always come to their ends.

* `FetchPaced`, `Paced` — the strides reach the ends.
* `body_counts`, `reaches_of_halts` — then the code of the kernel counts, and that is so if the first worker
  of the first group halts.
* `generate_terminates_iff` — the kernel of an operation terminates exactly if it is paced.
-/

import TunedKernel.Proofs.Generation.Halting
import TunedKernel.Proofs.MatrixProduct.Stages

namespace TunedKernel.MatrixProduct

variable {p : ProductTuning} {type : NumericType} {op : Operation} {problem : Problem}
  {target : MatrixOperand} {store : Step} {kernel : Kernel} {bindings : Bindings} {w : Worker}
  {given names : Names Unit} {sizes scope : List String} {after : Code}

/-- The workers that fetch a tile reach its ends along both axes, one of which is its depth. -/
def FetchPaced (p : ProductTuning) (deep : Bool) (extent : Nat) : Prop :=
  Reaches p.localFetch1.toNat (if deep then p.kl.toNat else extent) ∧
    Reaches p.localFetch0.toNat (if deep then extent else p.kl.toNat)

/-- Where the result has an element, the tiles reach the end of the shared dimension, and if that has an
element too, the workers that fetch the tiles in use reach their ends. -/
def Paced (p : ProductTuning) (op : Operation) (bindings : Bindings) : Prop :=
  ∀ s ∈ op.statements, ∀ product ∈ s.value.products, ∀ a b, product.lhs = .matrix a →
    product.rhs = some (.matrix b) → 0 < a.logicalRows.size bindings →
    0 < b.logicalCols.size bindings →
      Reaches p.kl.toNat (a.logicalCols.size bindings) ∧ (0 < a.logicalCols.size bindings →
        (p.stageLeft = true →
          FetchPaced p a.rowsAdjacent (p.localSize0.toNat * p.ms.toNat)) ∧
        (p.stageRight = true →
          FetchPaced p (!b.rowsAdjacent) (p.localSize1.toNat * p.ns.toNat)))

/-- What that says of the only product. -/
theorem Accepted.paced_iff (accepted : Accepted op problem target) : Paced p op bindings ↔
    (0 < problem.lhs.logicalRows.size bindings → 0 < problem.rhs.logicalCols.size bindings →
      Reaches p.kl.toNat (problem.lhs.logicalCols.size bindings) ∧
        (0 < problem.lhs.logicalCols.size bindings →
          (p.stageLeft = true →
            FetchPaced p problem.lhs.rowsAdjacent (p.localSize0.toNat * p.ms.toNat)) ∧
          (p.stageRight = true →
            FetchPaced p (!problem.rhs.rowsAdjacent) (p.localSize1.toNat * p.ns.toNat)))) := by
  unfold Paced
  rw [accepted.single, List.forall_mem_singleton, accepted.product, List.forall_mem_singleton]
  constructor
  · exact fun all => all _ _ rfl rfl
  · rintro reaches a b left right
    cases left
    cases right
    exact reaches

/-! ### Code that counts -/

/-- The names that the prologue declares as indices. -/
def places (p : ProductTuning) : List String :=
  (if p.staged then ["fid1", "fid0", "flat"] else []) ++ ["gn", "gm", "lid1", "lid0"]

theorem mem_places {x : String} (member : x ∈ ["gn", "gm", "lid1", "lid0"]) : x ∈ places p :=
  List.mem_append_right _ member

theorem places_sub {x : String} (member : x ∈ places p) :
    x ∈ ["fid1", "fid0", "flat", "gn", "gm", "lid1", "lid0"] := by
  unfold places at member
  split at member
  · exact member
  · exact List.mem_append_right ["fid1", "fid0", "flat"] member

theorem prologue_counts (valid : p.Valid) (further : after.Counts w given sizes (places p)) :
    (prologue (.of p type) type ++ after).Counts w given sizes [] := by
  rw [prologue_eq, Code.append_assoc, Code.append_assoc]
  refine .map (fun memory _ => Step.plain_local List.not_mem_nil) ?_
  have here (x : String) (more : List String) : x ∈ sizes ++ x :: more :=
    List.mem_append_right _ List.mem_cons_self
  have one (x : String) (fresh : x ∉ ["fid1", "fid0", "flat", "gn", "gm", "lid1", "lid0"]) :
      x ∉ places p := fun member => fresh (places_sub member)
  have registers : (Code.ofSteps (registerSteps p type) ++ after).Counts w given sizes (places p) :=
    .plain (Step.plain_array (one "rC" (by decide))) (.plain (Step.plain_array (one "rA" (by decide)))
      (.plain (Step.plain_array (one "rB" (by decide))) further))
  refine ⟨show 0 < 3 by decide, show 1 < 3 by decide, ⟨show 0 < 3 by decide, trivial, ?_⟩,
    ⟨show 1 < 3 by decide, trivial, ?_⟩, ?_⟩
  · exact Or.inr (Or.inr (Or.inl rfl))
  · exact Or.inr (Or.inr (Or.inl rfl))
  · show (Code.ofSteps (fetchSteps p) ++ (Code.ofSteps (registerSteps p type) ++ after)).Counts w given
      sizes ["gn", "gm", "lid1", "lid0"]
    unfold places at registers
    unfold fetchSteps
    cases staged : p.staged with
    | false =>
      rw [staged] at registers
      exact registers
    | true =>
      rw [staged] at registers
      refine ⟨⟨List.mem_append_right _ (by decide), ⟨List.mem_append_right _ (by decide), trivial,
        Or.inr (Or.inr (Or.inl rfl))⟩, Or.inl rfl⟩, ⟨here _ _, trivial, ?_⟩,
        ⟨List.mem_append_right _ (by decide), trivial, ?_⟩, registers⟩
      · exact Or.inr (Or.inr (Or.inr ⟨Or.inr rfl, valid.fetch0⟩))
      · exact Or.inr (Or.inr (Or.inr ⟨Or.inl rfl, valid.fetch0⟩))

/-- Two unrolled loops, one in the other. -/
theorem square_counts {x y : String} {n m : UInt32} {body : Code} (other : x ≠ y)
    (outer : x ∉ body.binders) (inner : y ∉ body.binders)
    (counts : body.Counts w given sizes (y :: x :: scope)) (further : after.Counts w given sizes scope) :
    (Walk.nest [Walk.counted x n.toNat, Walk.counted y m.toNat] body ++ after).Counts w given sizes
      scope := by
  refine .counted n.toNat_lt ?_ (.of_append_done (.counted m.toNat_lt inner counts trivial)) further
  show x ∉ y :: (body.binders ++ [])
  rw [List.append_nil]
  exact fun bound => (List.mem_cons.mp bound).elim other outer

/-- A register is stored into. -/
theorem put_counts {name : String} {row col value : Term} :
    (put (register name row col) value).Counts w given sizes scope :=
  .plain (Step.plain_of_none rfl) trivial

/-- **The code that fetches a tile counts** if the workers reach its ends. -/
theorem fetchTile_counts {deep : Bool} {tile : LocalMemory} {extent : Nat}
    {source : Term → Term → Term} (paced : FetchPaced p deep extent) (first : "fid0" ∈ scope)
    (second : "fid1" ∈ scope) (further : after.Counts w given sizes scope) :
    (fetchTile p deep tile extent source ++ after).Counts w given sizes scope := by
  have inner (target value : Term) (access : ∀ name, target ≠ .name name) :
      (put target value).binders = [] ∧ (put target value).Counts w given sizes ("b" :: "a" :: scope) :=
    ⟨Code.binders_store access, .plain (Step.plain_of_none (Step.binder?_store access)) trivial⟩
  have nested (further' nearer : Nat) (target value : Term) (access : ∀ name, target ≠ .name name)
      (far : Reaches p.localFetch1.toNat further') (near : Reaches p.localFetch0.toNat nearer) :
      (fetch p further' nearer target value ++ after).Counts w given sizes scope := by
    obtain ⟨none, counts⟩ := inner target value access
    refine .cooperative (List.mem_append_right _ second) far ?_ (.of_append_done (.cooperative
      (List.mem_append_right _ (List.mem_cons_of_mem _ first)) near (none ▸ List.not_mem_nil) counts
      trivial)) further
    show "a" ∉ "b" :: ((put target value).binders ++ [])
    rw [none]
    decide
  unfold fetchTile
  cases deep with
  | true => exact nested _ _ _ _ (Tree.access_ne_name tile [v "a"] (v "b")) paced.1 paced.2
  | false => exact nested _ _ _ _ (Tree.access_ne_name tile [v "b"] (v "a")) paced.1 paced.2

/-- Code that is there under a condition counts if it does so under the condition. -/
theorem onlyIf_counts {condition : Bool} {code : Code}
    (used : condition = true → (code ++ after).Counts w given sizes scope)
    (further : after.Counts w given sizes scope) :
    (onlyIf condition code ++ after).Counts w given sizes scope := by
  cases condition with
  | false => exact further
  | true => exact used rfl

/-- One step along the shared dimension. -/
theorem advance_counts : (advance (.of p type) problem).Counts w given sizes scope := by
  have depth {body after : Code} (fresh : "kk" ∉ body.binders)
      (inner : body.Counts w given sizes ("kk" :: scope)) (further : after.Counts w given sizes scope) :
      ((Walk.counted "kk" p.ks.toNat).around body ++ after).Counts w given sizes scope :=
    .counted p.ks.toNat_lt fresh inner further
  refine depth (show "kk" ∉ ["m"] by decide) (.of_append_done (.counted p.ms.toNat_lt
    (show "m" ∉ [] by decide) put_counts trivial)) ?_
  refine depth (show "kk" ∉ ["n"] by decide) (.of_append_done (.counted p.ns.toNat_lt
    (show "n" ∉ [] by decide) put_counts trivial)) ?_
  exact depth (show "kk" ∉ ["m", "n"] by decide) (.of_append_done (square_counts (by decide)
    (show "m" ∉ [] by decide) (show "n" ∉ [] by decide) put_counts trivial)) trivial

/-- **What a group does for one tile counts** if the workers that fetch reach the ends of the tiles. -/
theorem tileCode_counts (valid : p.Valid)
    (left : p.stageLeft = true → FetchPaced p problem.lhs.rowsAdjacent (p.localSize0.toNat * p.ms.toNat))
    (right : p.stageRight = true →
      FetchPaced p (!problem.rhs.rowsAdjacent) (p.localSize1.toNat * p.ns.toNat)) :
    (tileCode (.of p type) problem).Counts w given sizes ("k0" :: places p) := by
  have fetches (staged : p.staged = true) (x : String) (member : x ∈ ["fid1", "fid0", "flat"]) :
      x ∈ "k0" :: places p := by
    refine List.mem_cons_of_mem _ (List.mem_append_left _ ?_)
    rwa [if_pos staged]
  have used {condition : Bool} (holds : condition = true → p.staged = true) {deep : Bool}
      {tile : LocalMemory} {extent : Nat} {source : Term → Term → Term} {after : Code}
      (paced : condition = true → FetchPaced p deep extent)
      (further : after.Counts w given sizes ("k0" :: places p)) :
      (onlyIf condition (fetchTile p deep tile extent source) ++ after).Counts w given sizes
        ("k0" :: places p) :=
    onlyIf_counts (fun here => fetchTile_counts (paced here) (fetches (holds here) "fid0" (by decide))
      (fetches (holds here) "fid1" (by decide)) further) further
  have barrier {after : Code} (further : after.Counts w given sizes ("k0" :: places p)) :
      (onlyIf p.staged (Code.ofSteps [.barrier]) ++ after).Counts w given sizes ("k0" :: places p) :=
    onlyIf_counts (fun _ => .plain (Step.plain_of_none rfl) further) further
  unfold tileCode
  rw [fetchLeft_eq, fetchRight_eq]
  refine used (fun here => Bool.or_eq_true_iff.mpr (Or.inl here)) left
    (used (fun here => Bool.or_eq_true_iff.mpr (Or.inr here)) right (barrier
      (.stepped (Term.stands_count _) (.of_dvd valid.step p.kl.toNat_lt) ?_ (fun _ => advance_counts)
        (barrier trivial))))
  exact show "k" ∉ ["kk", "m", "kk", "n", "kk", "m", "n"] by decide

/-- Carrying out the statement. -/
theorem finish_counts (free : store.binder? = none) :
    (finish p store).Counts w given sizes (places p) := by
  have binders : (Code.ofSteps [.declare .index "row" (resultRow p),
      .declare .index "col" (resultCol p), store]).binders = ["row", "col"] := by
    show ["row"] ++ (["col"] ++ (store.binder?.toList ++ [])) = _
    rw [free]
    rfl
  have inside {x : String} (more : List String) (member : x ∈ ["gn", "gm", "lid1", "lid0"]) :
      x ∈ sizes ++ (more ++ places p) :=
    List.mem_append_right _ (List.mem_append_right _ (mem_places member))
  rw [finish, ← Code.append_done (Walk.nest _ _)]
  refine square_counts (by decide) (binders ▸ by decide) (binders ▸ by decide)
    ⟨⟨⟨inside ["n", "m"] (by decide), inside ["n", "m"] (by decide), Or.inl rfl⟩,
      ⟨List.mem_append_right _ (by simp), trivial, Or.inr (Or.inr (Or.inl rfl))⟩, Or.inl rfl⟩,
    ⟨⟨inside ["row", "n", "m"] (by decide), inside ["row", "n", "m"] (by decide), Or.inl rfl⟩,
      ⟨List.mem_append_right _ (by simp), trivial, Or.inr (Or.inr (Or.inl rfl))⟩, Or.inl rfl⟩,
    .plain (Step.plain_of_none free) trivial⟩ trivial

/-- **The code of the kernel counts** if it is paced and the result has an element. -/
theorem body_counts (accepted : Accepted op problem target) (valid : p.Valid)
    (takes : kernel.Takes op bindings) (free : store.binder? = none) (paced : Paced p op bindings)
    (rows : 0 < problem.lhs.logicalRows.size bindings)
    (cols : 0 < problem.rhs.logicalCols.size bindings) :
    (body (.of p type) type problem store).Counts w (kernel.given bindings) kernel.sizes [] := by
  obtain ⟨reaches, fetches⟩ := accepted.paced_iff.mp paced rows cols
  refine prologue_counts valid (square_counts (by decide) (show "m" ∉ [] by decide)
    (show "n" ∉ [] by decide) put_counts ?_)
  refine .stepped (takes.stands accepted.mem_of_left problem.lhs.logicalCols_mem_extents) reaches
    k0_fresh (fun some => tileCode_counts valid (fetches some).1 (fetches some).2) ?_
  exact (Code.append_done (finish p store)).symm ▸ finish_counts free

/-! ### Workers that halt -/

/-- The first worker of a group has number zero in it along both dimensions. -/
theorem number_halts {rest : List Frame} (first : w.answer? .localId 0 = some 0)
    (second : w.answer? .localId 1 = some 0)
    (halts : Thread.Halts w ⟨.run (Code.ofSteps (numberSteps (.of p type)) ++ after) :: rest, names⟩) :
    ∃ names', names.Same ["lid0", "lid1", "gm", "gn"] names' ∧
      names' "lid0" = some (.index 0) ∧ names' "lid1" = some (.index 0) ∧
      Thread.Halts w ⟨.run after :: rest, names'⟩ := by
  have answers {names : Names Unit} {dimension : Nat} (answer : w.answer? .localId dimension = some 0) :
      ∃ word, Term.unsigned? w names (.query .localId dimension) = some (word, 0) :=
    ⟨.bits64, by rw [Term.unsigned?, answer]; rfl⟩
  replace halts := (halts.declare (answers first)).declare (answers second)
  obtain ⟨names₁, same₁, halts⟩ := halts.skip
  obtain ⟨names₂, same₂, halts⟩ := halts.skip
  have kept {x : String} (other : x ∉ ["gm"] ++ ["gn"]) :
      names₂ x = ((names.bind "lid0" (.index 0)).bind "lid1" (.index 0)) x :=
    (same₂ x fun member => other (List.mem_append_right _ member)).trans
      (same₁ x fun member => other (List.mem_append_left _ member))
  refine ⟨names₂, ?_, kept (by decide), kept (by decide), halts⟩
  have numbers : names.Same ["lid0", "lid1", "gm", "gn"]
      ((names.bind "lid0" (.index 0)).bind "lid1" (.index 0)) :=
    ((Names.Same.refl _ names).bind (by decide) _).bind (by decide) _
  exact (numbers.trans (same₁.mono (show ∀ x ∈ ["gm"], x ∈ ["lid0", "lid1", "gm", "gn"] by decide))).trans
    (same₂.mono (show ∀ x ∈ ["gn"], x ∈ ["lid0", "lid1", "gm", "gn"] by decide))

/-- It fetches as number zero. -/
theorem fetch_halts {rest : List Frame} (valid : p.Valid) (lid0 : names "lid0" = some (.index 0))
    (lid1 : names "lid1" = some (.index 0))
    (halts : Thread.Halts w ⟨.run (Code.ofSteps (fetchSteps p) ++ after) :: rest, names⟩) :
    ∃ names', names.Same (Code.ofSteps (fetchSteps p)).binders names' ∧
      (p.staged = true → names' "fid0" = some (.index 0) ∧ names' "fid1" = some (.index 0)) ∧
      Thread.Halts w ⟨.run after :: rest, names'⟩ := by
  unfold fetchSteps at halts ⊢
  cases staged : p.staged with
  | false =>
    rw [staged] at halts
    exact ⟨names, .refl _ _, nofun, halts⟩
  | true =>
    rw [staged] at halts
    have flat : ∃ word, Term.unsigned? w names
        (.binary .add (v "lid0") (.binary .mul (v "lid1") (.count p.localSize0.toNat))) =
          some (word, 0) := by
      simp [v, Term.unsigned?, lid0, lid1, TermOp.wrapped?]
    have parts {names : Names Unit} (zero : names "flat" = some (.index 0)) (op : TermOp)
        (which : op = .div ∨ op = .mod) : ∃ word, Term.unsigned? w names
          (.binary op (v "flat") (.count p.localFetch0.toNat)) = some (word, 0) := by
      have nonzero : p.localFetch0.toNat ≠ 0 := valid.fetch0.ne'
      rcases which with rfl | rfl <;> simp [v, Term.unsigned?, zero, TermOp.wrapped?, nonzero]
    refine ⟨_, ?_, fun _ => ⟨?_, Names.bind_self ..⟩, ((halts.declare flat).declare
      (parts (Names.bind_self ..) .mod (Or.inr rfl))).declare
        (parts ((Names.bind_of_ne (by decide)).trans (Names.bind_self ..)) .div (Or.inl rfl))⟩
    · exact (((Names.Same.refl ["flat", "fid0", "fid1"] names).bind (by decide) _).bind (by decide)
        _).bind (by decide) _
    · exact (Names.bind_of_ne (by decide)).trans (Names.bind_self ..)

/-- **The first worker of a group** goes on behind the prologue, and fetches as number zero. -/
theorem prologue_halts {rest : List Frame} (valid : p.Valid)
    (first : w.answer? .localId 0 = some 0) (second : w.answer? .localId 1 = some 0)
    (halts : Thread.Halts w ⟨.run (prologue (.of p type) type ++ after) :: rest, given⟩) :
    ∃ names, given.Same (prologue (.of p type) type).binders names ∧
      (p.staged = true → names "fid0" = some (.index 0) ∧ names "fid1" = some (.index 0)) ∧
      Thread.Halts w ⟨.run after :: rest, names⟩ := by
  have pieces : prologue (.of p type) type =
      Code.ofSteps ((Tiling.of p type).memories.map Step.declareLocal) ++
        (Code.ofSteps (numberSteps (.of p type)) ++
          (Code.ofSteps (fetchSteps p) ++ Code.ofSteps (registerSteps p type))) := by
    rw [prologue_eq, Code.ofSteps_append, Code.append_assoc]
    rfl
  rw [pieces, Code.append_assoc, Code.append_assoc, Code.append_assoc] at halts
  obtain ⟨names₁, same₁, halts⟩ := halts.append
  obtain ⟨names₂, same₂, lid0, lid1, halts⟩ := number_halts first second halts
  obtain ⟨names₃, same₃, place, halts⟩ := fetch_halts valid lid0 lid1 halts
  obtain ⟨names₄, same₄, halts⟩ := halts.append
  replace same₄ : names₃.Same ["rC", "rA", "rB"] names₄ := same₄
  refine ⟨names₄, ?_, fun staged => ?_, halts⟩
  · rw [pieces]
    refine (((same₁.mono fun x bound => ?_).trans (same₂.mono fun x bound => ?_)).trans
      (same₃.mono fun x bound => ?_)).trans (same₄.mono fun x bound => ?_)
    · exact Code.mem_binders_append.mpr (Or.inl bound)
    · exact Code.mem_binders_append.mpr (Or.inr (Code.mem_binders_append.mpr (Or.inl bound)))
    · exact Code.mem_binders_append.mpr (Or.inr (Code.mem_binders_append.mpr (Or.inr
        (Code.mem_binders_append.mpr (Or.inl bound)))))
    · exact Code.mem_binders_append.mpr (Or.inr (Code.mem_binders_append.mpr (Or.inr
        (Code.mem_binders_append.mpr (Or.inr bound)))))
  · exact ⟨(same₄ _ (by decide)).trans (place staged).1, (same₄ _ (by decide)).trans (place staged).2⟩

/-- A worker that fetches from zero and halts has reached the ends of the tile. -/
theorem fetchTile_reaches {rest : List Frame} {deep : Bool} {tile : LocalMemory} {extent : Nat}
    {source : Term → Term → Term} (depth : 0 < p.kl.toNat) (across : 0 < extent)
    (first : names "fid0" = some (.index 0)) (second : names "fid1" = some (.index 0))
    (halts : Thread.Halts w ⟨.run (fetchTile p deep tile extent source ++ after) :: rest, names⟩) :
    FetchPaced p deep extent := by
  have nested {further nearer : Nat} {target value : Term} (access : ∀ name, target ≠ .name name)
      (some : 0 < further)
      (halts : Thread.Halts w ⟨.run (fetch p further nearer target value ++ after) :: rest, names⟩) :
      Reaches p.localFetch1.toNat further ∧ Reaches p.localFetch0.toNat nearer := by
    have none : (put target value).binders = [] := Code.binders_store access
    have start {names' : Names Unit} {x : String} (here : names' x = Option.some (.index 0)) :
        ∃ word, (v x).unsigned? w names' = Option.some (word, 0) :=
      ⟨.bits32, by rw [v, Term.unsigned?, here]⟩
    have nothing {changed : List String} : ∀ x ∈ ([] : List String), x ∉ changed :=
      List.forall_mem_nil _
    obtain ⟨far, enters, -⟩ := halts.loop (l := (Walk.cooperative "a" (v "fid1") further _).loop)
      (start second) rfl (Term.stands_count p.localFetch1.toNat) (Term.stands_count further)
      (.refl _ names) nothing (fun _ member => member) (by
        show "a" ∉ "b" :: ((put target value).binders ++ [])
        rw [none]
        decide)
    obtain ⟨later, halts⟩ := enters some
    refine ⟨far, (halts.loop (l := (Walk.cooperative "b" (v "fid0") nearer _).loop)
      (start ?_) rfl (Term.stands_count p.localFetch0.toNat) (Term.stands_count nearer)
      (.refl _ _) nothing (fun _ member => member) (none ▸ List.not_mem_nil)).1⟩
    exact (Names.bind_of_ne (show "fid0" ≠ "a" by decide)).trans first
  unfold fetchTile at halts
  unfold FetchPaced
  cases deep with
  | true => exact nested (Tree.access_ne_name tile [v "a"] (v "b")) depth halts
  | false => exact nested (Tree.access_ne_name tile [v "b"] (v "a")) across halts

/-- The tiles in use are fetched first. -/
theorem exists_tileCode : ∃ later, tileCode (.of p type) problem =
    onlyIf p.stageLeft (fetchTile p problem.lhs.rowsAdjacent (Tiling.of p type).left
      (p.localSize0.toNat * p.ms.toNat) fun depth across =>
        problem.lhs.element (v "gm" + across) (v "k0" + depth)) ++
    (onlyIf p.stageRight (fetchTile p (!problem.rhs.rowsAdjacent) (Tiling.of p type).right
      (p.localSize1.toNat * p.ns.toNat) fun depth across =>
        problem.rhs.element (v "k0" + depth) (v "gn" + across)) ++ later) := by
  unfold tileCode
  rw [fetchLeft_eq, fetchRight_eq]
  exact ⟨_, rfl⟩

/-- The first worker of a group, if it halts for a tile, has reached the ends of the tiles in use. -/
theorem tileCode_reaches {rest : List Frame} (valid : p.Valid)
    (place : p.staged = true → names "fid0" = some (.index 0) ∧ names "fid1" = some (.index 0))
    (halts : Thread.Halts w ⟨.run (tileCode (.of p type) problem) :: rest, names⟩) :
    (p.stageLeft = true → FetchPaced p problem.lhs.rowsAdjacent (p.localSize0.toNat * p.ms.toNat)) ∧
      (p.stageRight = true →
        FetchPaced p (!problem.rhs.rowsAdjacent) (p.localSize1.toNat * p.ns.toNat)) := by
  obtain ⟨later, code⟩ := (exists_tileCode : ∃ later, tileCode (.of p type) problem = _ ++ (_ ++ later))
  rw [code] at halts
  refine ⟨fun left => ?_, fun right => ?_⟩
  · obtain ⟨first, second⟩ := place (Bool.or_eq_true_iff.mpr (Or.inl left))
    rw [onlyIf, if_pos left] at halts
    exact fetchTile_reaches valid.kl (Nat.mul_pos valid.localSize0 valid.ms) first second halts
  · obtain ⟨first, second⟩ := place (Bool.or_eq_true_iff.mpr (Or.inr right))
    obtain ⟨names', same, halts⟩ := halts.append
    replace same : names.Same ["a", "b"] names' := same.mono fun x bound =>
      (binders_onlyIf (fun _ => True.intro) binders_fetchTile bound).2
    rw [onlyIf, if_pos right] at halts
    exact fetchTile_reaches valid.kl (Nat.mul_pos valid.localSize1 valid.ns)
      ((same _ (by decide)).trans first) ((same _ (by decide)).trans second) halts

/-- **The first worker of the first group**, if it halts, has reached the end of the shared dimension, and
of the tiles in use if that has an element. -/
theorem reaches_of_halts (accepted : Accepted op problem target) (valid : p.Valid)
    (takes : kernel.Takes op bindings) (free : store.binder? = none)
    (code : kernel.body = body (.of p type) type problem store)
    (first : w.answer? .localId 0 = some 0) (second : w.answer? .localId 1 = some 0)
    (halts : (kernel.start (fun _ => ()) bindings).Halts w) :
    Reaches p.kl.toNat (problem.lhs.logicalCols.size bindings) ∧
      (0 < problem.lhs.logicalCols.size bindings →
        (p.stageLeft = true →
          FetchPaced p problem.lhs.rowsAdjacent (p.localSize0.toNat * p.ms.toNat)) ∧
        (p.stageRight = true →
          FetchPaced p (!problem.rhs.rowsAdjacent) (p.localSize1.toNat * p.ns.toNat))) := by
  have active {x : String} (member : Active p x) : x ∈ kernel.body.binders :=
    code ▸ mem_binders_of_active member
  rw [Kernel.start, code] at halts
  obtain ⟨names₁, same₁, place, halts⟩ := prologue_halts valid first second halts
  obtain ⟨names₂, same₂, halts⟩ := halts.append
  replace same₂ : names₁.Same ["m", "n"] names₂ := same₂
  have settled : (kernel.given bindings).Same kernel.body.binders names₂ := by
    refine (same₁.mono fun x bound => ?_).trans (same₂.mono fun x bound => ?_)
    · exact code ▸ (mem_binders_body free).mpr (Or.inl bound)
    · exact active (Or.inl ((show ∀ x ∈ ["m", "n"], x ∈ ["k0", "k", "kk", "m", "n", "row", "col"]
        by decide) x bound))
  obtain ⟨reaches, enters, -⟩ := halts.loop
    (l := (Walk.stepped "k0" problem.lhs.logicalCols.term p.kl.toNat).loop) ⟨.bits32, rfl⟩ rfl
    (Term.stands_count p.kl.toNat) (takes.stands accepted.mem_of_left problem.lhs.logicalCols_mem_extents)
    settled takes.free (fun x bound => active (active_of_tile bound)) k0_fresh
  refine ⟨reaches, fun some => ?_⟩
  obtain ⟨later, halts⟩ := enters some
  refine tileCode_reaches valid (fun staged => ?_) halts
  obtain ⟨fid0, fid1⟩ := place staged
  have kept {x : String} (other : x ≠ "k0") (apart : x ∉ ["m", "n"]) :
      names₂.bind "k0" (.index 0) x = names₁ x := (Names.bind_of_ne other).trans (same₂ x apart)
  exact ⟨(kept (by decide) (by decide)).trans fid0, (kept (by decide) (by decide)).trans fid1⟩

/-! ### The launch -/

/-- An extent is covered by a tile exactly if it has an element. -/
theorem tiles_pos_iff {extent tile : Nat} : 0 < GroupCount.tiles extent tile ↔ 0 < extent := by
  have positive : 0 < max tile 1 := Nat.lt_of_lt_of_le Nat.one_pos (Nat.le_max_right _ _)
  show 0 < (extent + max tile 1 - 1) / max tile 1 ↔ _
  rw [Nat.div_pos_iff]
  omega

/-- **The kernel of an operation terminates exactly if it is paced.** -/
theorem generate_terminates_iff {left right : Bool} {program : Program}
    (ok : generate left right p op = .ok program) (valid : p.Valid)
    (hygienic : ∀ kernel ∈ program.kernels, kernel.Hygienic)
    (sized : ∀ kernel ∈ program.kernels, kernel.Sized bindings)
    (small : ∀ x n, bindings x = some n → n.toNat < 2 ^ 32) :
    (∀ kernel ∈ program.kernels, kernel.Terminates bindings) ↔ Paced p op bindings := by
  obtain ⟨problem, target, operands, store, kernel, accepted, collected, stored, kernels, arguments, -,
    geometry, code⟩ := generate_eq_ok ok
  have sole : kernel ∈ program.kernels := by rw [kernels]; exact List.mem_cons_self
  have takes : kernel.Takes op bindings := ⟨⟨_, operands, collected, fun name a found => arguments ▸ found⟩,
    hygienic kernel sole, sized kernel sole, small⟩
  have free : store.binder? = none :=
    Statement.binder?_storeStep stored (Or.inr ⟨target, accepted.stores⟩)
  have shaped := accepted.shape? (arguments ▸ collected) (sized kernel sole) geometry
  rw [kernels, List.forall_mem_singleton]
  refine takes.terminates_iff shaped (fun paced g l => ?_) fun halts => ?_
  · exact code ▸ body_counts accepted valid takes free paced
      (tiles_pos_iff.mp (Nat.zero_lt_of_lt g.1.isLt)) (tiles_pos_iff.mp (Nat.zero_lt_of_lt g.2.1.isLt))
  · refine accepted.paced_iff.mpr fun rows cols => ?_
    exact reaches_of_halts accepted valid takes free code rfl rfl (halts
      (⟨0, tiles_pos_iff.mpr rows⟩, ⟨0, tiles_pos_iff.mpr cols⟩, ⟨0, Nat.one_pos⟩)
      (⟨0, valid.localSize0⟩, ⟨0, valid.localSize1⟩, ⟨0, Nat.one_pos⟩))

end TunedKernel.MatrixProduct
