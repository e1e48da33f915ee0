/-
**What a worker of a matrix product shows.**

An observer of the stores into an array that is not a register block sees what the fetches of the tiles and
the last part of the code show; everything else shows nothing.

* `fetch_sees`, `finish_sees` — what a fetch shows, and what the statement shows for the elements of the
  register block; `fetchTile_silent`, `finish_silent` — that they show nothing of other arrays.
* `share_sees` — what the fetches of both tiles show.
* `body_sees` — what all of the code shows.
* `Launched`, `exists_launched` — the kernel of an accepted operation, under the names of its arguments.
-/

import TunedKernel.Proofs.Execution.Traces
import TunedKernel.Proofs.MatrixProduct.Accesses

namespace TunedKernel.MatrixProduct

variable {β : Type} {array : String} {tell : Names Unit → Term → Term → β} {w : Worker} {op : Operation}
  {p : ProductTuning} {type : NumericType} {problem : Problem} {target : MatrixOperand} {store : Step}
  {bindings : Bindings} {names₀ names : Names Unit}

/-! ### Pieces that show nothing -/

section Pieces

variable (other : array ∉ ["rC", "rA", "rB"])

include other

/-- Storing into a register shows nothing. -/
theorem ignores_put {block : String} (listed : block ∈ ["rC", "rA", "rB"]) (row col value : Term) :
    (Observer.ofStores w array tell).Ignores (put (register block row col) value) := by
  have elsewhere : (register block row col).access?.map Prod.fst ≠ some array := fun same => by
    obtain rfl : block = array := Option.some.inj same
    exact other listed
  exact .step (fun _ => rfl) (fun _ => Step.stored_elsewhere elsewhere) .done

/-- Starting the register block shows nothing. -/
theorem ignores_clear (neutral : Term) : (Observer.ofStores w array tell).Ignores (clear p neutral) :=
  .counted (show "m" ∉ ["n"] by decide) (.counted List.not_mem_nil (ignores_put other (by decide) _ _ _))

/-- Neither does the step along a tile. -/
theorem ignores_advance (t : Tiling) : (Observer.ofStores w array tell).Ignores (advance t problem) := by
  refine .append ?_ (.append ?_ (.append ?_ .done))
  · exact .counted (show "kk" ∉ ["m"] by decide) (.counted List.not_mem_nil
      (ignores_put other (by decide) _ _ _))
  · exact .counted (show "kk" ∉ ["n"] by decide) (.counted List.not_mem_nil
      (ignores_put other (by decide) _ _ _))
  · exact .counted (show "kk" ∉ ["m", "n"] by decide) (.counted (show "m" ∉ ["n"] by decide)
      (.counted List.not_mem_nil (ignores_put other (by decide) _ _ _)))

end Pieces

/-- Nor does waiting for the others. -/
theorem ignores_barrier {condition : Bool} :
    (Observer.ofStores w array tell).Ignores (onlyIf condition (Code.ofSteps [.barrier])) := by
  cases condition with
  | false => exact .done
  | true => exact .step (fun _ => rfl) (fun _ => rfl) .done

/-- The declarations of the local tiles in use show nothing. -/
theorem memories_see : (Observer.ofStores w array tell).Sees
    (Code.ofSteps ((Tiling.of p type).memories.map Step.declareLocal)) names [] fun names' =>
      (p.stageLeft = true → names' "lA" =
        some (.sharedArray [p.kl.toNat, p.localSize0.toNat * p.ms.toNat + 1])) ∧
      (p.stageRight = true → names' "lB" =
        some (.sharedArray [p.kl.toNat, p.localSize1.toNat * p.ns.toNat + 1])) := by
  have used : (Tiling.of p type).memories =
      (if p.stageLeft then [(Tiling.of p type).left] else []) ++
        if p.stageRight then [(Tiling.of p type).right] else [] := rfl
  rw [used]
  cases p.stageLeft <;> cases p.stageRight
  · exact .done ⟨nofun, nofun⟩
  · exact .declare rfl rfl (.done ⟨nofun, fun _ => Names.bind_self ..⟩)
  · exact .declare rfl rfl (.done ⟨fun _ => Names.bind_self .., nofun⟩)
  · refine .declare rfl rfl (.declare rfl rfl (.done ⟨fun _ => ?_, fun _ => Names.bind_self ..⟩))
    exact (Names.bind_of_ne (show "lA" ≠ "lB" by decide)).trans (Names.bind_self ..)

/-- The prologue shows nothing, and sets up the variables of a worker. -/
theorem prologue_sees (positive : 0 < p.localFetch0.toNat) :
    (Observer.ofStores w array tell).Sees (prologue (.of p type) type) names [] fun names' =>
      Ready p w names' := by
  rw [prologue_eq]
  refine .append memories_see fun names₁ _ ⟨left, right⟩ => ?_
  obtain ⟨names₂, declares, same, numbered⟩ := exists_declares_numbers type w names₁ positive
  refine .declares declares (fun s member names => ?_) (.declare rfl rfl (.declare rfl rfl
    (.declare rfl rfl (.done ?_))))
  · cases s with
    | store slot how value =>
      unfold numberSteps fetchSteps at member
      cases p.staged <;> simp at member
    | declare _ _ _ | declareLocal _ | declareArray _ _ _ | barrier => rfl
  · exact numbered.ready (fun staged => (same _ (by decide)).trans (left staged))
      fun staged => (same _ (by decide)).trans (right staged)

/-! ### Fetches and results -/

/-- An element of a matrix is at its position. -/
theorem spot?_element {m : MatrixOperand} {row col : Term} {i j : Nat}
    (known : (Expr.matrix m).Known 1 (fun _ => ()) bindings names) (atRow : row.number? w names = some i)
    (atCol : col.number? w names = some j) :
    (m.element row col).spot? w names = some (.single (.global m.name (m.position bindings i j))) := by
  have found := Term.spot?_buffer (w := w) known.1
    (MatrixOperand.number?_offset known.2.1 known.2.2 atRow atCol)
  rwa [Spot.packed_one] at found

/-- **What a fetch shows**: what it stores at the elements of the worker's share. -/
theorem fetch_sees (valid : p.Valid) (staged : p.staged = true) (ready : Ready p w names)
    {further nearer : Nat} {slot source : Term} (access : ∀ name, slot ≠ .name name)
    (es : Nat → Nat → List β)
    (shows : ∀ i < further, ∀ j < nearer, ∀ names', names.Same ["a", "b"] names' →
      names' "a" = some (.index i) → names' "b" = some (.index j) →
      ((Step.store slot .assign source).stored array tell names').toList = es i j) :
    (Observer.ofStores w array tell).Sees (fetch p further nearer slot source) names
      ((visited (flat p w / p.localFetch0.toNat) p.localFetch1.toNat further ×ˢ
        visited (flat p w % p.localFetch0.toNat) p.localFetch0.toNat nearer).flatMap fun x => es x.1 x.2)
      fun _ => True := by
  have binders : (put slot source).binders = [] := Code.binders_store access
  have counts₁ := ready.counts_further valid staged further
  have counts₂ := ready.counts_nearer valid staged nearer
  show (Observer.ofStores w array tell).Sees (Code.ofLoop (Walk.cooperative "a" _ _ _).loop
    (Code.ofLoop (Walk.cooperative "b" _ _ _).loop (put _ _))) _ _ _
  refine .grid (binders.symm ▸ counts₁.runs) (fun names' same => ?_) (show "a" ≠ "b" by decide)
    (binders ▸ List.not_mem_nil) (binders ▸ List.not_mem_nil) es ?_
  · rw [binders] at same ⊢
    exact (counts₂.after same fun x => List.mem_cons_of_mem _).runs
  · rintro i j ⟨_, -, row⟩ ⟨_, -, col⟩ names' same atA atB
    rw [binders] at same
    have sees : (Observer.ofStores w array tell).Sees (put slot source) names'
        (((Step.store slot .assign source).stored array tell names').toList ++ []) fun _ => True :=
      .step rfl (.refl _ _) (.done trivial)
    rwa [List.append_nil, shows i row j col names' same atA atB] at sees

/-- Filling a tile shows nothing of other arrays. -/
theorem fetchTile_silent {deep : Bool} {memory : LocalMemory} {extent : Nat} {source : Term → Term → Term}
    (valid : p.Valid) (staged : p.staged = true) (ready : Ready p w names) (elsewhere : memory.name ≠ array) :
    (Observer.ofStores w array tell).Sees (fetchTile p deep memory extent source) names [] fun _ => True := by
  have sees (further nearer : Nat) (s t value : Term) : (Observer.ofStores w array tell).Sees
      (fetch p further nearer (memory.access [s, t]) value) names [] fun _ => True := by
    have apart : (memory.access [s, t]).access?.map Prod.fst ≠ some array :=
      fun same => elsewhere (Option.some.inj same)
    have all : (Observer.ofStores w array tell).Sees (fetch p further nearer (memory.access [s, t]) value)
        names _ _ := fetch_sees valid staged ready (fun _ => Term.noConfusion) (fun _ _ => [])
      fun i _ j _ names' _ _ _ => congrArg Option.toList (Step.stored_elsewhere apart)
    rwa [List.flatMap_eq_nil_iff.mpr fun _ _ => rfl] at all
  cases deep with
  | true => exact sees ..
  | false => exact sees ..

/-- So does filling either tile. -/
theorem fetchLeft_silent {m : MatrixOperand} (valid : p.Valid) (staged : p.stageLeft = true)
    (ready : Ready p w names) (elsewhere : "lA" ≠ array) :
    (Observer.ofStores w array tell).Sees (fetchLeft (.of p type) m) names [] fun _ => True := by
  rw [fetchLeft_eq]
  exact fetchTile_silent valid (Bool.or_eq_true_iff.mpr (Or.inl staged)) ready elsewhere

theorem fetchRight_silent {m : MatrixOperand} (valid : p.Valid) (staged : p.stageRight = true)
    (ready : Ready p w names) (elsewhere : "lB" ≠ array) :
    (Observer.ofStores w array tell).Sees (fetchRight (.of p type) m) names [] fun _ => True := by
  rw [fetchRight_eq]
  exact fetchTile_silent valid (Bool.or_eq_true_iff.mpr (Or.inr staged)) ready elsewhere

/-- Code that is there under a condition only shows nothing elsewhere. -/
theorem onlyIf_sees {condition : Bool} {code : Code} {es : List β}
    (used : condition = true → (Observer.ofStores w array tell).Sees code names es fun _ => True)
    (unused : condition = false → es = []) :
    (Observer.ofStores w array tell).Sees (onlyIf condition code) names es fun _ => True := by
  cases condition with
  | false =>
    rw [unused rfl]
    exact .done trivial
  | true => exact used rfl

/-- **What the fetches of both tiles show**, as far as they are in use. -/
theorem share_sees {es fs : List β}
    (left : p.stageLeft = true → (Observer.ofStores w array tell).Sees (fetchLeft (.of p type) problem.lhs)
      names es fun _ => True)
    (noLeft : p.stageLeft = false → es = [])
    (right : p.stageRight = true → ∀ names', names.Same ["a", "b"] names' →
      (Observer.ofStores w array tell).Sees (fetchRight (.of p type) problem.rhs) names' fs fun _ => True)
    (noRight : p.stageRight = false → fs = []) :
    (Observer.ofStores w array tell).Sees (onlyIf p.stageLeft (fetchLeft (.of p type) problem.lhs) ++
      onlyIf p.stageRight (fetchRight (.of p type) problem.rhs)) names (es ++ fs) fun _ => True := by
  refine (onlyIf_sees left noLeft).append fun names' same _ => onlyIf_sees (fun staged => ?_) noRight
  rw [fetchLeft_eq] at same
  exact right staged names' (same.mono fun x bound => (binders_onlyIf id binders_fetchTile bound).2)

/-- The counters of the fetches leave the variables of a worker alone. -/
theorem Named.fetched {names' : Names Unit} (named : Named p type problem store names₀ w names)
    (staged : p.staged = true) (same : names.Same ["a", "b"] names') :
    Named p type problem store names₀ w names' :=
  named.after same fun _ member => Or.inr ⟨staged, member⟩

/-- **What the last part of the code shows**: what the statement shows at the elements of the register block. -/
theorem finish_sees (ready : Ready p w names)
    (stored : problem.statement.storeStep (resultScope type) = .ok store) (free : store.binder? = none)
    (es : Nat → Nat → List β)
    (shows : ∀ i < p.ms.toNat, ∀ j < p.ns.toNat, ∀ names', names.Same ["m", "n", "row", "col"] names' →
      names' "m" = some (.index i) → names' "n" = some (.index j) →
      names' "row" = some (.index (rowOf p w i)) → names' "col" = some (.index (colOf p w j)) →
      (store.stored array tell names').toList = es i j) :
    (Observer.ofStores w array tell).Sees (finish p store) names
      ((List.range p.ms.toNat ×ˢ List.range p.ns.toNat).flatMap fun x => es x.1 x.2) fun _ => True := by
  have binders : (Code.ofSteps [.declare .index "row" (resultRow p),
      .declare .index "col" (resultCol p), store]).binders = ["row", "col"] := by
    show ["row"] ++ (["col"] ++ (store.binder?.toList ++ [])) = _
    rw [free]
    rfl
  have inLoops : ∀ x ∈ ["m", "n", "row", "col"], x ∈ loopNames := by decide
  obtain ⟨_, _, -, -, is⟩ := Statement.storeStep_eq_ok stored
  rw [← visited_one, ← visited_one]
  show (Observer.ofStores w array tell).Sees (Code.ofLoop (Walk.counted "m" _).loop
    (Code.ofLoop (Walk.counted "n" _).loop (Code.ofSteps _))) _ _ _
  refine .grid (Walk.counts_counted ..).runs (fun _ _ => (Walk.counts_counted ..).runs)
    (show "m" ≠ "n" by decide) (binders.symm ▸ show "m" ∉ ["row", "col"] by decide)
    (binders.symm ▸ show "n" ∉ ["row", "col"] by decide) es fun i j row col names' same atM atN => ?_
  rw [binders] at same
  have atRow := number?_resultRow (ready.after (same.mono inLoops)) atM
  have same' := same.bind (show "row" ∈ ["m", "n", "row", "col"] by decide) (.index (rowOf p w i))
  have atCol := number?_resultCol (ready.after (same'.mono inLoops))
    ((Names.bind_of_ne (show "n" ≠ "row" by decide)).trans atN)
  refine .declare (Option.map_eq_some_iff.mpr ⟨_, atRow, rfl⟩) rfl
    (.declare (Option.map_eq_some_iff.mpr ⟨_, atCol, rfl⟩) rfl ?_)
  have last := same'.bind (show "col" ∈ ["m", "n", "row", "col"] by decide) (.index (colOf p w j))
  have here := shows i (visits_one.mp row) j (visits_one.mp col) _ last
    ((Names.bind_of_ne (show "m" ≠ "col" by decide)).trans
      ((Names.bind_of_ne (show "m" ≠ "row" by decide)).trans atM))
    ((Names.bind_of_ne (show "n" ≠ "col" by decide)).trans
      ((Names.bind_of_ne (show "n" ≠ "row" by decide)).trans atN))
    ((Names.bind_of_ne (show "row" ≠ "col" by decide)).trans (Names.bind_self ..)) (Names.bind_self ..)
  rw [← here, ← List.append_nil (store.stored array tell _).toList]
  exact .step (by rw [is]; rfl) (.refl _ _) (.done trivial)

/-- The step of a statement whose target is a matrix stores into an element of it. -/
theorem exists_store_eq (stores : problem.statement.target = .matrix target)
    (stored : problem.statement.storeStep (resultScope type) = .ok store) :
    ∃ value, store = .store (target.element (v "row") (v "col")) problem.statement.assign value := by
  obtain ⟨t, value, element, -, rfl⟩ := Statement.storeStep_eq_ok stored
  rw [stores] at element
  cases element
  exact ⟨value, rfl⟩

/-- The last part of the code shows nothing of other arrays than the result. -/
theorem finish_silent (ready : Ready p w names) (stores : problem.statement.target = .matrix target)
    (stored : problem.statement.storeStep (resultScope type) = .ok store) (elsewhere : target.name ≠ array) :
    (Observer.ofStores w array tell).Sees (finish p store) names [] fun _ => True := by
  obtain ⟨value, rfl⟩ := exists_store_eq stores stored
  have apart : (target.element (v "row") (v "col")).access?.map Prod.fst ≠ some array :=
    fun same => elsewhere (Option.some.inj same)
  have all := @finish_sees _ _ tell _ _ _ _ _ _ ready stored rfl (fun _ _ => [])
    fun i _ j _ names' _ _ _ _ _ => congrArg Option.toList (Step.stored_elsewhere apart)
  rwa [List.flatMap_eq_nil_iff.mpr fun _ _ => rfl] at all

/-! ### The code of the kernel -/

/-- What a tile shows: what its fetches show. -/
theorem tile_sees (other : array ∉ ["rC", "rA", "rB"]) {es : List β} (valid : p.Valid)
    (share : (Observer.ofStores w array tell).Sees (onlyIf p.stageLeft (fetchLeft (.of p type) problem.lhs) ++
      onlyIf p.stageRight (fetchRight (.of p type) problem.rhs)) names es fun _ => True) :
    (Observer.ofStores w array tell).Sees (tileCode (.of p type) problem) names es fun _ => True := by
  have pieces : tileCode (.of p type) problem =
      (onlyIf p.stageLeft (fetchLeft (.of p type) problem.lhs) ++
        onlyIf p.stageRight (fetchRight (.of p type) problem.rhs)) ++
      (onlyIf p.staged (Code.ofSteps [.barrier]) ++
        ((Walk.stepped "k" (.count p.kl.toNat) p.ks.toNat).around (advance (.of p type) problem) ++
        (onlyIf p.staged (Code.ofSteps [.barrier]) ++ .done))) := by
    rw [Code.append_assoc]
    rfl
  have steps : (Observer.ofStores w array tell).Ignores
      ((Walk.stepped "k" (.count p.kl.toNat) p.ks.toNat).around (advance (.of p type) problem)) :=
    .loop (fun _ => Walk.counts_stepped "k" valid.ks fun _ _ => rfl)
      (show "k" ∉ ["kk", "m", "kk", "n", "kk", "m", "n"] by decide) (ignores_advance other _)
  rw [pieces, ← List.append_nil es]
  refine share.append fun names' _ _ => ?_
  exact Observer.Ignores.append ignores_barrier
    (.append steps (.append ignores_barrier .done)) names'

/-- **What the code of the kernel shows**: what the fetches of the tiles show, one tile after the other, and
what its last part shows. -/
theorem body_sees (other : array ∉ ["rC", "rA", "rB"]) (valid : p.Valid)
    (depth : ∀ names, names₀.Same (body (.of p type) type problem store).binders names →
      problem.lhs.logicalCols.Known bindings names)
    (fetched : Nat → List β) (results : List β)
    (share : ∀ n, ∀ names, Named p type problem store names₀ w names →
      names "k0" = some (.index n) → (Observer.ofStores w array tell).Sees
        (onlyIf p.stageLeft (fetchLeft (.of p type) problem.lhs) ++
          onlyIf p.stageRight (fetchRight (.of p type) problem.rhs)) names (fetched n) fun _ => True)
    (last : ∀ names, Named p type problem store names₀ w names →
      (Observer.ofStores w array tell).Sees (finish p store) names results fun _ => True) :
    (Observer.ofStores w array tell).Sees (body (.of p type) type problem store) names₀
      ((visited 0 p.kl.toNat (problem.lhs.logicalCols.size bindings)).flatMap fetched ++ results)
      fun _ => True := by
  have sees : (Observer.ofStores w array tell).Sees (body (.of p type) type problem store) names₀
      ([] ++ ([] ++ ((visited 0 p.kl.toNat (problem.lhs.logicalCols.size bindings)).flatMap fetched ++
        (results ++ [])))) fun _ => True := by
    refine .append (prologue_sees valid.fetch0) fun names₁ same₁ ready => ?_
    have named₁ : Named p type problem store names₀ w names₁ :=
      ⟨same₁.mono fun x bound => Code.mem_binders_join.mpr ⟨_, List.mem_cons_self, bound⟩, ready⟩
    refine .append (ignores_clear other _ names₁) fun names₂ same₂ _ => ?_
    have named₂ := named₁.after same₂ fun x bound => Or.inl
      ((show ∀ x ∈ ["m", "n"], x ∈ ["k0", "k", "kk", "m", "n", "row", "col"] by decide) x bound)
    have walk : (Observer.ofStores w array tell).Sees
        ((Walk.stepped "k0" problem.lhs.logicalCols.term p.kl.toNat).around (tileCode (.of p type) problem))
        names₂ ((visited 0 p.kl.toNat (problem.lhs.logicalCols.size bindings)).flatMap fetched)
        fun _ => True := by
      rw [Walk.around_plain rfl rfl]
      refine .loop (Walk.counts_stepped "k0" valid.kl fun names' same => ?_).runs k0_fresh fetched
        fun n _ names' same atTile => (tile_sees other valid
          (share n names' (named₂.after same fun x => active_of_tile) atTile)).block
      exact Extent.number?_term (depth names' (named₂.after same fun x => active_of_tile).settled)
    refine walk.append fun names₃ same₃ _ => (last names₃ (named₂.after same₃ fun x bound => ?_)).append
      fun _ _ _ => .done trivial
    rw [Walk.around_plain rfl rfl] at bound
    exact active_of_tile (List.mem_cons.mpr ((List.mem_cons.mp bound).imp id fun inside =>
      (List.mem_append.mp inside).resolve_right List.not_mem_nil))
  rwa [List.append_nil] at sees

/-! ### The kernel -/

/-- The kernel of an accepted operation, under names that stand for what its code takes them for. -/
structure Launched (p : ProductTuning) (type : NumericType) (problem : Problem) (target : MatrixOperand)
    (store : Step) (bindings : Bindings) (names₀ : Names Unit) : Prop where
  valid : p.Valid
  stores : problem.statement.target = .matrix target
  stored : problem.statement.storeStep (resultScope type) = .ok store
  known : ∀ names, names₀.Same (body (.of p type) type problem store).binders names →
    ∀ m ∈ [problem.lhs, problem.rhs, target], (Expr.matrix m).Known 1 (fun _ => ()) bindings names
  depth : ∀ names, names₀.Same (body (.of p type) type problem store).binders names →
    problem.lhs.logicalCols.Known bindings names
  apart : target.name ∉ (body (.of p type) type problem store).binders

/-- The result is none of the arrays of the kernel. -/
theorem Launched.target_ne (launched : Launched p type problem target store bindings names₀) {x : String}
    (entered : x ∈ (prologue (.of p type) type).binders) : target.name ≠ x := by
  rintro rfl
  exact launched.apart (Code.mem_binders_join.mpr ⟨_, List.mem_cons_self, entered⟩)

/-- **The kernel of an accepted operation is launched** over the groups that cover the result, under the
names of its arguments. -/
theorem exists_launched {left right : Bool} {program : Program} {kernel : Kernel}
    (checked : p.check = .ok ()) (generated : generate left right p op = .ok program)
    (member : kernel ∈ program.kernels) (proper : kernel.Proper) (sized : kernel.Sized bindings) :
    ∃ problem target store, Accepted op problem target ∧
      kernel.start (fun _ => ()) bindings =
        ⟨[.run (body (.of p op.numericType) op.numericType problem store)],
          kernel.names (fun _ => ()) bindings⟩ ∧
      kernel.geometry.shape? bindings = some (launch p
        (GroupCount.tiles (problem.lhs.logicalRows.size bindings) (p.localSize0.toNat * p.ms.toNat))
        (GroupCount.tiles (problem.rhs.logicalCols.size bindings) (p.localSize1.toNat * p.ns.toNat))) ∧
      Launched p op.numericType problem target store bindings (kernel.names (fun _ => ()) bindings) := by
  obtain ⟨problem, target, arguments, store, sole, accepted, collected, stored, kernels, args, -, geometry,
    code⟩ := generate_eq_ok generated
  rw [kernels] at member
  obtain rfl := List.mem_singleton.mp member
  rw [← args] at collected
  have known {m : MatrixOperand} (inside : .matrix m ∈ op.nodes) {names : Names Unit}
      (same : (kernel.names (fun _ => ()) bindings).Same kernel.body.binders names) :
      (Expr.matrix m).Known 1 (fun _ => ()) bindings names :=
    (Kernel.known_matrix collected (fun _ _ found => found) sized inside).mono (proper.kept same)
  refine ⟨problem, target, store, accepted, ?_, accepted.shape? collected sized geometry, ?_⟩
  · rw [← code]
    rfl
  refine ⟨ProductTuning.valid checked, accepted.stores, stored, fun names same => ?_, fun names same => ?_, ?_⟩
  · rw [← code] at same
    intro m member
    simp only [List.mem_cons, List.not_mem_nil, or_false] at member
    rcases member with rfl | rfl | rfl
    · exact known accepted.mem_of_left same
    · exact known accepted.mem_of_right same
    · exact known accepted.mem_of_target same
  · rw [← code] at same
    exact (Kernel.known_extent collected (fun _ _ found => found) sized accepted.mem_of_left
      problem.lhs.logicalCols_mem_extents).mono (proper.kept same)
  · rw [← code]
    have found := (collectArguments_find collected accepted.mem_of_target).1 _ _ rfl
    exact (proper _ (List.mem_of_find?_eq_some found)).2

end TunedKernel.MatrixProduct
