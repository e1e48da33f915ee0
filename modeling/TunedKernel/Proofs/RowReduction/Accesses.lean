/-
**What the kernel of a row reduction accesses.**

* `Reads` — the leaves of the products are read inside the rows and columns of the batch, and the others at
  its rows.
* `gather_passes`, `trip_passes`, `body_passes` — what a worker accesses in its part of a row, on a trip,
  and in all.
* `Fits`, `generateFor_orderly` — the kernel of an accepted batch; what has to fit for every leaf to have
  the elements that are read.
-/

import TunedKernel.Proofs.Batch.Accesses
import TunedKernel.Proofs.RowReduction.Worker

namespace TunedKernel.RowReduction

variable {op : Operation} {k : Parts} {bindings : Bindings} {arrays : List (String × List Nat)}
  {names₀ names : Names Unit} {g : (launch k.record).Group} {l : (launch k.record).Lane} {row : Nat}

/-- The points at which a leaf is read: those of the products inside the rows and columns, and the others
at the rows. -/
def Reads (k : Parts) (bindings : Bindings) (leaf : Expr) (point : Point) : Prop :=
  (∃ f ∈ k.folded, leaf ∈ f.product.leaves ∧ ∃ row < k.rows.size bindings,
      ∃ j < k.cols.size bindings, point = rowPoint row j) ∨
    ∃ f ∈ k.folded, leaf ∈ f.statement.target.leaves ++ f.statement.value.leaves ∧
      point.index < k.rows.size bindings

/-- The kernel of an accepted batch with the arrays that it uses; the extents of its operands keep their
sizes. -/
structure Served (op : Operation) (k : Parts) (bindings : Bindings)
    (arrays : List (String × List Nat)) (names₀ : Names Unit) : Prop where
  valid : k.record.Valid
  accepted : Accepted op k.record k
  buffers : ∀ f ∈ k.folded, ((f.buffer k.type k.dims).name, k.dims) ∈ arrays
  known : ∀ names, names₀.Same k.body.binders names → ∀ node ∈ op.nodes, ∀ x ∈ node.extents,
    x.Known bindings names

/-- The rows and columns of the batch are those of a matrix. -/
theorem Accepted.exists_matrix {p : RowTuning} (accepted : Accepted op p k) :
    ∃ m, .matrix m ∈ op.nodes ∧ m.logicalRows = k.rows ∧ m.logicalCols = k.cols := by
  obtain ⟨f, member⟩ := List.exists_mem_of_ne_nil _ accepted.nonempty
  obtain ⟨m, first, rows, cols⟩ := accepted.shapes f member
  refine ⟨m, Operation.mem_nodes_value (accepted.numbered.mem_statements member) ?_, rows, cols⟩
  exact Expr.product_sub_nodes (accepted.numbered.products f member ▸ List.mem_cons_self) (Or.inl rfl)
    (Expr.mem_nodes_of_firstMatrix? first)

namespace Served

variable (served : Served op k bindings arrays names₀)

include served

theorem product_known (settled : names₀.Same k.body.binders names) {f : Folded} (member : f ∈ k.folded) :
    ∀ leaf ∈ f.product.leaves, ∀ x ∈ leaf.extents, x.Known bindings names := fun leaf inside =>
  served.known names settled leaf (Operation.mem_nodes_product
    (served.accepted.numbered.mem_statements member)
    (served.accepted.numbered.products f member ▸ List.mem_cons_self) inside)

theorem extents (settled : names₀.Same k.body.binders names) :
    k.rows.Known bindings names ∧ k.cols.Known bindings names := by
  obtain ⟨m, member, rows, cols⟩ := served.accepted.exists_matrix
  rw [← rows, ← cols]
  exact ⟨served.known names settled _ member _ m.logicalRows_mem_extents,
    served.known names settled _ member _ m.logicalCols_mem_extents⟩

/-- Whether a row is one of the matrices'. -/
theorem holds?_inside (settled : names₀.Same k.body.binders names) {w : Worker}
    (outer : names k.outer = some (.index row)) :
    k.inside.holds? w names = some (decide (row < k.rows.size bindings)) := by
  rw [Parts.inside, Term.holds?, Term.number?_name outer,
    Extent.number?_term (served.extents settled).1]
  rfl

end Served

/-- The names of a worker behind the prologue, as far as they stand for its place. -/
structure Placed (k : Parts) (names₀ : Names Unit) (l : (launch k.record).Lane) (names : Names Unit) :
    Prop where
  settled : names₀.Same k.body.binders names
  lid0 : names "lid0" = some (.index l.1)
  lid1 : names "lid1" = some (.index l.2.1)

/-- The code of the loops keeps them. -/
theorem Placed.after {names' : Names Unit} {bound : List String} (placed : Placed k names₀ l names)
    (same : names.Same bound names') (active : ∀ x ∈ bound, k.Active x) :
    Placed k names₀ l names' := by
  have kept {x : String} (other : initial x ∉ [some 's', some 'r', some 'c']) :
      names' x = names x := same x fun member => other (initial_active (active x member))
  refine ⟨placed.settled.trans (same.mono fun x member => mem_body_of_active (active x member)), ?_, ?_⟩
  · rw [kept (by decide), placed.lid0]
  · rw [kept (by decide), placed.lid1]

/-! ### A part of a row -/

/-- The counter of the rows outlasts the code that folds a row. -/
theorem outer_fresh (k : Parts) : k.outer ∉ k.inner :: k.folded.map Folded.sumName := by
  intro bound
  rcases List.mem_cons.mp bound with equal | bound
  · exact (List.nodup_cons.mp (List.nodup_cons.mp (counters_nodup k)).2).1
      (List.mem_singleton.mpr equal)
  · obtain ⟨f, -, same⟩ := List.mem_map.mp bound
    have letter := counters_initial k (x := k.outer) (by simp)
    rw [← same, f.initial_sumName] at letter
    exact absurd letter (by decide)

theorem inner_fresh (k : Parts) : k.inner ∉ k.folded.map Folded.sumName := by
  intro member
  obtain ⟨f, -, same⟩ := List.mem_map.mp member
  have letter := counters_initial k (x := k.inner) (by simp)
  rw [← same, f.initial_sumName] at letter
  exact absurd letter (by decide)

theorem active_of_fold {x : String} (member : x ∈ k.inner :: k.folded.map Folded.sumName) :
    k.Active x := by
  rcases List.mem_cons.mp member with rfl | member
  · exact Or.inl (by simp)
  · obtain ⟨f, inside, rfl⟩ := List.mem_map.mp member
    exact Or.inr ⟨f, inside, rfl⟩

/-- **A worker accesses the leaves of the products** in its part of a row, if there is such a row. -/
theorem gather_passes (served : Served op k bindings arrays names₀) (placed : Placed k names₀ l names)
    (outer : names k.outer = some (.index row)) :
    (Watch.of bindings arrays (Reads k bindings) ((launch k.record).worker g l)).Passes k.gather names
      fun _ => True := by
  refine .guarded (served.holds?_inside placed.settled outer) (fun inside => ?_)
    fun _ _ => .done trivial
  have bound : (Code.ofSteps (k.folded.map fun f => f.accumulate f.sum (k.term f))).binders =
      k.folded.map Folded.sumName := Code.binders_assigns
  rw [Walk.around_plain rfl rfl]
  refine .loop (a := l.2.1) (d := k.record.localSize1.toNat) (b := k.cols.size bindings)
    ⟨served.valid.localSize1, fun names' _ => ?_, fun names' same => ?_, fun names' _ => ?_⟩ ?_ ?_
  · show some (g.2.1.val * k.record.localSize1.toNat + l.2.1.val) = _
    rw [group_second, Nat.zero_mul, Nat.zero_add]
  · rw [bound] at same
    exact Extent.number?_term (served.extents (placed.after same fun x => active_of_fold).settled).2
  · exact congrArg some (Nat.one_mul _)
  · rw [bound]
    exact inner_fresh k
  · rintro j ⟨t, -, below⟩ names₁ same₁ counter
    rw [bound] at same₁
    refine Folded.accumulates_pass fun f here names₂ same₂ => ?_
    have placed₂ := (placed.after same₁ fun x => active_of_fold).after same₂ fun x member =>
      active_of_fold (List.mem_cons_of_mem _ member)
    have row₂ : names₂ k.outer = some (.index row) := by
      rw [same₂ _ fun member => outer_fresh k (List.mem_cons_of_mem _ member),
        same₁ _ (outer_fresh k), outer]
    have col₂ : names₂ k.inner = some (.index j) := (same₂ _ (inner_fresh k)).trans counter
    refine Product.accesses_term (rowPoint row j) ⟨fun t addressed => ?_,
      fun t addressed => ?_, fun t addressed => ?_⟩ rfl (served.accepted.terms f here)
      (served.product_known placed₂.settled here) fun leaf reads =>
        Or.inl ⟨f, here, reads, row, of_decide_eq_true inside, j, below, rfl⟩
    · cases addressed
      exact Term.number?_name col₂
    · cases addressed
      exact Term.number?_name row₂
    · cases addressed
      exact Term.number?_name col₂

/-! ### A trip -/

/-- **The first worker of a row accesses the leaves of the statements** and its slots. -/
theorem finish_passes (served : Served op k bindings arrays names₀) (placed : Placed k names₀ l names)
    (outer : names k.outer = some (.index row)) :
    (Watch.of bindings arrays (Reads k bindings) ((launch k.record).worker g l)).Passes k.finish names
      fun _ => True := by
  have decided : (Term.binary .both (.binary .equal (.name "lid1") (.count 0)) k.inside).holds?
      ((launch k.record).worker g l) names =
        some (decide (l.2.1.val = 0) && decide (row < k.rows.size bindings)) := by
    rw [Term.holds?, served.holds?_inside placed.settled outer, Term.holds?,
      Term.number?_name placed.lid1]
    rfl
  refine .guarded decided (fun holds => ?_) fun _ _ => .done trivial
  have inside := of_decide_eq_true (Bool.and_eq_true_iff.mp holds).2
  refine .each fun s member names' same => ?_
  obtain ⟨f, here, rfl⟩ := List.mem_map.mp member
  obtain rfl : names' = names := same.eq (Code.binders_ofSteps_nil fun s member => by
    obtain ⟨f, inside, rfl⟩ := List.mem_map.mp member
    exact store_binder? served.accepted inside)
  refine ⟨?_, Statement.accesses_storeStep { index := row } ⟨fun t addressed => ?_,
    fun t addressed => ?_, fun t addressed => ?_⟩ (served.accepted.stores f here)
    (fun leaf inside => ?_) (fun leaf reads => Or.inr ⟨f, here, reads, inside⟩) fun t addressed => ?_⟩
  · obtain ⟨target, value, -, -, is⟩ := Statement.storeStep_eq_ok (served.accepted.stores f here)
    rw [is]
    rfl
  · cases addressed
    exact Term.number?_name outer
  · cases addressed
  · cases addressed
  · exact served.known _ placed.settled leaf
      (Operation.mem_nodes_statement (served.accepted.numbered.mem_statements here) inside)
  · cases addressed
    refine Watch.of_inside (f.buffer k.type k.dims) ([.name "lid0"] ++ [.number 0]) ([l.1.val] ++ [0])
      (served.buffers f here) (List.cons_ne_nil _ _) ?_ (Term.inside_pair l.1.isLt (Nat.succ_pos _))
    exact Term.mapM_append_singleton (by
      rw [List.mapM_cons, Term.number?_name placed.lid0]
      rfl) rfl

/-- **What a worker accesses on a trip.** -/
theorem trip_passes (served : Served op k bindings arrays names₀) (placed : Placed k names₀ l names)
    (outer : names k.outer = some (.index row)) :
    (Watch.of bindings arrays (Reads k bindings) ((launch k.record).worker g l)).Passes k.trip names
      fun _ => True := by
  have place {names : Names Unit} (placed : Placed k names₀ l names) :
      [Term.name "lid0"].mapM (fun s => s.number? ((launch k.record).worker g l) names) =
        some [l.1.val] := by
    rw [List.mapM_cons, Term.number?_name placed.lid0]
    rfl
  have slot {names : Names Unit} (placed : Placed k names₀ l names) :
      (Term.name "lid1").number? ((launch k.record).worker g l) names = some l.2.1.val :=
    Term.number?_name placed.lid1
  have sums : (Code.ofSteps (k.folded.map fun f => f.declareSum k.type)).binders =
      k.folded.map Folded.sumName := Code.binders_declares
  have active {x : String} (member : x ∈ k.folded.map Folded.sumName) : k.Active x :=
    active_of_fold (List.mem_cons_of_mem _ member)
  refine .seq Folded.declareSums_pass fun names₁ same₁ => ?_
  rw [sums] at same₁
  have placed₁ := placed.after same₁ fun x => active
  have outer₁ : names₁ k.outer = some (.index row) :=
    (same₁ _ fun member => outer_fresh k (List.mem_cons_of_mem _ member)).trans outer
  refine .seq (gather_passes served placed₁ outer₁) fun names₂ same₂ => ?_
  rw [binders_gather] at same₂
  have placed₂ := placed₁.after same₂ fun x => active_of_fold
  have outer₂ := (same₂ _ (outer_fresh k)).trans outer₁
  have published : (Code.ofSteps (k.folded.map fun f =>
      f.publish (f.buffer k.type k.dims) ([.name "lid0"] ++ [.name "lid1"]))).binders = [] :=
    Folded.binders_publish
  refine .seq (Folded.publish_passes [.name "lid0"] served.buffers (place placed₂)
    (slot placed₂) (Term.inside_pair l.1.isLt (l.2.1.isLt.trans (Nat.lt_succ_self _))))
    fun names₃ same₃ => ?_
  obtain rfl : names₃ = names₂ := same₃.eq published
  refine .seq (Tree.code_passes served.accepted.tree (fun b member => ?_) (place placed₂) (slot placed₂)
    fun b member i below => ?_) fun names₄ same₄ => ?_
  · obtain ⟨f, inside, rfl⟩ := List.mem_map.mp member
    exact served.buffers f inside
  · obtain ⟨f, inside, rfl⟩ := List.mem_map.mp member
    exact Term.inside_pair l.1.isLt (below.trans (Nat.lt_succ_self _))
  obtain rfl := same₄.eq (Tree.binders_code served.accepted.tree)
  exact .seq (finish_passes served placed₂ outer₂) fun names₅ _ => .step nofun rfl (.done trivial)

/-! ### All of the kernel -/

/-- **What a worker accesses.** -/
theorem body_passes (served : Served op k bindings arrays names₀) (g : (launch k.record).Group)
    (l : (launch k.record).Lane) :
    (Watch.of bindings arrays (Reads k bindings) ((launch k.record).worker g l)).Passes k.body names₀
      fun _ => True := by
  have entered : (Watch.of bindings arrays (Reads k bindings) ((launch k.record).worker g l)).Passes
      k.prologue names₀ fun names => names "lid0" = some (.index l.1) ∧
        names "lid1" = some (.index l.2.1) := by
    refine .seq (.each fun s member _ _ => ?_) fun names₁ _ => .step nofun rfl
      (.step nofun rfl (.done ⟨(Names.bind_of_ne (by decide)).trans (Names.bind_self ..),
        Names.bind_self ..⟩))
    obtain ⟨f, -, rfl⟩ := List.mem_map.mp member
    exact ⟨rfl, nofun⟩
  refine .append (entered.weaken ?_)
  rintro names₁ same₁ ⟨lid0, lid1⟩
  have placed₁ : Placed k names₀ l names₁ :=
    ⟨same₁.mono fun x bound => Code.mem_binders_append.mpr (Or.inl bound), lid0, lid1⟩
  have active {x : String} (bound : x ∈ (k.outer ++ "_base") :: (Code.ofSteps
      [.declare .index k.outer (.name (k.outer ++ "_base") + .query .localId 0)] ++
        k.trip).binders) : k.Active x := active_of_binders served.accepted bound
  have kept : k.outer ++ "_base" ∉ (Code.ofSteps
      [.declare .index k.outer (.name (k.outer ++ "_base") + .query .localId 0)] ++
        k.trip).binders := by
    have distinct := (List.nodup_cons.mp (counters_nodup k)).1
    intro bound
    rcases Code.mem_binders_append.mp bound with outer | bound
    · exact distinct (List.mem_cons.mpr (Or.inl (List.mem_singleton.mp outer)))
    · rcases binders_trip served.accepted bound with inner | ⟨f, -, same⟩
      · exact distinct (List.mem_cons_of_mem _ (List.mem_singleton.mpr inner))
      · have letter := counters_initial k (x := k.outer ++ "_base") (by simp)
        rw [same, f.initial_sumName] at letter
        exact absurd letter (by decide)
  refine .loop (a := g.1 * k.record.localSize0.toNat)
    (d := k.record.numGroups0.toNat * k.record.localSize0.toNat) (b := k.rows.size bindings)
    ⟨Nat.mul_pos served.valid.numGroups0 served.valid.localSize0, fun _ _ => rfl, fun names' same => ?_,
      fun _ _ => rfl⟩ kept fun base _ names₂ same₂ counter => ?_
  · exact Extent.number?_term (served.extents (placed₁.after same fun x => active).settled).1
  · have number : (Term.name (k.outer ++ "_base") + .query .localId 0).number?
        ((launch k.record).worker g l) names₂ = some (base + l.1) :=
      Term.number?_add (Term.number?_name counter) rfl
    refine .index number (trip_passes served ?_ (Names.bind_self ..))
    refine (placed₁.after same₂ fun x => active).after
      ((Names.Same.refl [k.outer] names₂).bind List.mem_cons_self _) fun x member => ?_
    rw [List.mem_singleton.mp member]
    exact Or.inl (by simp)

/-! ### The program -/

/-- The arrays of the kernel are the buffers of the batch. -/
theorem arrays_body (accepted : Accepted op k.record k) :
    k.body.arrays = k.folded.map fun f => ((f.buffer k.type k.dims).name, k.dims) := by
  have plain {step : Folded → Step} (none : ∀ f ∈ k.folded, (step f).array? = none) :
      (Code.ofSteps (k.folded.map step)).arrays = [] := Code.arrays_ofSteps_nil fun s member => by
    obtain ⟨f, inside, rfl⟩ := List.mem_map.mp member
    exact none f inside
  have trip : k.trip.arrays = [] := by
    rw [Parts.trip, Code.arrays_join, List.flatMap_eq_nil_iff]
    intro piece member
    simp only [List.mem_cons, List.not_mem_nil, or_false] at member
    rcases member with rfl | rfl | rfl | rfl | rfl | rfl
    · exact plain fun _ _ => rfl
    · rw [Parts.gather, Code.arrays_ofGuard, Walk.arrays_around_plain rfl rfl]
      exact plain fun _ _ => rfl
    · exact plain fun _ _ => rfl
    · exact Tree.arrays_code accepted.tree
    · rw [Parts.finish, Code.arrays_ofGuard]
      refine plain fun f inside => ?_
      obtain ⟨target, value, -, -, is⟩ := Statement.storeStep_eq_ok (accepted.stores f inside)
      rw [is]
      rfl
    · rfl
  rw [Parts.body, Code.arrays_append, Walk.arrays_around_uniform, trip, List.append_nil,
    Parts.prologue, Code.arrays_join, List.flatMap_cons, Folded.arrays_declareLocals]
  exact List.append_nil _

/-- Every leaf covers what is read of it: the operands of the products the rows and columns of the first
matrix, and the others its rows. -/
def Fits (op : Operation) (bindings : Bindings) : Prop :=
  ∀ s ∈ op.statements, ∀ p ∈ s.value.products, ∀ y, p.matrix? = some y →
    ∀ s' ∈ op.statements, (∀ p' ∈ s'.value.products,
      (∀ x, .matrix x ∈ p'.leaves → y.logicalRows.size bindings ≤ x.logicalRows.size bindings ∧
        y.logicalCols.size bindings ≤ x.logicalCols.size bindings) ∧
      ∀ x, .vector x ∈ p'.leaves → y.logicalCols.size bindings ≤ x.size.size bindings) ∧
    ∀ x, .vector x ∈ s'.target.leaves ++ s'.value.leaves →
      y.logicalRows.size bindings ≤ x.size.size bindings

/-- Where the operands of a batch fit, every leaf has the elements that are read. -/
theorem Accepted.has (accepted : Accepted op k.record k) (fits : Fits op bindings) {leaf : Expr}
    {point : Point} (reads : Reads k bindings leaf point) : leaf.Has 1 bindings point := by
  have products {f : Folded} (member : f ∈ k.folded) : f.product ∈ f.statement.value.products :=
    accepted.numbered.products f member ▸ List.mem_cons_self
  obtain ⟨first, member₀⟩ := List.exists_mem_of_ne_nil _ accepted.nonempty
  obtain ⟨y, found, rows, cols⟩ := accepted.shapes first member₀
  have covers {f : Folded} (member : f ∈ k.folded) := fits _
    (accepted.numbered.mem_statements member₀) _ (products member₀) y found _
    (accepted.numbered.mem_statements member)
  rw [rows, cols] at covers
  have packed {v : VectorOperand} {i n : Nat} (below : i < n) (long : n ≤ v.size.size bindings) :
      (i + 1) * 1 ≤ v.size.size bindings := by omega
  rcases reads with ⟨f, member, inside, row, above, j, before, rfl⟩ | ⟨f, member, inside, below⟩
  · have product := (covers member).1 f.product (products member)
    rcases Product.addressed_of_term (accepted.terms f member) leaf inside with
      ⟨s, rfl⟩ | ⟨v, rfl, -⟩ | ⟨m, rfl, -⟩
    · trivial
    · exact packed before (product.2 v inside)
    · exact ⟨above.trans_le (product.1 m inside).1, before.trans_le (product.1 m inside).2⟩
  · obtain ⟨target, value, first, second, -⟩ := Statement.storeStep_eq_ok (accepted.stores f member)
    have addressed := (List.mem_append.mp inside).elim (Expr.addressed_of_term first leaf)
      (Expr.addressed_of_term second leaf)
    rcases addressed with ⟨s, rfl⟩ | ⟨v, rfl, -⟩ | ⟨m, rfl, row⟩
    · trivial
    · exact packed below ((covers member).2 v inside)
    · exact absurd rfl row

/-- **The kernel of an accepted batch is orderly**, and where its operands fit, every leaf has the
elements that are read. -/
theorem generateFor_orderly {kind : Operation.Kind} {transposed : Bool} {demand : Demand}
    {p : RowTuning} {program : Program} (valid : p.Valid)
    (ok : generateFor kind transposed demand p op = .ok program) {kernel : Kernel}
    (member : kernel ∈ program.kernels) (proper : kernel.Proper) (sized : kernel.Sized bindings) :
    ∃ reads, kernel.Orderly op bindings reads ∧ (Fits op bindings → ∀ leaf point,
      reads leaf point → leaf.Has 1 bindings point) := by
  obtain ⟨k, operands, sole, -, accepted, collected, kernels, arguments, scratch, geometry, code⟩ :=
    generateFor_eq_ok ok
  obtain rfl := accepted.record
  rw [kernels] at member
  obtain rfl := List.mem_singleton.mp member
  have serves : kernel.Serves op 1 operands bindings :=
    ⟨collected, fun name a found => arguments ▸ found, proper, sized⟩
  have arrays : kernel.arrays = k.folded.map fun f => ((f.buffer k.type k.dims).name, k.dims) := by
    rw [Kernel.arrays, scratch, if_pos rfl, List.append_nil, code, arrays_body accepted]
  refine ⟨Reads k bindings, .of_serves serves scratch ?_ ?_ ?_, fun fits leaf point => accepted.has fits⟩
  · refine .of_passes (launch k.record) (by rw [geometry]; rfl) fun g l => ?_
    rw [code]
    refine body_passes ⟨valid, accepted, fun f inside => ?_, fun names same node inside =>
      serves.known (code ▸ same) inside⟩ g l
    rw [arrays]
    exact List.mem_map.mpr ⟨f, inside, rfl⟩
  · rintro leaf point (⟨f, inside, leaves, -⟩ | ⟨f, inside, leaves, -⟩)
    · exact Operation.mem_nodes_product (accepted.numbered.mem_statements inside)
        (accepted.numbered.products f inside ▸ List.mem_cons_self) leaves
    · exact Operation.mem_nodes_statement (accepted.numbered.mem_statements inside) leaves
  · intro x dims dims' one two
    rw [arrays] at one two
    obtain ⟨f, -, same⟩ := List.mem_map.mp one
    obtain ⟨f', -, same'⟩ := List.mem_map.mp two
    cases same
    exact (congrArg Prod.snd same').symm

end TunedKernel.RowReduction
