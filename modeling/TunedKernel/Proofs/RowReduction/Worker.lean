/-
**What one worker does in a row reduction.**

* `Setting` — what the names of a launched kernel stand for, and what its statements read.
* `Named` — a worker's names behind the prologue; the code for a row keeps them.
* `content` — what a worker folds out of its part of a row; `fold_content` says that the parts make up
  the row.
* `gather_leads`, `collect_leads` — a worker folds its part and hands it to the group.
* `finish_leads` — the first worker of a row carries out the statements.
-/

import TunedKernel.Proofs.Batch.Partition
import TunedKernel.Proofs.Batch.Statements
import TunedKernel.Proofs.Batch.Variables
import TunedKernel.Proofs.RowReduction.Launch

namespace TunedKernel.RowReduction

variable {α : Type} {r : Reading α} {op : Operation} {k : Parts} {names₀ : Names α}

/-! ### Names -/

/-- The names that the code of the loops binds. -/
def Parts.Active (k : Parts) (x : String) : Prop :=
  x ∈ [k.outer ++ "_base", k.outer, k.inner] ∨ ∃ f ∈ k.folded, x = f.sumName

theorem counters_initial (k : Parts) {x : String} (member : x ∈ [k.outer ++ "_base", k.outer, k.inner]) :
    initial x ∈ [some 'r', some 'c'] := by
  unfold Parts.outer Parts.inner at member
  cases turned : k.transposed <;> rw [turned] at member
  · exact (show ∀ x ∈ ["r_base", "r", "c"], initial x ∈ [some 'r', some 'c'] by decide) x member
  · exact (show ∀ x ∈ ["c_base", "c", "r"], initial x ∈ [some 'r', some 'c'] by decide) x member

theorem counters_nodup (k : Parts) : [k.outer ++ "_base", k.outer, k.inner].Nodup := by
  unfold Parts.outer Parts.inner
  cases k.transposed <;> decide

theorem initial_active {x : String} (active : k.Active x) :
    initial x ∈ [some 's', some 'r', some 'c'] := by
  rcases active with counter | ⟨f, -, rfl⟩
  · exact List.mem_cons_of_mem _ (counters_initial k counter)
  · rw [f.initial_sumName]
    exact List.mem_cons_self

theorem binders_gather : k.gather.binders = k.inner :: k.folded.map Folded.sumName := by
  show k.inner :: (Code.ofSteps (k.folded.map fun f =>
    .store (.name f.sumName) .assign (f.product.reduce.combine f.sum (k.term f)))).binders ++ [] ++ [] = _
  rw [Code.binders_assigns, List.append_nil, List.append_nil]

theorem store_binder? (accepted : Accepted op k.record k) {f : Folded} (member : f ∈ k.folded) :
    (k.store f).binder? = none := by
  obtain ⟨t, value, target, -, same⟩ := Statement.storeStep_eq_ok (accepted.stores f member)
  obtain ⟨v, vector⟩ := accepted.targets f member
  rw [same]
  rw [vector] at target
  cases target
  rfl

theorem binders_finish (accepted : Accepted op k.record k) : k.finish.binders = [] := by
  show (Code.ofSteps (k.folded.map k.store)).binders ++ [] = []
  rw [List.append_nil]
  refine Code.binders_ofSteps_nil fun s member => ?_
  obtain ⟨f, inside, rfl⟩ := List.mem_map.mp member
  exact store_binder? accepted inside

/-- The code for a row binds the counter of the columns and the variables of the statements. -/
theorem binders_trip (accepted : Accepted op k.record k) {x : String} (bound : x ∈ k.trip.binders) :
    x = k.inner ∨ ∃ f ∈ k.folded, x = f.sumName := by
  have sums (member : x ∈ k.folded.map Folded.sumName) : ∃ f ∈ k.folded, x = f.sumName := by
    obtain ⟨f, inside, rfl⟩ := List.mem_map.mp member
    exact ⟨f, inside, rfl⟩
  obtain ⟨piece, member, bound⟩ := Code.mem_binders_join.mp bound
  simp only [List.mem_cons, List.not_mem_nil, or_false] at member
  rcases member with rfl | rfl | rfl | rfl | rfl | rfl
  · exact Or.inr (sums (Code.binders_declares ▸ bound))
  · rw [binders_gather] at bound
    exact (List.mem_cons.mp bound).imp id sums
  · replace bound : x ∈ (Code.ofSteps (k.folded.map fun f => f.publish (f.buffer k.type k.dims)
      ([.name "lid0"] ++ [.name "lid1"]))).binders := bound
    rw [Folded.binders_publish] at bound
    exact absurd bound List.not_mem_nil
  · exact absurd (Tree.binders_code accepted.tree ▸ bound) List.not_mem_nil
  · exact absurd (binders_finish accepted ▸ bound) List.not_mem_nil
  · exact absurd bound List.not_mem_nil

/-- The code of the loops binds active names. -/
theorem active_of_binders (accepted : Accepted op k.record k) {x : String}
    (bound : x ∈ (k.outer ++ "_base") ::
      (Code.ofSteps [.declare .index k.outer (.name (k.outer ++ "_base") + .query .localId 0)] ++
        k.trip).binders) : k.Active x := by
  rcases List.mem_cons.mp bound with rfl | bound
  · exact Or.inl List.mem_cons_self
  · rcases Code.mem_binders_append.mp bound with outer | bound
    · obtain rfl := List.mem_singleton.mp outer
      exact Or.inl (by simp)
    · rcases binders_trip accepted bound with rfl | sum
      · exact Or.inl (by simp)
      · exact Or.inr sum

theorem mem_body_of_active {x : String} (active : k.Active x) : x ∈ k.body.binders := by
  refine Code.mem_binders_append.mpr (Or.inr ?_)
  have trip (piece : Code) (member : piece ∈ [Code.ofSteps (k.folded.map fun f =>
      f.declareSum k.type), k.gather]) (bound : x ∈ piece.binders) : x ∈ k.trip.binders := by
    refine Code.mem_binders_join.mpr ⟨piece, ?_, bound⟩
    exact List.mem_append_left _ member
  show x ∈ (k.outer ++ "_base") :: (Code.binders (.step _ k.trip) ++ [])
  rw [List.append_nil]
  have later (bound : x ∈ k.trip.binders) :
      x ∈ (k.outer ++ "_base") :: ([k.outer] ++ k.trip.binders) :=
    List.mem_cons_of_mem _ (List.mem_append_right _ bound)
  rcases active with counter | ⟨f, member, rfl⟩
  · simp only [List.mem_cons, List.not_mem_nil, or_false] at counter
    rcases counter with rfl | rfl | rfl
    · exact List.mem_cons_self
    · exact List.mem_cons_of_mem _ List.mem_cons_self
    · refine later (trip k.gather (by simp) ?_)
      rw [binders_gather]
      exact List.mem_cons_self
  · refine later (trip _ List.mem_cons_self ?_)
    rw [show (k.folded.map fun f => f.declareSum k.type) = k.folded.map fun f =>
      .declare (.packed k.type 1) f.sumName (f.product.reduce.neutral k.type) from rfl,
      Code.binders_declares]
    exact List.mem_map_of_mem member

/-- **The code of the kernel binds** buffers, the worker's place and active names. -/
theorem mem_binders_body (accepted : Accepted op k.record k) {x : String} : x ∈ k.body.binders ↔
    x ∈ k.folded.map (fun f => (f.buffer k.type k.dims).name) ∨ x ∈ ["lid0", "lid1"] ∨
      k.Active x := by
  have entered : x ∈ k.prologue.binders ↔
      x ∈ k.folded.map (fun f => (f.buffer k.type k.dims).name) ∨ x ∈ ["lid0", "lid1"] := by
    show x ∈ (Code.ofSteps (k.folded.map fun f => .declareLocal (f.buffer k.type k.dims)) ++
      (Code.ofSteps [.declare .index "lid0" (.query .localId 0),
        .declare .index "lid1" (.query .localId 1)] ++ .done)).binders ↔ _
    rw [Code.mem_binders_append, Folded.binders_declareLocals, Code.append_done]
    rfl
  constructor
  · intro bound
    rcases Code.mem_binders_append.mp bound with place | walked
    · exact (entered.mp place).imp id Or.inl
    · replace walked : x ∈ (k.outer ++ "_base") :: ((Code.ofSteps
        (Walk.uniform k.outer 0 k.rows.term).inside ++ k.trip).binders ++ []) := walked
      rw [List.append_nil] at walked
      exact Or.inr (Or.inr (active_of_binders accepted walked))
  · rintro (buffer | place | active)
    · exact Code.mem_binders_append.mpr (Or.inl (entered.mpr (Or.inl buffer)))
    · exact Code.mem_binders_append.mpr (Or.inl (entered.mpr (Or.inr place)))
    · exact mem_body_of_active active

theorem initial_of_binders (accepted : Accepted op k.record k) {x : String}
    (bound : x ∈ k.body.binders) :
    initial x ∈ [some 'b', some 'l', some 's', some 'r', some 'c'] := by
  rcases (mem_binders_body accepted).mp bound with buffer | place | active
  · obtain ⟨f, -, rfl⟩ := List.mem_map.mp buffer
    rw [f.initial_buffer]
    exact List.mem_cons_self
  · exact (show ∀ x ∈ ["lid0", "lid1"], initial x ∈ [some 'b', some 'l', some 's', some 'r',
      some 'c'] by decide) x place
  · exact List.mem_cons_of_mem _ (List.mem_cons_of_mem _ (initial_active active))

/-- What the names of a launched kernel stand for, and what its statements read: no product reads a
target, and outside of it a statement reads of the targets only what stands at its own index. -/
structure Setting (r : Reading α) (op : Operation) (k : Parts) (names₀ : Names α) : Prop where
  valid : k.record.Valid
  accepted : Accepted op k.record k
  lawful : ∀ f ∈ k.folded, r.elements.Lawful k.type f.product.reduce
  known : ∀ names, names₀.Same k.body.binders names → ∀ f ∈ k.folded,
    (∀ leaf ∈ f.product.leaves, leaf.Known 1 r.host r.bindings names) ∧
      f.statement.target.Known 1 r.host r.bindings names ∧
      ∀ leaf ∈ f.statement.value.leaves, leaf.Known 1 r.host r.bindings names
  extents : ∀ names, names₀.Same k.body.binders names →
    k.rows.Known r.bindings names ∧ k.cols.Known r.bindings names
  constants : ∀ names, names₀.Same k.body.binders names → ∀ x ∈ Term.constants, names x = none
  apart : ∀ f ∈ k.folded, ∀ leaf ∈ f.product.leaves, ∀ point x n,
    leaf.place? r.bindings point = some (.global x n) → x ∉ k.targets
  own : ∀ f ∈ k.folded, ∀ leaf ∈ f.statement.value.leaves, ∀ point x n,
    leaf.place? r.bindings point = some (.global x n) → x ∈ k.targets → n = point.index

variable {g : (launch k.record).Group} {l : (launch k.record).Lane} {names : Names α}

/-- A worker's names behind the prologue. -/
structure Named (k : Parts) (names₀ : Names α) (l : (launch k.record).Lane) (names : Names α) :
    Prop where
  settled : names₀.Same k.body.binders names
  lid0 : names "lid0" = some (.index l.1)
  lid1 : names "lid1" = some (.index l.2.1)
  arrays : ∀ f ∈ k.folded, names (f.buffer k.type k.dims).name = some (.sharedArray k.dims)

/-- The code of the loops keeps the names. -/
theorem Named.after {names' : Names α} {bound : List String} (named : Named k names₀ l names)
    (same : names.Same bound names') (active : ∀ x ∈ bound, k.Active x) :
    Named k names₀ l names' := by
  have kept {x : String} (other : initial x ∉ [some 's', some 'r', some 'c']) :
      names' x = names x := same x fun member => other (initial_active (active x member))
  refine ⟨named.settled.trans (same.mono fun x member => mem_body_of_active (active x member)),
    ?_, ?_, fun f member => ?_⟩
  · rw [kept (by decide), named.lid0]
  · rw [kept (by decide), named.lid1]
  · rw [kept (by rw [f.initial_buffer]; decide), named.arrays f member]

/-- The names lead a worker to its slots. -/
theorem Named.finds (named : Named k names₀ l names) :
    Tree.Finds (layout k.record) (Folded.trees k.type k.dims k.folded) [.name "lid0"]
      (.name "lid1") k.record.localSize1.toNat g l names where
  row := by
    simp only [List.mapM_cons, List.mapM_nil, Term.number?_name named.lid0]
    rfl
  slot := Term.number?_name named.lid1
  arrays b member := by
    obtain ⟨f, inside, rfl⟩ := List.mem_map.mp member
    exact named.arrays f inside
  inside b member j below := by
    obtain ⟨f, inside, rfl⟩ := List.mem_map.mp member
    exact Term.inside_pair l.1.isLt (below.trans (Nat.lt_succ_self _))

/-! ### A part of a row -/

/-- Where a product is read for an element of a row. -/
def rowPoint (row j : Nat) : Point := { index := j, row := row, col := j }

/-- What a worker folds out of its part of a row, nothing beyond the last one. -/
def content (r : Reading α) (k : Parts) (f : Folded) (row lane : Nat) : α :=
  if row < k.rows.size r.bindings then
    r.elements.fold k.type f.product.reduce
      ((List.range (trips lane k.record.localSize1.toNat (k.cols.size r.bindings))).map fun t =>
        f.product.value r (rowPoint row (lane + t * k.record.localSize1.toNat))
          (rowPoint row (lane + t * k.record.localSize1.toNat)))
  else r.elements.neutral k.type f.product.reduce

/-- **What the workers of a row fold makes up the row.** -/
theorem fold_content (setting : Setting r op k names₀) {f : Folded} (member : f ∈ k.folded) {row : Nat}
    (inside : row < k.rows.size r.bindings) :
    r.elements.fold k.type f.product.reduce
        ((List.range k.record.localSize1.toNat).map (content r k f row)) =
      f.product.folded r k.type (rowPoint row) (k.cols.size r.bindings) := by
  have parts : content r k f row = fun lane => r.elements.fold k.type f.product.reduce
      ((List.range (trips lane k.record.localSize1.toNat (k.cols.size r.bindings))).map fun t =>
        f.product.value r (rowPoint row (lane + t * k.record.localSize1.toNat))
          (rowPoint row (lane + t * k.record.localSize1.toNat))) :=
    funext fun lane => if_pos inside
  rw [parts]
  exact Elements.fold_trips (setting.lawful f member) (a := id)
    (b := fun _ => k.cols.size r.bindings) setting.valid.localSize1
    (fun j _ => Nat.mod_lt j setting.valid.localSize1) (fun x worker j => visits_iff worker)
    fun j => f.product.value r (rowPoint row j) (rowPoint row j)

/-- A worker until the next barrier. -/
abbrev station (r : Reading α) (k : Parts) (g : (launch k.record).Group) (use : Use (launch k.record))
    (l : (launch k.record).Lane) : Station α :=
  ((footing k (k.rows.size r.bindings)).phase g use).station r.elements g l

variable {use : Use (launch k.record)} {m : Memory α} {row : Nat}

/-- Whether a row is one of the matrices'. -/
theorem holds?_inside (setting : Setting r op k names₀) (settled : names₀.Same k.body.binders names)
    {w : Worker} (outer : names k.outer = some (.index row)) :
    k.inside.holds? w names = some (decide (row < k.rows.size r.bindings)) := by
  rw [Parts.inside, Term.holds?, Term.number?_name outer,
    Extent.number?_term (setting.extents names settled).1]
  rfl

/-- A leaf of a product stands in the inputs, which hold what they held at first. -/
theorem input_of_leaf (setting : Setting r op k names₀)
    (inputs : ∀ x n, x ∉ k.targets → m (.global x n) = r.memory (.global x n)) {f : Folded}
    (member : f ∈ k.folded) {leaf : Expr} (inside : leaf ∈ f.product.leaves) {point : Point}
    {place : Place} (stored : leaf.place? r.bindings point = some place) :
    place ∈ (station r k g use l).reads ∧ m place = r.memory place := by
  obtain ⟨x, n, rfl⟩ := Expr.exists_global_of_place stored
  have other := setting.apart f member leaf inside point x n stored
  exact ⟨Or.inr other, inputs x n other⟩

/-- The term of a product has its value for the element at hand. -/
theorem term_gives (setting : Setting r op k names₀) (settled : names₀.Same k.body.binders names)
    (inputs : ∀ x n, x ∉ k.targets → m (.global x n) = r.memory (.global x n)) {f : Folded}
    (member : f ∈ k.folded) {j : Nat} (outer : names k.outer = some (.index row))
    (inner : names k.inner = some (.index j)) :
    (station r k g use l).Gives names m (k.term f) fun _ =>
      f.product.value r (rowPoint row j) (rowPoint row j) := by
  have means : k.elementScope.Means (station r k g use l) names m 1 (fun _ => rowPoint row j)
      fun _ => r.elements.number 0 := by
    refine ⟨fun t named => ?_, fun t named => ?_, fun t named => ?_, nofun⟩
    · cases named
      exact ⟨j, Term.number?_name inner, fun l => by rw [Nat.mul_one, Nat.mod_one]; rfl⟩
    · cases named
      exact ⟨row, Term.number?_name outer, fun _ => rfl⟩
    · cases named
      exact ⟨j, Term.number?_name inner, fun _ => rfl⟩
  have gives := Product.gives (setting.accepted.terms f member) means
    (setting.known names settled f member).1 fun leaf inside _ place stored =>
      (input_of_leaf setting inputs member inside stored).1
  have same : f.product.value ⟨r.elements, r.host, r.bindings, m⟩ (rowPoint row j) (rowPoint row j) =
      f.product.value r (rowPoint row j) (rowPoint row j) :=
    f.product.value_congr rfl rfl rfl fun leaf inside place stored =>
      (show place ∈ (station r k g use l).reads ∧ m place = r.memory place from
        input_of_leaf setting inputs member inside stored).2
  rw [← same]
  exact gives

/-- **A worker folds its part of a row.** -/
theorem gather_leads (setting : Setting r op k names₀) (named : Named k names₀ l names)
    (inputs : ∀ x n, x ∉ k.targets → m (.global x n) = r.memory (.global x n))
    (outer : names k.outer = some (.index row))
    (begun : ∀ f ∈ k.folded, names f.sumName =
      some (.value fun _ => r.elements.neutral k.type f.product.reduce)) :
    (station r k g use l).Leads k.gather names m fun names' m' => m' = m ∧ ∀ f ∈ k.folded,
      names' f.sumName = some (.value fun _ => content r k f row l.2.1) := by
  refine .guarded (holds?_inside setting named.settled outer) ?_
  by_cases inside : row < k.rows.size r.bindings
  · rw [decide_eq_true inside, if_pos rfl, Walk.around_plain rfl rfl]
    have fresh : k.inner ∉ k.folded.map Folded.sumName := by
      intro member
      obtain ⟨f, -, same⟩ := List.mem_map.mp member
      have letter := counters_initial k (x := k.inner) (by simp)
      rw [← same, f.initial_sumName] at letter
      exact absurd letter (by decide)
    have active : ∀ x ∈ k.inner :: k.folded.map Folded.sumName, k.Active x := by
      intro x member
      rcases List.mem_cons.mp member with rfl | member
      · exact Or.inl (by simp)
      · obtain ⟨f, inside, rfl⟩ := List.mem_map.mp member
        exact Or.inr ⟨f, inside, rfl⟩
    have counts : (Walk.strided k.inner 1 k.cols.term).loop.Counts
        ((launch k.record).worker g l) names (k.inner :: k.folded.map Folded.sumName) l.2.1
        k.record.localSize1.toNat (k.cols.size r.bindings) := by
      refine ⟨setting.valid.localSize1, fun names' _ => ?_, fun names' same => ?_, fun names' _ => ?_⟩
      · show some (g.2.1.val * k.record.localSize1.toNat + l.2.1.val) = _
        rw [group_second, Nat.zero_mul, Nat.zero_add]
      · exact Extent.number?_term (setting.extents names' (named.after same active).settled).2
      · exact congrArg some (Nat.one_mul _)
    refine (Station.Leads.foldEach (q := station r k g use l) (fun f => f.product.reduce) _
      (fun f t _ => f.product.value r
        (rowPoint row (l.2.1 + t * k.record.localSize1.toNat))
        (rowPoint row (l.2.1 + t * k.record.localSize1.toNat)))
      (Folded.nodup_sumName setting.accepted.numbered.nodup) fresh counts begun
      fun f member t _ names' same at' => ?_).weaken ?_
    · refine term_gives setting (named.after same active).settled inputs member ?_ at'
      rw [same k.outer ?_, outer]
      intro bound
      rcases List.mem_cons.mp bound with equal | bound
      · exact (List.nodup_cons.mp (List.nodup_cons.mp (counters_nodup k)).2).1
          (List.mem_singleton.mpr equal)
      · obtain ⟨f, -, same⟩ := List.mem_map.mp bound
        have letter := counters_initial k (x := k.outer) (by simp)
        rw [← same, f.initial_sumName] at letter
        exact absurd letter (by decide)
    · rintro names' m' - ⟨kept, folded⟩
      refine .done ⟨kept, fun f member => ?_⟩
      rw [folded f member]
      unfold content
      rw [if_pos inside]
      rfl
  · rw [decide_eq_false inside, if_neg Bool.false_ne_true]
    refine .done ⟨rfl, fun f member => ?_⟩
    rw [begun f member]
    unfold content
    rw [if_neg inside]

/-- The code up to the first barrier of a trip. -/
def Parts.collect (k : Parts) : Code :=
  .step (.declare .index k.outer (.name (k.outer ++ "_base") + .query .localId 0))
    (Code.ofSteps (k.folded.map fun f => f.declareSum k.type) ++ (k.gather ++
      Code.ofSteps (k.folded.map fun f =>
        f.publish (f.buffer k.type k.dims) [.name "lid0", .name "lid1"])))

theorem active_of_collect {x : String} (bound : x ∈ k.collect.binders) : k.Active x := by
  have sums (member : x ∈ k.folded.map Folded.sumName) : k.Active x := by
    obtain ⟨f, inside, rfl⟩ := List.mem_map.mp member
    exact Or.inr ⟨f, inside, rfl⟩
  rcases List.mem_append.mp bound with outer | bound
  · obtain rfl := List.mem_singleton.mp outer
    exact Or.inl (by simp)
  · simp only [Code.mem_binders_append] at bound
    rcases bound with declared | gathered | published
    · exact sums (Code.binders_declares ▸ declared)
    · rw [binders_gather] at gathered
      rcases List.mem_cons.mp gathered with rfl | sum
      · exact Or.inl (by simp)
      · exact sums sum
    · replace published : x ∈ (Code.ofSteps (k.folded.map fun f => f.publish
        (f.buffer k.type k.dims) ([.name "lid0"] ++ [.name "lid1"]))).binders := published
      rw [Folded.binders_publish] at published
      exact absurd published List.not_mem_nil

/-- **A worker hands its part of a row to the group.** -/
theorem collect_leads (setting : Setting r op k names₀) (named : Named k names₀ l names)
    (inputs : ∀ x n, x ∉ k.targets → m (.global x n) = r.memory (.global x n)) {base : Nat}
    (counter : names (k.outer ++ "_base") = some (.index base)) :
    (station r k g (layout k.record).publishing l).Leads k.collect names m fun names' m' =>
      names' k.outer = some (.index (base + l.1)) ∧
      (∀ f ∈ k.folded, (m' (.shared g.triple (f.buffer k.type k.dims).name
        ((layout k.record).own l))).value = content r k f (base + l.1) l.2.1) ∧
      ∀ x n, m' (.global x n) = m (.global x n) := by
  have number : (Term.name (k.outer ++ "_base") + .query .localId 0).number?
      ((launch k.record).worker g l) names = some (base + l.1) :=
    Term.number?_add (Term.number?_name counter) rfl
  have sums : ∀ x ∈ k.folded.map Folded.sumName, k.Active x := by
    intro x member
    obtain ⟨f, inside, rfl⟩ := List.mem_map.mp member
    exact Or.inr ⟨f, inside, rfl⟩
  have distinct := Folded.nodup_sumName setting.accepted.numbered.nodup
  have other {x : String} (letter : initial x ∈ [some 'r', some 'c']) :
      x ∉ k.folded.map Folded.sumName := by
    intro member
    obtain ⟨f, -, rfl⟩ := List.mem_map.mp member
    rw [f.initial_sumName] at letter
    exact absurd letter (by decide)
  refine .declareIndex number (.append ?_)
  have named₁ : Named k names₀ l (names.bind k.outer (.index (base + l.1))) :=
    named.after ((Names.Same.refl [k.outer] names).bind List.mem_cons_self _) fun x member => by
      rw [List.mem_singleton.mp member]
      exact Or.inl (by simp)
  refine (Station.Leads.declareEach (q := station r k g (layout k.record).publishing l)
    (x := fun f _ => r.elements.neutral k.type f.product.reduce) distinct
    fun f _ names' same => .neutral (setting.constants names'
      (named₁.after same sums).settled)).weaken ?_
  rintro names₂ m₂ same₂ ⟨rfl, begun⟩
  rw [Code.binders_declares] at same₂
  have outer₂ : names₂ k.outer = some (.index (base + l.1)) := by
    rw [same₂ k.outer (other (counters_initial k (by simp))), Names.bind_self]
  have named₂ := named₁.after same₂ sums
  refine .append ((gather_leads setting named₂ inputs outer₂ begun).weaken ?_)
  rintro names₃ m₃ same₃ ⟨rfl, gathered⟩
  rw [binders_gather] at same₃
  have outer₃ : names₃ k.outer = some (.index (base + l.1)) := by
    rw [same₃ k.outer ?_, outer₂]
    intro member
    rcases List.mem_cons.mp member with equal | member
    · exact (List.nodup_cons.mp (List.nodup_cons.mp (counters_nodup k)).2).1
        (List.mem_singleton.mpr equal)
    · exact other (counters_initial k (by simp)) member
  have named₃ : Named k names₀ l names₃ := named₂.after same₃ fun x member => by
    rcases List.mem_cons.mp member with rfl | member
    · exact Or.inl (by simp)
    · exact sums x member
  refine (Folded.publish_leads setting.accepted.numbered.nodup named₃.finds l.2.1.isLt
    gathered).weaken ?_
  rintro names₄ m₄ - ⟨rfl, published, others⟩
  exact ⟨outer₃, published, fun x n => others _ fun _ => Place.noConfusion⟩

/-! ### The statements of a row -/

/-- The memory after the statements were carried out for a row. -/
def carried (r : Reading α) (k : Parts) (row : Nat) : Memory α :=
  Statement.executeAll r k.type (rowPoint row) (k.cols.size r.bindings) { index := row }
    (k.folded.map fun f => (f.statement, k.store f))

/-- The places that the statements of a row use: the elements of the targets at the row, and all other
buffers. -/
def rowPlaces (k : Parts) (row : Nat) : Set Place :=
  {place | ∃ x n, place = .global x n ∧ (x ∈ k.targets → n = row)}

/-- The statements of a row keep inside their places. -/
theorem inside_row (setting : Setting r op k names₀) (row : Nat) :
    ∀ entry ∈ k.folded.map fun f => (f.statement, k.store f),
      entry.1.Inside r.bindings (rowPoint row) (k.cols.size r.bindings) { index := row }
        (rowPlaces k row) := by
  intro entry member
  obtain ⟨f, inside, rfl⟩ := List.mem_map.mp member
  refine ⟨fun place stored => ?_, fun leaf reads place stored => ?_,
    fun p single leaf reads j _ place stored => ?_⟩
  · obtain ⟨v, vector⟩ := setting.accepted.targets f inside
    dsimp only at stored
    rw [vector] at stored
    cases stored
    exact ⟨_, _, rfl, fun _ => rfl⟩
  · obtain ⟨x, n, rfl⟩ := Expr.exists_global_of_place stored
    exact ⟨x, n, rfl, setting.own f inside leaf reads _ x n stored⟩
  · rw [setting.accepted.numbered.products f inside] at single
    obtain rfl := List.mem_singleton.mp single
    obtain ⟨x, n, rfl⟩ := Expr.exists_global_of_place stored
    exact ⟨x, n, rfl, fun target => absurd target (setting.apart f inside leaf reads _ x n stored)⟩

/-- The statements of a row change the elements of the targets there only. -/
theorem executeAll_row (setting : Setting r op k names₀) (m : Memory α) {x : String} {n : Nat}
    (other : ¬ (x ∈ k.targets ∧ n = row)) :
    Statement.executeAll { r with memory := m } k.type (rowPoint row) (k.cols.size r.bindings)
      { index := row } (k.folded.map fun f => (f.statement, k.store f)) (.global x n) =
        m (.global x n) := by
  refine Statement.executeAll_of_ne fun entry member stored => other ?_
  obtain ⟨f, inside, rfl⟩ := List.mem_map.mp member
  obtain ⟨v, vector⟩ := setting.accepted.targets f inside
  dsimp only at stored
  rw [vector] at stored
  cases stored
  exact ⟨⟨f, inside, v, vector, rfl⟩, rfl⟩

/-- **The first worker of a row carries out the statements there**, once their products are folded. -/
theorem finish_leads (setting : Setting r op k names₀) (named : Named k names₀ l names)
    (outer : names k.outer = some (.index row)) (mine : ∃ t, row = rowOf g l t)
    (inputs : ∀ x n, x ∉ k.targets → m (.global x n) = r.memory (.global x n))
    (fresh : ∀ x ∈ k.targets, l.2.1.val = 0 → row < k.rows.size r.bindings →
      m (.global x row) = r.memory (.global x row))
    (reads : l.2.1.val = 0 → ∀ f ∈ k.folded,
      ((f.buffer k.type k.dims).name, (layout k.record).own l) ∈ use.reads l)
    (folds : l.2.1.val = 0 → row < k.rows.size r.bindings → ∀ f ∈ k.folded,
      (m (.shared g.triple (f.buffer k.type k.dims).name ((layout k.record).own l))).value =
        f.product.folded r k.type (rowPoint row) (k.cols.size r.bindings)) :
    (station r k g use l).Leads k.finish names m fun _ m' =>
      (l.2.1.val = 0 → row < k.rows.size r.bindings → ∀ x ∈ k.targets,
        m' (.global x row) = carried r k row (.global x row)) ∧
      ∀ x n, ¬ (l.2.1.val = 0 ∧ row < k.rows.size r.bindings ∧ x ∈ k.targets ∧ n = row) →
        m' (.global x n) = m (.global x n) := by
  have decided : (Term.binary .both (.binary .equal (.name "lid1") (.count 0)) k.inside).holds?
      ((launch k.record).worker g l) names =
        some (decide (l.2.1.val = 0) && decide (row < k.rows.size r.bindings)) := by
    rw [Term.holds?, holds?_inside setting named.settled outer, Term.holds?,
      Term.number?_name named.lid1]
    rfl
  refine .guarded decided ?_
  by_cases active : l.2.1.val = 0 ∧ row < k.rows.size r.bindings
  · obtain ⟨first, inside⟩ := active
    rw [decide_eq_true first, decide_eq_true inside, Bool.and_true, if_pos rfl]
    have own : (layout k.record).own l = [l.1.val] ++ [0] := by
      show [l.1.val] ++ [l.2.1.val] = _
      rw [first]
    -- The slot of a statement keeps its content while the statements before it are carried out.
    have each (f : Folded) (member : f ∈ k.folded) : ∃ p place, f.statement.value.products = [p] ∧
        f.statement.target.place? r.bindings { index := row } = some place ∧
        place ∈ (station r k g use l).reads ∩ (station r k g use l).writes ∧
        ∀ m', (∀ place', (∀ f' ∈ k.folded,
            f'.statement.target.place? r.bindings { index := row } ≠ some place') →
              m' place' = m place') →
          p.folded ⟨r.elements, r.host, r.bindings, m'⟩ k.type (rowPoint row)
              (k.cols.size r.bindings) =
            f.product.folded r k.type (rowPoint row) (k.cols.size r.bindings) ∧
          (k.storeScope f).Means (station r k g use l) names m' 1 (fun _ => { index := row })
            fun _ => f.product.folded r k.type (rowPoint row) (k.cols.size r.bindings) := by
      obtain ⟨v, vector⟩ := setting.accepted.targets f member
      have target : v.name ∈ k.targets := ⟨f, member, v, vector, rfl⟩
      refine ⟨f.product, .global v.name row, setting.accepted.numbered.products f member,
        vector ▸ rfl, ⟨Or.inl ⟨first, target, inside, mine⟩, first, target, inside, mine⟩,
        fun m' kept => ⟨?_, ?_⟩⟩
      · have inputs' (x : String) (n : Nat) (other : x ∉ k.targets) :
            m' (.global x n) = r.memory (.global x n) := by
          rw [kept _ fun f' member' stored => ?_, inputs x n other]
          obtain ⟨v', vector'⟩ := setting.accepted.targets f' member'
          rw [vector'] at stored
          cases stored
          exact other ⟨f', member', v', vector', rfl⟩
        exact f.product.folded_congr (r := r) rfl rfl rfl fun leaf within j _ place stored =>
          (show place ∈ (station r k g use l).reads ∧ m' place = r.memory place from
            input_of_leaf setting inputs' member within stored).2
      · have slot : (station r k g use l).At names (Tree.result (f.buffer k.type k.dims)
            [.name "lid0"]) (.shared g.triple (f.buffer k.type k.dims).name
              ((layout k.record).own l)) := by
          rw [own]
          exact Tree.Finds.at (t := .number 0) rfl named.finds (List.mem_map_of_mem member) rfl
            setting.valid.localSize1
        have same : m' (.shared g.triple (f.buffer k.type k.dims).name ((layout k.record).own l)) =
            m (.shared g.triple (f.buffer k.type k.dims).name ((layout k.record).own l)) := by
          refine kept _ fun f' _ stored => ?_
          obtain ⟨x, n, equal⟩ := Expr.exists_global_of_place stored
          cases equal
        refine ⟨fun t addressed => ?_, fun t addressed => ?_, fun t addressed => ?_,
          fun t addressed => ?_⟩
        · cases addressed
          exact ⟨row, Term.number?_name outer, fun l => by rw [Nat.mul_one, Nat.mod_one]; rfl⟩
        · cases addressed
        · cases addressed
        · cases addressed
          rw [← folds first inside f member, ← same]
          exact Tree.gives_access slot ⟨rfl, reads first f member⟩
    refine (Statement.all_lead (fun f => setting.accepted.stores f) each
      (fun f member => (setting.known names named.settled f member).2)
      fun f member leaf within place stored => ?_).weaken ?_
    · obtain ⟨x, n, rfl⟩ := Expr.exists_global_of_place stored
      by_cases target : x ∈ k.targets
      · obtain rfl := setting.own f member leaf within _ x n stored target
        exact Or.inl ⟨first, target, inside, mine⟩
      · exact Or.inr target
    · rintro names' _ - ⟨rfl, rfl⟩
      refine .done ⟨fun _ _ x target => ?_, fun x n other => ?_⟩
      · refine Statement.executeAll_eqOn (r := r) (inside_row setting row) ?_
          ⟨x, row, rfl, fun _ => rfl⟩
        rintro place ⟨x', n', rfl, here⟩
        by_cases target' : x' ∈ k.targets
        · obtain rfl := here target'
          exact fresh x' target' first inside
        · exact inputs x' n' target'
      · exact executeAll_row setting m fun here => other ⟨first, inside, here⟩
  · have off : (decide (l.2.1.val = 0) && decide (row < k.rows.size r.bindings)) = false := by
      rw [← Bool.decide_and]
      exact decide_eq_false active
    rw [off, if_neg Bool.false_ne_true]
    exact .done ⟨fun first inside => absurd ⟨first, inside⟩ active, fun _ _ _ => rfl⟩

end TunedKernel.RowReduction
