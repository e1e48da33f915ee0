/-
**What one worker folds in a reduction.**

* `Setting` — what the names of a launched kernel stand for, and what its statements read.
* `Named` — a worker's names behind the prologue; the code that folds keeps them.
* `block`, `content`, `recontent` — what the lanes of an element fold to, a worker's part of the elements,
  and a worker's part of the partial values; `fold_content` and `fold_recontent` say that the parts make
  up the whole.
* `gather_leads`, `regather_leads` — a worker of either kernel folds its part into the sums.
-/

import TunedKernel.Proofs.Batch.Carrying
import TunedKernel.Proofs.Batch.Nodes
import TunedKernel.Proofs.Batch.Partition
import TunedKernel.Proofs.Batch.Variables
import TunedKernel.Proofs.Execution.Split
import TunedKernel.Proofs.Reduction.Launch

namespace TunedKernel.Reduction

variable {α : Type} {r : Reading α} {op : Operation} {k : Parts} {body : Code} {names₀ : Names α}

/-! ### Operands -/

/-- The leaves that a statement has outside of its product are scalars. -/
theorem Accepted.exists_scalar {p : ReductionTuning} (accepted : Accepted op p k) {f : Folded}
    (member : f ∈ k.folded) :
    ∀ leaf ∈ f.statement.target.leaves ++ f.statement.value.leaves, ∃ s, leaf = .scalar s := by
  obtain ⟨-, value, -, second, -⟩ := Statement.storeStep_eq_ok (accepted.stores f member)
  intro leaf inside
  rcases List.mem_append.mp inside with target | inside
  · obtain ⟨name, isScalar⟩ := accepted.targets f member
    rw [isScalar] at target
    exact ⟨_, List.mem_singleton.mp target⟩
  · exact Expr.exists_scalar_of_term rfl rfl second leaf inside

/-- The extent of the batch is that of a vector. -/
theorem Accepted.exists_vector {p : ReductionTuning} (accepted : Accepted op p k) :
    ∃ v, .vector v ∈ op.nodes ∧ v.size = k.extent := by
  obtain ⟨f, member⟩ := List.exists_mem_of_ne_nil _ accepted.nonempty
  obtain ⟨v, first, size⟩ := accepted.extents f member
  refine ⟨v, Operation.mem_nodes_value (accepted.numbered.mem_statements member) ?_, size⟩
  exact Expr.mem_nodes_of_vector? (accepted.numbered.products f member ▸ List.mem_cons_self) first

/-! ### Names -/

theorem initial_accumulatorName (width : Nat) (f : Folded) :
    initial (accumulatorName width f) ∈ [some 'a', some 's'] := by
  unfold accumulatorName
  split
  · rw [initial_append (c := 'a') (by decide)]
    exact List.mem_cons_self
  · rw [f.initial_sumName]
    exact List.mem_cons_of_mem _ List.mem_cons_self

theorem nodup_accumulatorName {folded : List Folded} (width : Nat)
    (numbers : (folded.map Folded.position).Nodup) : (folded.map (accumulatorName width)).Nodup := by
  by_cases wide : 1 < width
  · refine numbers.of_map.map_on fun f member f' member' same => ?_
    unfold accumulatorName at same
    rw [if_pos wide, if_pos wide] at same
    exact List.inj_on_of_nodup_map numbers member member' (append_toString_injective "acc" same)
  · rw [show accumulatorName width = Folded.sumName from funext fun f => if_neg wide]
    exact Folded.nodup_sumName numbers

/-- An accumulating variable is started with the same value in all its lanes. -/
theorem declareAccumulator_eq (type : NumericType) (width : Nat) (f : Folded) :
    declareAccumulator type width f =
      .declare (.packed type (if 1 < width then width else 1)) (accumulatorName width f)
        (if 1 < width then .cast (ValueType.packed type width).text (f.product.reduce.neutral type)
          else f.product.reduce.neutral type) := by
  unfold declareAccumulator accumulatorName
  split
  · rfl
  · rfl

theorem binders_declareAccumulators :
    (Code.ofSteps (k.folded.map (declareAccumulator k.type k.width))).binders =
      k.folded.map (accumulatorName k.width) := by
  rw [funext (declareAccumulator_eq k.type k.width)]
  exact Code.binders_declares

theorem binders_accumulates : (Code.ofSteps (k.folded.map fun f =>
    f.accumulate (.name (accumulatorName k.width f)) (k.term f))).binders =
      k.folded.map (accumulatorName k.width) := Code.binders_assigns

/-- The lanes of a variable are folded into a variable of the same statement. -/
theorem mem_binders_foldLanes {f : Folded} {x : String}
    (bound : x ∈ (Code.ofSteps (foldLanes k.type k.width f)).binders) : x = f.sumName := by
  rw [Code.binders_ofSteps] at bound
  obtain ⟨s, member, named⟩ := List.mem_flatMap.mp bound
  unfold foldLanes at member
  split at member
  · rcases List.mem_cons.mp member with rfl | member
    · exact List.mem_singleton.mp named
    · obtain ⟨n, -, rfl⟩ := List.mem_map.mp member
      exact List.mem_singleton.mp named
  · cases member

theorem binders_ofSteps_flatMap {β : Type} {items : List β} {f : β → List Step} :
    (Code.ofSteps (items.flatMap f)).binders = items.flatMap fun b => (Code.ofSteps (f b)).binders := by
  simp only [Code.binders_ofSteps, List.flatMap_assoc]

/-- What the first kernel's worker binds as it folds. -/
theorem mem_binders_gather {x : String} : x ∈ k.gather.binders ↔
    x ∈ k.folded.map (accumulatorName k.width) ∨ x ∈ k.walk.declared ∨ x = "i" ∨
      x ∈ (Code.ofSteps (k.folded.flatMap (foldLanes k.type k.width))).binders := by
  rw [Parts.gather, Code.mem_binders_append, Code.mem_binders_append, binders_declareAccumulators,
    Parts.accumulate, Parts.walk, Walk.mem_binders_split, binders_accumulates]
  tauto

theorem initial_of_gather {x : String} (bound : x ∈ k.gather.binders) :
    initial x ∈ [some 'a', some 's', some 'i'] := by
  rcases mem_binders_gather.mp bound with begun | declared | rfl | folded
  · obtain ⟨f, -, rfl⟩ := List.mem_map.mp begun
    exact List.mem_append_left [some 'i'] (initial_accumulatorName k.width f)
  · obtain ⟨word, -, rfl⟩ := Walk.mem_declared_split declared
    rw [initial_append (c := 'i') (by decide)]
    decide
  · decide
  · rw [binders_ofSteps_flatMap] at folded
    obtain ⟨f, -, named⟩ := List.mem_flatMap.mp folded
    rw [mem_binders_foldLanes named, f.initial_sumName]
    decide

/-- The walk of the first kernel binds what it declares, its counter and the variables. -/
theorem mem_gather_of_walk {x : String}
    (member : x ∈ k.walk.declared ++ "i" :: k.folded.map (accumulatorName k.width)) :
    x ∈ k.gather.binders := by
  refine mem_binders_gather.mpr ?_
  rcases List.mem_append.mp member with declared | member
  · exact Or.inr (Or.inl declared)
  · rcases List.mem_cons.mp member with rfl | variable'
    · exact Or.inr (Or.inr (Or.inl rfl))
    · exact Or.inl variable'

/-- The variables are told apart from the counter and from what the walk declares. -/
theorem walk_fresh (x : String) (member : x ∈ k.walk.declared ++ ["i"]) :
    x ∉ k.folded.map (accumulatorName k.width) := by
  have counter : initial x = some 'i' := by
    rcases List.mem_append.mp member with declared | last
    · obtain ⟨word, -, rfl⟩ := Walk.mem_declared_split declared
      exact initial_append (by decide) word
    · obtain rfl := List.mem_singleton.mp last
      decide
  intro other
  obtain ⟨f, -, rfl⟩ := List.mem_map.mp other
  have letter := initial_accumulatorName k.width f
  rw [counter] at letter
  exact absurd letter (by decide)

/-- What the second kernel's worker binds as it folds. -/
theorem mem_binders_regather {x : String} :
    x ∈ k.regather.binders ↔ x ∈ k.folded.map Folded.sumName ∨ x = "i" := by
  have sums : (Code.ofSteps (k.folded.map fun f => f.declareSum k.type)).binders =
      k.folded.map Folded.sumName := Code.binders_declares
  have assigned : (Code.ofSteps (k.folded.map fun f =>
      f.accumulate f.sum (partialPlace k.groups f (.name "i")))).binders =
        k.folded.map Folded.sumName := Code.binders_assigns
  rw [Parts.regather, Code.mem_binders_append, sums, Walk.around_plain rfl rfl]
  show _ ∨ x ∈ "i" :: ((Code.ofSteps _).binders ++ []) ↔ _
  rw [assigned, List.append_nil, List.mem_cons]
  tauto

theorem initial_of_regather {x : String} (bound : x ∈ k.regather.binders) :
    initial x ∈ [some 'a', some 's', some 'i'] := by
  rcases mem_binders_regather.mp bound with sum | rfl
  · obtain ⟨f, -, rfl⟩ := List.mem_map.mp sum
    rw [f.initial_sumName]
    decide
  · decide

/-- The step that carries out a statement binds nothing. -/
theorem store_binder? (accepted : Accepted op k.record k) {f : Folded} (member : f ∈ k.folded) :
    (k.store f).binder? = none := by
  obtain ⟨t, value, target, -, same⟩ := Statement.storeStep_eq_ok (accepted.stores f member)
  obtain ⟨name, isScalar⟩ := accepted.targets f member
  rw [same]
  rw [isScalar] at target
  cases target
  rfl

theorem binders_prologue : (prologue k.type [k.lanes] k.folded).binders =
    k.folded.map (fun f => (k.buffer f).name) ++ ["lid"] := by
  rw [prologue, Code.ofSteps_append]
  induction k.folded with
  | nil => rfl
  | cons f rest ih => exact congrArg ((k.buffer f).name :: ·) ih

/-- What a kernel binds besides what its workers bind as they fold. -/
theorem mem_binders_around (accepted : Accepted op k.record k) {fold : Code} {last : Folded → Step}
    (plain : ∀ f ∈ k.folded, (last f).binder? = none) {x : String} :
    x ∈ (k.around fold last).binders ↔
      x ∈ k.folded.map (fun f => (k.buffer f).name) ∨ x = "lid" ∨ x ∈ fold.binders := by
  have published : k.publish.binders = [] := by
    show (Code.ofSteps (k.folded.map fun f =>
      f.publish (f.buffer k.type [k.lanes]) ([] ++ [lane]))).binders = []
    exact Folded.binders_publish
  have alone : (Parts.alone (k.folded.map last)).binders = [] := by
    show (Code.ofSteps (k.folded.map last)).binders ++ [] = []
    rw [List.append_nil]
    refine Code.binders_ofSteps_nil fun s member => ?_
    obtain ⟨f, inside, rfl⟩ := List.mem_map.mp member
    exact plain f inside
  simp only [Parts.around, Code.mem_binders_append, binders_prologue, List.mem_append,
    List.mem_singleton, published, Tree.binders_code accepted.tree, alone, List.not_mem_nil]
  tauto

theorem mem_binders_partialBody (accepted : Accepted op k.record k) {x : String} :
    x ∈ k.partialBody.binders ↔
      x ∈ k.folded.map (fun f => (k.buffer f).name) ∨ x = "lid" ∨ x ∈ k.gather.binders :=
  mem_binders_around accepted fun _ _ => rfl

theorem mem_binders_finalBody (accepted : Accepted op k.record k) {x : String} :
    x ∈ k.finalBody.binders ↔
      x ∈ k.folded.map (fun f => (k.buffer f).name) ∨ x = "lid" ∨ x ∈ k.regather.binders :=
  mem_binders_around accepted fun _ => store_binder? accepted

/-! ### The names of a launched kernel -/

/-- What the names of a launched kernel stand for, and what its statements read: a statement reads of
the targets only what they hold, and no product reads the scratch buffer. -/
structure Setting (r : Reading α) (op : Operation) (k : Parts) (body : Code) (names₀ : Names α) :
    Prop where
  valid : k.record.Valid
  accepted : Accepted op k.record k
  lawful : ∀ f ∈ k.folded, r.elements.Lawful k.type f.product.reduce
  known : ∀ names, names₀.Same body.binders names → ∀ f ∈ k.folded,
    (∀ leaf ∈ f.product.leaves, leaf.Known k.width r.host r.bindings names) ∧
      f.statement.target.Known 1 r.host r.bindings names ∧
      ∀ leaf ∈ f.statement.value.leaves, leaf.Known 1 r.host r.bindings names
  extent : ∀ names, names₀.Same body.binders names → k.extent.Known r.bindings names
  scratch : ∀ names, names₀.Same body.binders names → names scratch = some (.buffer 1)
  constants : ∀ names, names₀.Same body.binders names → ∀ x ∈ Term.constants, names x = none
  foreign : ∀ f ∈ k.folded, ∀ leaf ∈ f.product.leaves, ∀ point x n,
    leaf.place? r.bindings point = some (.global x n) → x ≠ Reduction.scratch
  own : ∀ f ∈ k.folded, ∀ leaf ∈ f.statement.value.leaves, ∀ point x n,
    leaf.place? r.bindings point = some (.global x n) →
      x ≠ Reduction.scratch ∧ (x ∈ k.targets → n = 0)
  outside : Reduction.scratch ∉ k.targets

variable {groups : Nat} {g : (launch k.record groups).Group} {l : (launch k.record groups).Lane}
  {names names' : Names α}

/-- A worker's names behind the prologue. -/
structure Named (k : Parts) (body : Code) (names₀ : Names α) (lid : Nat) (names : Names α) :
    Prop where
  settled : names₀.Same body.binders names
  lid : names "lid" = some (.index lid)
  arrays : ∀ f ∈ k.folded, names (k.buffer f).name = some (.sharedArray [k.lanes])

/-- The code that folds keeps the names. -/
theorem Named.after {lid : Nat} {bound : List String} (named : Named k body names₀ lid names)
    (same : names.Same bound names')
    (active : ∀ x ∈ bound, x ∈ body.binders ∧ initial x ∈ [some 'a', some 's', some 'i']) :
    Named k body names₀ lid names' := by
  have kept {x : String} (other : initial x ∉ [some 'a', some 's', some 'i']) :
      names' x = names x := same x fun member => other (active x member).2
  refine ⟨named.settled.trans (same.mono fun x member => (active x member).1), ?_,
    fun f member => ?_⟩
  · rw [kept (by decide), named.lid]
  · rw [kept (by rw [Parts.buffer, f.initial_buffer]; decide), named.arrays f member]

/-- The names lead a worker to its slots. -/
theorem Named.finds (named : Named k body names₀ l.1 names) :
    Tree.Finds (layout k.record groups) (Folded.trees k.type [k.lanes] k.folded) [] lane k.lanes g l
      names where
  row := rfl
  slot := Term.number?_name named.lid
  arrays b member := by
    obtain ⟨f, inside, rfl⟩ := List.mem_map.mp member
    exact named.arrays f inside
  inside b member j below := by
    obtain ⟨f, inside, rfl⟩ := List.mem_map.mp member
    show Term.inside [j] [k.lanes] = true
    simp [Term.inside, below]

/-! ### Parts of the elements -/

/-- The workers of the first kernel. -/
def Parts.workers (k : Parts) : Nat := k.groups * k.lanes

/-- The packed elements of the vectors. -/
def Parts.count (k : Parts) (bindings : Bindings) : Nat := k.extent.size bindings / k.width

/-- Where a product is read for an element of the vectors. -/
def elementPoint (i : Nat) : Point := { index := i }

/-- A term of the product of a statement. -/
def element (r : Reading α) (f : Folded) (i : Nat) : α :=
  f.product.value r (elementPoint i) (elementPoint i)

/-- What the lanes of a packed element fold to. -/
def block (r : Reading α) (k : Parts) (f : Folded) (j : Nat) : α :=
  r.elements.fold k.type f.product.reduce
    ((List.range k.width).map fun lane => element r f (j * k.width + lane))

/-- What a worker of the first kernel folds out of its part. -/
def content (r : Reading α) (k : Parts) (f : Folded) (x : Nat) : α :=
  let first := Split.first k.record.strided k.workers (k.count r.bindings) x
  let stride := Split.stride k.record.strided k.workers
  r.elements.fold k.type f.product.reduce ((List.range (trips first stride
    (Split.stop k.record.strided k.workers (k.count r.bindings) x))).map fun t =>
      block r k f (first + t * stride))

/-- **What the workers of all groups fold makes up the elements.** -/
theorem fold_content (setting : Setting r op k body names₀) {f : Folded} (member : f ∈ k.folded) :
    r.elements.fold k.type f.product.reduce ((List.range k.groups).map fun g =>
        r.elements.fold k.type f.product.reduce ((List.range k.lanes).map fun l =>
          content r k f (g * k.lanes + l))) =
      r.elements.fold k.type f.product.reduce
        ((List.range (k.count r.bindings * k.width)).map (element r f)) := by
  have lawful := setting.lawful f member
  have workers : 0 < k.workers := Nat.mul_pos setting.valid.numGroups setting.valid.localSize
  calc
    _ = r.elements.fold k.type f.product.reduce ((List.range k.workers).map (content r k f)) :=
      Elements.fold_blocks lawful k.groups k.lanes (content r k f)
    _ = r.elements.fold k.type f.product.reduce
        ((List.range (k.count r.bindings)).map (block r k f)) :=
      Elements.fold_trips lawful (Split.stride_pos workers) (fun _ => Split.owner_lt workers)
        (fun _ worker _ => Split.visits_iff worker) (block r k f)
    _ = _ := Elements.fold_blocks lawful (k.count r.bindings) k.width (element r f)

theorem Accepted.width_pos {p : ReductionTuning} (accepted : Accepted op p k) : 0 < k.width :=
  NumericType.isVectorWidth_pos accepted.packed

/-- The bound of the walk is the number of packed elements. -/
theorem number?_bound (setting : Setting r op k body names₀)
    (settled : names₀.Same body.binders names) {w : Worker} :
    k.bound.number? w names = some (k.count r.bindings) :=
  packedBound_number? setting.accepted.bound setting.accepted.width_pos (setting.extent names settled)

/-! ### The first kernel -/

variable {m : Memory α}

/-- A worker of the first kernel until the first barrier. -/
abbrev firstStation (r : Reading α) (k : Parts) (g : (launch k.record k.groups).Group)
    (l : (launch k.record k.groups).Lane) : Station α :=
  ((deposits k).phase g (layout k.record k.groups).publishing).station r.elements g l

section Gather

variable {g : (launch k.record k.groups).Group} {l : (launch k.record k.groups).Lane}

/-- The term of a product has, in every lane, its value for an element of the packed one at hand. -/
theorem term_gives (setting : Setting r op k body names₀) (settled : names₀.Same body.binders names)
    (inputs : ∀ x n, x ≠ scratch → m (.global x n) = r.memory (.global x n)) {f : Folded}
    (member : f ∈ k.folded) {j : Nat} (counter : names "i" = some (.index j)) :
    (firstStation r k g l).Gives names m (k.term f) fun lane =>
      element r f (j * k.width + lane % k.width) := by
  have input {leaf : Expr} (inside : leaf ∈ f.product.leaves) {point : Point} {place : Place}
      (stored : leaf.place? r.bindings point = some place) :
      place ∈ (firstStation r k g l).reads ∧ m place = r.memory place := by
    obtain ⟨x, n, rfl⟩ := Expr.exists_global_of_place stored
    have other := setting.foreign f member leaf inside point x n stored
    exact ⟨Or.inr other, inputs x n other⟩
  have means : k.elementScope.Means (firstStation r k g l) names m k.width
      (fun lane => elementPoint (j * k.width + lane % k.width)) fun _ => r.elements.number 0 := by
    refine ⟨fun t named => ?_, nofun, nofun, nofun⟩
    cases named
    exact ⟨j, Term.number?_name counter, fun lane => rfl⟩
  have gives := Product.gives (setting.accepted.terms f member) means
    (setting.known names settled f member).1 fun leaf inside _ place stored => (input inside stored).1
  refine Eq.mp (congrArg _ (funext fun lane => ?_)) gives
  exact f.product.value_congr rfl rfl rfl fun leaf inside place stored => (input inside stored).2

/-- What a worker folds into one lane of a variable. -/
def laneContent (r : Reading α) (k : Parts) (f : Folded) (x lane : Nat) : α :=
  let first := Split.first k.record.strided k.workers (k.count r.bindings) x
  let stride := Split.stride k.record.strided k.workers
  r.elements.fold k.type f.product.reduce ((List.range (trips first stride
    (Split.stop k.record.strided k.workers (k.count r.bindings) x))).map fun t =>
      element r f ((first + t * stride) * k.width + lane))

/-- The lanes make up the worker's part. -/
theorem fold_laneContent {f : Folded} (lawful : r.elements.Lawful k.type f.product.reduce) (x : Nat) :
    r.elements.fold k.type f.product.reduce ((List.range k.width).map (laneContent r k f x)) =
      content r k f x :=
  Elements.fold_comm lawful k.width _ fun lane t => element r f ((Split.first k.record.strided
    k.workers (k.count r.bindings) x + t * Split.stride k.record.strided k.workers) * k.width + lane)

/-- The number of a worker among those of all groups. -/
def globalId (g : (launch k.record k.groups).Group) (l : (launch k.record k.groups).Lane) : Nat :=
  g.1 * k.lanes + l.1

/-- **A worker folds its part into the variables**, lane by lane. -/
theorem accumulate_leads (setting : Setting r op k body names₀)
    (named : Named k body names₀ l.1 names) (sub : ∀ x ∈ k.gather.binders, x ∈ body.binders)
    (inputs : ∀ x n, x ≠ scratch → m (.global x n) = r.memory (.global x n))
    (begun : ∀ f ∈ k.folded, names (accumulatorName k.width f) =
      some (.value fun _ => r.elements.neutral k.type f.product.reduce)) :
    (firstStation r k g l).Leads k.accumulate names m fun names' m' => m' = m ∧ ∀ f ∈ k.folded,
      names' (accumulatorName k.width f) =
        some (.value fun lane => laneContent r k f (globalId g l) (lane % k.width)) := by
  have workers : 0 < k.workers := Nat.mul_pos setting.valid.numGroups setting.valid.localSize
  have keep {bound : List String} (inside : ∀ x ∈ bound, x ∈ k.gather.binders) :
      ∀ x ∈ bound, x ∈ body.binders ∧ initial x ∈ [some 'a', some 's', some 'i'] :=
    fun x member => ⟨sub x (inside x member), initial_of_gather (inside x member)⟩
  have apart : ∀ y ∈ k.walk.declared, y ∉ "i" :: k.folded.map (accumulatorName k.width) :=
    fun y declared member => (List.mem_cons.mp member).elim (Walk.ne_of_mem_declared_split declared)
      (walk_fresh y (List.mem_append_left _ declared))
  refine Station.Leads.split (x := globalId g l) (n := k.count r.bindings)
    ("i" :: k.folded.map (accumulatorName k.width)) workers rfl rfl
    (fun names' same => number?_bound setting (named.after same (keep fun _ => mem_gather_of_walk)).settled) apart
    fun names' same counts => ?_
  have named' := named.after same (keep fun x member => mem_gather_of_walk (List.mem_append_left _ member))
  refine (Station.Leads.foldEach (fun f => f.product.reduce)
    (fun f _ => r.elements.neutral k.type f.product.reduce)
    (fun f t lane => element r f ((Split.first k.record.strided k.workers
      (k.count r.bindings) (globalId g l) + t * Split.stride k.record.strided k.workers) *
        k.width + lane % k.width))
    (nodup_accumulatorName k.width setting.accepted.numbered.nodup)
    (by rw [Walk.counter_split]; exact walk_fresh "i" (by simp))
    (by rw [Walk.counter_split]; exact counts)
    (fun f member => ?_) fun f member t _ names'' same' at' => ?_).weaken ?_
  · rw [same _ fun declared =>
        walk_fresh _ (List.mem_append_left _ declared) (List.mem_map_of_mem member),
      begun f member]
  · rw [Walk.counter_split] at same' at'
    exact term_gives setting (named'.after same' (keep fun x member =>
      mem_gather_of_walk (List.mem_append_right _ member))).settled inputs member at'
  · rintro names'' m'' - ⟨kept, folded⟩
    exact ⟨kept, folded⟩

/-- **The lanes of a variable are folded into a sum.** -/
theorem foldLanes_lead (setting : Setting r op k body names₀) {f : Folded} (member : f ∈ k.folded)
    (wide : 1 < k.width) {lanes : Nat → α} (bound : names (accumulatorName k.width f) =
      some (.value fun lane => lanes (lane % k.width))) :
    (firstStation r k g l).Leads (Code.ofSteps (foldLanes k.type k.width f)) names m
      fun names' m' => m' = m ∧ names' f.sumName = some (.value fun _ =>
        r.elements.fold k.type f.product.reduce ((List.range k.width).map lanes)) := by
  have apart : accumulatorName k.width f ≠ f.sumName := by
    refine ne_of_initial ?_
    rw [f.initial_sumName, accumulatorName, if_pos wide, initial_append (c := 'a') (by decide)]
    decide
  obtain ⟨w, width⟩ : ∃ w, k.width = w + 1 := ⟨k.width - 1, by omega⟩
  have first : (firstStation r k g l).Gives names m (.lane (.name (accumulatorName k.width f)) 0)
      fun _ => lanes 0 := by
    have gives := (Station.Gives.name (q := firstStation r k g l) (m := m) bound).lane 0
    rw [Nat.zero_mod] at gives
    exact gives
  rw [foldLanes, if_pos wide]
  refine .declareValue first ?_
  -- The lanes so far are folded into the first one.
  refine (Station.Leads.each (fun before names' m' =>
    m' = m ∧ names' (accumulatorName k.width f) = some (.value fun lane => lanes (lane % k.width)) ∧
    names' f.sumName = some (.value fun _ =>
      (before.map lanes).foldl (r.elements.reduce f.product.reduce) (lanes 0)))
    ⟨rfl, (Names.bind_of_ne apart).trans bound, Names.bind_self ..⟩ ?_).weaken ?_
  · rintro before lane rest all names' m₁ ⟨rfl, packed, sum⟩
    have inside : lane ∈ List.range' 1 (k.width - 1) := all ▸ by simp
    have below : lane < k.width := by
      have range := List.mem_range'_1.mp inside
      omega
    have gives := (Station.Gives.name (q := firstStation r k g l) (m := m₁) packed).lane lane
    rw [Nat.mod_eq_of_lt below] at gives
    refine .assign sum (.combine (.name sum) gives) (.done ⟨rfl, ?_, ?_⟩)
    · rw [Names.bind_of_ne apart, packed]
    · rw [Names.bind_self, List.map_append, List.foldl_append]
      rfl
  · rintro names' m' - ⟨kept, -, sum⟩
    refine ⟨kept, sum.trans ?_⟩
    rw [Elements.fold, List.range_eq_range', width, List.range'_succ, List.map_cons, List.foldl_cons,
      show r.elements.reduce f.product.reduce _ (lanes 0) = lanes 0 from
        (setting.lawful f member).neutral_left (lanes 0)]
    rfl

/-- **A worker of the first kernel folds its part into the sums.** -/
theorem gather_leads (setting : Setting r op k body names₀)
    (named : Named k body names₀ l.1 names) (sub : ∀ x ∈ k.gather.binders, x ∈ body.binders)
    (inputs : ∀ x n, x ≠ scratch → m (.global x n) = r.memory (.global x n)) :
    (firstStation r k g l).Leads k.gather names m fun names' m' => m' = m ∧ ∀ f ∈ k.folded,
      names' f.sumName = some (.value fun _ => content r k f (globalId g l)) := by
  have distinct := nodup_accumulatorName k.width setting.accepted.numbered.nodup
  have counted : ∀ x ∈ k.folded.map (accumulatorName k.width),
      x ∈ body.binders ∧ initial x ∈ [some 'a', some 's', some 'i'] := by
    intro x member
    have bound := mem_binders_gather.mpr (Or.inl member)
    exact ⟨sub x bound, initial_of_gather bound⟩
  refine .append ?_
  rw [funext (declareAccumulator_eq k.type k.width)]
  refine (Station.Leads.declareEach
    (x := fun f _ => r.elements.neutral k.type f.product.reduce) distinct
    fun f _ names' same => ?_).weaken ?_
  · have neutral : (firstStation r k g l).Gives names' m (f.product.reduce.neutral k.type)
        fun _ => r.elements.neutral k.type f.product.reduce :=
      .neutral (setting.constants names' (named.after same counted).settled)
    split
    · exact neutral.cast
    · exact neutral
  rintro names₁ _ same₁ ⟨rfl, begun⟩
  rw [Code.binders_declares] at same₁
  refine .append ((accumulate_leads setting (named.after same₁ counted) sub inputs begun).weaken ?_)
  rintro names₂ m₂ - ⟨rfl, accumulated⟩
  by_cases wide : 1 < k.width
  · have other {f f' : Folded} : accumulatorName k.width f ≠ f'.sumName := by
      refine ne_of_initial ?_
      rw [f'.initial_sumName, accumulatorName, if_pos wide, initial_append (c := 'a') (by decide)]
      decide
    refine (Station.Leads.eachMany (fun before names' m' => m' = m₂ ∧
      (∀ f ∈ k.folded, names' (accumulatorName k.width f) =
        some (.value fun lane => laneContent r k f (globalId g l) (lane % k.width))) ∧
      ∀ f ∈ before, names' f.sumName = some (.value fun _ => content r k f (globalId g l)))
      ⟨rfl, accumulated, fun f none => absurd none List.not_mem_nil⟩ ?_).weaken ?_
    · rintro before f rest all names' _ ⟨rfl, packed, sums⟩
      have member : f ∈ k.folded := all ▸ List.mem_append_right _ List.mem_cons_self
      refine (foldLanes_lead setting member wide (packed f member)).weaken ?_
      rintro names'' m'' same ⟨rfl, sum⟩
      rw [fold_laneContent (setting.lawful f member)] at sum
      refine ⟨rfl, fun f' member' => ?_, fun f' earlier => ?_⟩
      · rw [same _ fun bound => other (mem_binders_foldLanes bound), packed f' member']
      · rcases List.mem_append.mp earlier with earlier | last
        · have apart := key_ne_of_nodup (Folded.nodup_sumName setting.accepted.numbered.nodup) all
            earlier
          rw [same _ fun bound => apart (mem_binders_foldLanes bound), sums f' earlier]
        · rw [List.mem_singleton.mp last, sum]
    · rintro names' m' - ⟨kept, -, sums⟩
      exact ⟨kept, sums⟩
  · have one : k.width = 1 := Nat.le_antisymm (Nat.le_of_not_lt wide) setting.accepted.width_pos
    have none : k.folded.flatMap (foldLanes k.type k.width) = [] :=
      List.flatMap_eq_nil_iff.mpr fun f _ => if_neg wide
    rw [none]
    refine .done ⟨rfl, fun f member => ?_⟩
    have folded := accumulated f member
    have single := fold_laneContent (setting.lawful f member) (globalId g l)
    rw [one] at single
    rw [accumulatorName, if_neg wide] at folded
    rw [folded, ← single]
    refine congrArg (fun x => some (Binding.value x)) (funext fun lane => ?_)
    rw [one, Nat.mod_one]
    exact ((setting.lawful f member).neutral_left _).symm

end Gather

/-! ### The second kernel -/

end TunedKernel.Reduction
