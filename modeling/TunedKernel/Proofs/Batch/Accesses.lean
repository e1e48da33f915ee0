/-
**What the code that batches share accesses.**

* `Watch.of` — a worker that keeps to arrays and to the elements of leaves; `Kernel.Accesses` — all workers
  of a kernel do.
* `Kernel.Orderly` — a kernel of an operation whose arrays are apart from the leaves. Its accesses to
  arrays are inside them (`Orderly.inside`), and the others meet leaves (`Orderly.meets`).
* `Product.accesses_term`, `Statement.accesses_storeStep` — products and statements access their leaves.
* `Tree.code_passes_slots` — the stages of a tree access slots below the extent only.
* `Tree.code_passes`, `Folded.publish_passes` — folding and handing over slots keeps inside the buffers.
-/

import TunedKernel.Proofs.Batch.Arrays
import TunedKernel.Proofs.Execution.Watch

namespace TunedKernel

/-! ### Workers that keep to arrays and leaves -/

/-- A worker that accesses arrays inside their dimensions, and elements of leaves. -/
def Watch.of (bindings : Bindings) (arrays : List (String × List Nat))
    (reads : Expr → Point → Prop) (w : Worker) : Watch where
  worker := w
  allowed names a := a.Inside arrays w names ∨
    ∃ leaf point, reads leaf point ∧ a.Meets bindings w names leaf point

/-- In every launch, the workers of a kernel access its arrays inside their dimensions, and besides
them elements of leaves, each at a point at which it is read. -/
def Kernel.Accesses (kernel : Kernel) (bindings : Bindings) (reads : Expr → Point → Prop) : Prop :=
  ∀ shape, kernel.geometry.shape? bindings = some shape → ∀ (g : shape.Group) (l : shape.Lane),
    (kernel.start (fun _ => ()) bindings).Keeps (shape.worker g l)
      (Watch.of bindings kernel.arrays reads (shape.worker g l)).allowed

/-- It is enough that the code passes, for every worker of the launch. -/
theorem Kernel.Accesses.of_passes {kernel : Kernel} {bindings : Bindings}
    {reads : Expr → Point → Prop} (shape : Shape) (shaped : kernel.geometry.shape? bindings = some shape)
    (passes : ∀ (g : shape.Group) (l : shape.Lane),
      (Watch.of bindings kernel.arrays reads (shape.worker g l)).Passes kernel.body
        (kernel.names (fun _ => ()) bindings) fun _ => True) : kernel.Accesses bindings reads := by
  intro shape' shaped' g l
  cases shaped.symm.trans shaped'
  exact (passes g l).keeps

/-- A leaf has an element at a point. Vectors are read several elements at a time. -/
def Expr.Has (width : Nat) (bindings : Bindings) (point : Point) : Expr → Prop
  | vector v => (point.index + 1) * width ≤ v.size.size bindings
  | matrix m => point.row < m.logicalRows.size bindings ∧ point.col < m.logicalCols.size bindings
  | _ => True

/-- A vector that is as long as the range of its packed elements has each of them. -/
theorem VectorOperand.has_of_le {v : VectorOperand} {width n i : Nat} {bindings : Bindings}
    {point : Point} (at' : point.index = i) (below : i < n / width)
    (long : n ≤ v.size.size bindings) : (Expr.vector v).Has width bindings point := by
  subst at'
  show (point.index + 1) * width ≤ _
  exact (Nat.mul_le_mul_right _ below).trans ((Nat.div_mul_le_self n width).trans long)

/-- A kernel of an operation whose workers access its arrays inside their dimensions, and besides them
leaves of the operation, which are stored elsewhere. -/
structure Kernel.Orderly (kernel : Kernel) (op : Operation) (bindings : Bindings)
    (reads : Expr → Point → Prop) : Prop where
  accesses : kernel.Accesses bindings reads
  nodes : ∀ leaf point, reads leaf point → leaf ∈ op.nodes
  foreign : ∀ leaf ∈ op.nodes, ∀ point x n, leaf.place? bindings point = some (.global x n) →
    ∀ dims, (x, dims) ∉ kernel.arrays
  unique : ∀ x dims dims', (x, dims) ∈ kernel.arrays → (x, dims') ∈ kernel.arrays → dims' = dims

namespace Kernel.Orderly

variable {kernel : Kernel} {op : Operation} {bindings : Bindings} {reads : Expr → Point → Prop}
  {shape : Shape} {g : shape.Group} {l : shape.Lane} {t : Thread Unit} {a : Access}

/-- A kernel without scratch buffer, whose arrays are those that its code declares. -/
theorem of_serves {width : Nat} {operands : List Argument}
    (serves : kernel.Serves op width operands bindings) (scratch : kernel.scratchElements = 0)
    (accesses : kernel.Accesses bindings reads)
    (nodes : ∀ leaf point, reads leaf point → leaf ∈ op.nodes)
    (unique : ∀ x dims dims', (x, dims) ∈ kernel.arrays → (x, dims') ∈ kernel.arrays → dims' = dims) :
    kernel.Orderly op bindings reads := by
  refine ⟨accesses, nodes, fun leaf inside point x n stored dims declared => ?_, unique⟩
  rw [Kernel.arrays, scratch, if_pos rfl, List.append_nil] at declared
  exact serves.foreign inside stored dims declared

/-- **An access to an array of the kernel has its subscripts inside the dimensions.** -/
theorem inside (orderly : kernel.Orderly op bindings reads)
    (shaped : kernel.geometry.shape? bindings = some shape)
    (comes : (kernel.start (fun _ => ()) bindings).Comes (shape.worker g l) t)
    (member : a ∈ t.accesses) {dims : List Nat} (declared : (a.array, dims) ∈ kernel.arrays) :
    ∃ ns, a.subscripts.mapM (fun s => s.number? (shape.worker g l) t.names) = some ns ∧
      Term.inside ns dims = true := by
  rcases (orderly.accesses shape shaped g l t comes).2 a member with
    ⟨dims', ns, declared', numbers, inside⟩ | ⟨leaf, point, read, x, n, s, stored, rfl, -⟩
  · obtain rfl := orderly.unique a.array dims dims' declared declared'
    exact ⟨ns, numbers, inside⟩
  · exact absurd declared (orderly.foreign leaf (orderly.nodes leaf point read) point x n stored dims)

/-- **Every other access is to a leaf of the operation**, at a point at which it is read. -/
theorem meets (orderly : kernel.Orderly op bindings reads)
    (shaped : kernel.geometry.shape? bindings = some shape)
    (comes : (kernel.start (fun _ => ()) bindings).Comes (shape.worker g l) t)
    (member : a ∈ t.accesses) (other : ∀ dims, (a.array, dims) ∉ kernel.arrays) :
    ∃ leaf ∈ op.nodes, ∃ point, reads leaf point ∧
      a.Meets bindings (shape.worker g l) t.names leaf point := by
  rcases (orderly.accesses shape shaped g l t comes).2 a member with
    ⟨dims, _, declared, -⟩ | ⟨leaf, point, read, meets⟩
  · exact absurd declared (other dims)
  · exact ⟨leaf, orderly.nodes leaf point read, point, read, meets⟩

end Kernel.Orderly

variable {bindings : Bindings} {arrays : List (String × List Nat)} {reads : Expr → Point → Prop}
  {w : Worker} {names : Names Unit}

/-- An access inside an array is allowed. -/
theorem Watch.of_inside (memory : LocalMemory) (subscripts : List Term) (ns : List Nat)
    (declared : (memory.name, memory.dims) ∈ arrays) (nonempty : subscripts ≠ [])
    (numbers : subscripts.mapM (fun s => s.number? w names) = some ns)
    (inside : Term.inside ns memory.dims = true) :
    ∀ a ∈ (memory.access subscripts).accesses, (Watch.of bindings arrays reads w).allowed names a :=
  fun a member => Or.inl (memory.inside_access declared nonempty numbers inside a member)

/-! ### Statements -/

/-- Code that binds nothing leaves the names as they are. -/
theorem Names.Same.eq {α : Type} {bound : List String} {names names' : Names α}
    (same : names.Same bound names') (none : bound = []) : names' = names :=
  funext fun x => same x (none ▸ List.not_mem_nil)

namespace Product

/-- The term of a product accesses its leaves at the point of the scope. -/
theorem accesses_term {scope : Scope} (point : Point) (at' : scope.At w names point)
    (bare : scope.product = none) {p : Product} {t : Term} (ok : p.term scope = .ok t)
    (known : ∀ leaf ∈ p.leaves, ∀ extent ∈ leaf.extents, extent.Known bindings names)
    (allowed : ∀ leaf ∈ p.leaves, reads leaf point) :
    ∀ a ∈ t.accesses, (Watch.of bindings arrays reads w).allowed names a := by
  have operand {x : Expr} (sub : ∀ leaf ∈ x.leaves, leaf ∈ p.leaves) {t : Term}
      (ok : x.term scope = .ok t) (a : Access) (member : a ∈ t.accesses) :
      (Watch.of bindings arrays reads w).allowed names a := by
    rcases Expr.accesses_term at' ok (fun leaf inside => known leaf (sub leaf inside)) member with
      ⟨leaf, inside, meets⟩ | ⟨_, none, -⟩
    · exact Or.inr ⟨leaf, point, allowed leaf (sub leaf inside), meets⟩
    · cases bare.symm.trans none
  obtain ⟨left, first, ok⟩ := bind_eq_ok_iff.mp ok
  have lhs := operand (fun leaf inside => List.mem_append_left _ inside) first
  cases right : p.rhs with
  | none =>
    rw [right] at ok
    cases ok
    exact lhs
  | some rhs =>
    rw [right] at ok
    obtain ⟨t', second, ok⟩ := bind_eq_ok_iff.mp ok
    cases ok
    intro a member
    rw [Term.accesses_apply] at member
    refine (List.mem_append.mp member).elim (lhs a) (operand (fun leaf inside => ?_) second a)
    refine List.mem_append_right _ ?_
    rw [right]
    exact inside

end Product

/-- **The step of a statement accesses its leaves** at the point of the scope, and what its product
stands for. -/
theorem Statement.accesses_storeStep {scope : Scope} (point : Point) (at' : scope.At w names point)
    {s : Statement} {store : Step} (ok : s.storeStep scope = .ok store)
    (known : ∀ leaf ∈ s.target.leaves ++ s.value.leaves, ∀ extent ∈ leaf.extents,
      extent.Known bindings names)
    (allowed : ∀ leaf ∈ s.target.leaves ++ s.value.leaves, reads leaf point)
    (product : ∀ p, scope.product = some p →
      ∀ a ∈ p.accesses, (Watch.of bindings arrays reads w).allowed names a) :
    ∀ a ∈ store.accesses, (Watch.of bindings arrays reads w).allowed names a := by
  obtain ⟨target, value, first, second, rfl⟩ := storeStep_eq_ok ok
  have side {x : Expr} (sub : ∀ leaf ∈ x.leaves, leaf ∈ s.target.leaves ++ s.value.leaves) {t : Term}
      (ok : x.term scope = .ok t) (a : Access) (member : a ∈ t.accesses) :
      (Watch.of bindings arrays reads w).allowed names a := by
    rcases Expr.accesses_term at' ok (fun leaf inside => known leaf (sub leaf inside)) member with
      ⟨leaf, inside, meets⟩ | ⟨p, is, inside⟩
    · exact Or.inr ⟨leaf, point, allowed leaf (sub leaf inside), meets⟩
    · exact product p is a inside
  intro a member
  exact (List.mem_append.mp member).elim
    (side (fun leaf inside => List.mem_append_left _ inside) first a)
    (side (fun leaf inside => List.mem_append_right _ inside) second a)

namespace Statement

/-- A step that stores into an element binds nothing. -/
theorem binder?_storeStep {scope : Scope} {s : Statement} {store : Step}
    (ok : s.storeStep scope = .ok store)
    (target : (∃ v, s.target = .vector v) ∨ ∃ m, s.target = .matrix m) : store.binder? = none := by
  obtain ⟨t, value, stored, -, rfl⟩ := storeStep_eq_ok ok
  rcases target with ⟨v, is⟩ | ⟨m, is⟩
  · rw [is, Expr.term, VectorOperand.term] at stored
    split at stored <;> cases stored
    rfl
  · rw [is, Expr.term, MatrixOperand.term] at stored
    split at stored <;> cases stored
    rfl

/-- **Statements without products access their leaves** at the point of the scope. -/
theorem stores_pass {scope : Scope} (point : Point) {statements : List Statement}
    {store : Statement → Step} (at' : scope.At w names point) (bare : scope.product = none)
    (stores : ∀ s ∈ statements, s.storeStep scope = .ok (store s))
    (targets : ∀ s ∈ statements, (∃ v, s.target = .vector v) ∨ ∃ m, s.target = .matrix m)
    (known : ∀ s ∈ statements, ∀ leaf ∈ s.target.leaves ++ s.value.leaves, ∀ extent ∈ leaf.extents,
      extent.Known bindings names)
    (allowed : ∀ s ∈ statements, ∀ leaf ∈ s.target.leaves ++ s.value.leaves, reads leaf point) :
    (Watch.of bindings arrays reads w).Passes (Code.ofSteps (statements.map store)) names
      fun _ => True := by
  refine .each fun step member names' same => ?_
  obtain rfl : names' = names := same.eq (Code.binders_ofSteps_nil fun step member => by
    obtain ⟨s, inside, rfl⟩ := List.mem_map.mp member
    exact binder?_storeStep (stores s inside) (targets s inside))
  obtain ⟨s, inside, rfl⟩ := List.mem_map.mp member
  refine ⟨?_, accesses_storeStep point at' (stores s inside) (known s inside) (allowed s inside)
    fun p product => ?_⟩
  · obtain ⟨target, value, -, -, is⟩ := storeStep_eq_ok (stores s inside)
    rw [is]
    rfl
  · cases bare.symm.trans product

end Statement

/-! ### Slots -/

namespace Tree

variable {bs : Buffers} {before : List Term} {lane : Term} {extent stride j : Nat} {row : List Nat}

section Slots

variable {q : Watch}

/-- A stage passes where a worker may access the slots below the extent. -/
theorem stage_passes (slot : lane.number? q.worker names = some j)
    (slots : ∀ b ∈ bs, ∀ t i, t.number? q.worker names = some i → i < extent →
      ∀ a ∈ (b.1.access (before ++ [t])).accesses, q.allowed names a)
    (whole : powerAbove extent = extent → stride + stride ≤ extent) :
    q.Passes (stage bs before lane extent stride) names fun _ => True := by
  refine .step nofun rfl (.guarded (holds?_active slot whole) (fun takes => ?_)
    fun _ _ => .done trivial)
  obtain ⟨-, further⟩ := of_decide_eq_true takes
  have below : j < extent := Nat.lt_of_le_of_lt (Nat.le_add_right _ _) further
  refine .each fun s member names' same => ?_
  have kept : names' = names := same.eq ?_
  · subst kept
    obtain ⟨b, here, rfl⟩ := List.mem_map.mp member
    refine ⟨rfl, fun a member => ?_⟩
    have parts : (fold before lane stride b).accesses =
        (b.1.access (before ++ [lane])).accesses ++ ((b.1.access (before ++ [lane])).accesses ++
          (b.1.access (before ++ [lane + .number stride])).accesses) := by
      rw [fold, Step.accesses, Term.accesses_combine]
    rw [parts] at member
    rcases List.mem_append.mp member with own | member
    · exact slots b here lane j slot below a own
    · rcases List.mem_append.mp member with own | other
      · exact slots b here lane j slot below a own
      · exact slots b here _ _ (Term.number?_add slot rfl) further a other
  · refine Code.binders_ofSteps_nil fun s member => ?_
    obtain ⟨b, -, rfl⟩ := List.mem_map.mp member
    exact Step.binder?_store (access_ne_name _ _ _)

/-- **The stages access slots below the extent only.** -/
theorem code_passes_slots {ε : Type} {code : Code}
    (ok : Tree.code (ε := ε) bs before lane extent = .ok code)
    (slot : lane.number? q.worker names = some j)
    (slots : ∀ b ∈ bs, ∀ t i, t.number? q.worker names = some i → i < extent →
      ∀ a ∈ (b.1.access (before ++ [t])).accesses, q.allowed names a) :
    q.Passes code names fun _ => True := by
  have silent := binders_code ok
  obtain ⟨found, strided, ok⟩ := bind_eq_ok_iff.mp ok
  cases ok
  obtain ⟨n, power, rfl⟩ := strides_eq_ok strided
  refine .join fun piece member names' same => ?_
  obtain ⟨stride, strides, rfl⟩ := List.mem_map.mp member
  obtain ⟨i, below, rfl⟩ := List.mem_map.mp (List.mem_reverse.mp strides)
  obtain rfl : names' = names := same.eq silent
  refine stage_passes slot slots fun whole => ?_
  rw [← Nat.two_mul, ← Nat.pow_succ', ← whole, power]
  exact Nat.pow_le_pow_right (Nat.succ_pos 1) (List.mem_range.mp below)

end Slots

/-- **The stages keep inside the buffers**, whatever the extent is. -/
theorem code_passes {ε : Type} {code : Code}
    (ok : Tree.code (ε := ε) bs before lane extent = .ok code)
    (declared : ∀ b ∈ bs, (b.1.name, b.1.dims) ∈ arrays)
    (known : before.mapM (fun s => s.number? w names) = some row)
    (slot : lane.number? w names = some j)
    (inside : ∀ b ∈ bs, ∀ i < extent, Term.inside (row ++ [i]) b.1.dims = true) :
    (Watch.of bindings arrays reads w).Passes code names fun _ => True :=
  code_passes_slots ok slot fun b here t i number below =>
    Watch.of_inside b.1 _ _ (declared b here)
      (List.append_ne_nil_of_right_ne_nil before (List.cons_ne_nil t []))
      (Term.mapM_append_singleton known number) (inside b here i below)

end Tree

namespace Folded

variable {folded : List Folded} {type : NumericType} {dims row : List Nat} {lane : Term} {j : Nat}

/-- The variables of a batch start from constants. -/
theorem declareSums_pass : (Watch.of bindings arrays reads w).Passes
    (Code.ofSteps (folded.map fun f => f.declareSum type)) names fun _ => True := by
  refine .each fun s member _ _ => ?_
  obtain ⟨f, -, rfl⟩ := List.mem_map.mp member
  refine ⟨rfl, fun a inside => ?_⟩
  rw [declareSum, Step.accesses, Term.accesses_neutral] at inside
  cases inside

/-- Taking values into the variables of a batch accesses what the values access. -/
theorem accumulates_pass {into : Folded → String} {value : Folded → Term}
    (here : ∀ f ∈ folded, ∀ names', names.Same (folded.map into) names' →
      ∀ a ∈ (value f).accesses, (Watch.of bindings arrays reads w).allowed names' a) :
    (Watch.of bindings arrays reads w).Passes (Code.ofSteps (folded.map fun f =>
      f.accumulate (.name (into f)) (value f))) names fun _ => True := by
  refine .each fun s member names' same => ?_
  obtain ⟨f, inside, rfl⟩ := List.mem_map.mp member
  refine ⟨rfl, fun a reached => here f inside names' (Code.binders_assigns ▸ same) a ?_⟩
  rw [accumulate, Step.accesses, Term.accesses_combine] at reached
  exact reached

/-- A worker hands its values over into its own slots. -/
theorem publish_passes (before : List Term)
    (declared : ∀ f ∈ folded, ((f.buffer type dims).name, dims) ∈ arrays)
    (known : before.mapM (fun s => s.number? w names) = some row)
    (slot : lane.number? w names = some j) (inside : Term.inside (row ++ [j]) dims = true) :
    (Watch.of bindings arrays reads w).Passes
      (Code.ofSteps (folded.map fun f => f.publish (f.buffer type dims) (before ++ [lane]))) names
      fun _ => True := by
  refine .each fun s member names' same => ?_
  have kept : names' = names := same.eq binders_publish
  subst kept
  obtain ⟨f, here, rfl⟩ := List.mem_map.mp member
  refine ⟨rfl, fun a member => ?_⟩
  have sole : (f.publish (f.buffer type dims) (before ++ [lane])).accesses =
      ((f.buffer type dims).access (before ++ [lane])).accesses ++ [] := rfl
  rw [sole, List.append_nil] at member
  exact Watch.of_inside (f.buffer type dims) _ _ (declared f here)
    (List.append_ne_nil_of_right_ne_nil before (List.cons_ne_nil lane []))
    (Term.mapM_append_singleton known slot) inside a member

end Folded

end TunedKernel
