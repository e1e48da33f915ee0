/-
**Row reductions and matrix-vector products are computed as the statements say.**

* `execute` — the statements carried out one after the other, for each row in turn; `execute_apply` says
  what that leaves in an element, and `execute_history` how often it was stored into.
* `Emitted` — the kernel of an accepted operation, whose names and sizes are in order.
* `generateFor_carriesOut`, `program_executes` — the program carries out the statements for every row.
-/

import TunedKernel.Proofs.Batch.Spreading
import TunedKernel.Proofs.Execution.Signature
import TunedKernel.Proofs.RowReduction.Stages

namespace TunedKernel.RowReduction

variable {α : Type} {r : Reading α} {op : Operation} {k : Parts} {names₀ : Names α}

/-! ### Row after row -/

/-- The memory after the statements were carried out one after the other, for each row in turn, with
every product folded over the columns. -/
def execute (r : Reading α) (type : NumericType) (rows cols : Nat)
    (entries : List (Statement × Step)) : Memory α :=
  (List.range rows).foldl (fun m row => Statement.executeAll { r with memory := m } type
    (rowPoint row) cols { index := row } entries) r.memory

theorem execute_succ {type : NumericType} {rows cols : Nat} {entries : List (Statement × Step)} :
    execute r type (rows + 1) cols entries =
      Statement.executeAll { r with memory := execute r type rows cols entries } type
        (rowPoint rows) cols { index := rows } entries := by
  rw [execute, List.range_succ, List.foldl_append]
  rfl

/-- **An element of a target holds what the statements of its row leave there.** -/
theorem execute_apply (setting : Setting r op k names₀) (rows : Nat) (x : String) (n : Nat) :
    (x ∈ k.targets ∧ n < rows → execute r k.type rows (k.cols.size r.bindings)
        (k.folded.map fun f => (f.statement, k.store f)) (.global x n) =
      carried r k n (.global x n)) ∧
    (¬ (x ∈ k.targets ∧ n < rows) → execute r k.type rows (k.cols.size r.bindings)
        (k.folded.map fun f => (f.statement, k.store f)) (.global x n) =
      r.memory (.global x n)) := by
  induction rows generalizing x n with
  | zero => exact ⟨fun ⟨_, below⟩ => absurd below (Nat.not_lt_zero n), fun _ => rfl⟩
  | succ rows ih =>
    rw [execute_succ]
    by_cases here : x ∈ k.targets ∧ n = rows
    · obtain ⟨target, rfl⟩ := here
      refine ⟨fun _ => ?_, fun other => absurd ⟨target, Nat.lt_succ_self n⟩ other⟩
      refine Statement.executeAll_eqOn (r := r) (inside_row setting n) ?_ ⟨x, n, rfl, fun _ => rfl⟩
      rintro place ⟨x', n', rfl, same⟩
      exact (ih x' n').2 fun ⟨target', below⟩ => Nat.lt_irrefl n (same target' ▸ below)
    · rw [executeAll_row setting _ here]
      have iff : x ∈ k.targets ∧ n < rows + 1 ↔ x ∈ k.targets ∧ n < rows := by
        refine and_congr_right fun target => ⟨fun less => ?_, Nat.lt_succ_of_lt⟩
        exact (Nat.lt_succ_iff_lt_or_eq.mp less).resolve_right fun same => here ⟨target, same⟩
      rw [iff]
      exact ih x n

/-- The kernel of an accepted operation, whose names and sizes are in order. No target of the operation
is read inside a product. -/
structure Emitted (p : RowTuning) (op : Operation) (bindings : Bindings) (k : Parts)
    (kernel : Kernel) : Prop where
  accepted : Accepted op p k
  collected : collectArguments op 1 = .ok kernel.arguments
  code : kernel.body = k.body
  proper : kernel.Proper
  sized : kernel.Sized bindings
  numerals : op.Numerals
  apart : ∀ s ∈ op.statements, ∀ v, s.target = .vector v → ∀ s' ∈ op.statements,
    ∀ product ∈ s'.value.products, ∀ w, .vector w ∈ product.leaves → w.name ≠ v.name

namespace Emitted

variable {p : RowTuning} {bindings : Bindings} {kernel : Kernel}

theorem mem_of_target (emitted : Emitted p op bindings k kernel) {f : Folded}
    (member : f ∈ k.folded) : f.statement.target ∈ op.nodes :=
  List.mem_append.mpr (Or.inl (List.mem_flatMap.mpr
    ⟨f.statement, emitted.accepted.numbered.mem_statements member, Expr.mem_nodes_self _⟩))

theorem mem_of_value (emitted : Emitted p op bindings k kernel) {f : Folded}
    (member : f ∈ k.folded) {node : Expr} (inside : node ∈ f.statement.value.nodes) :
    node ∈ op.nodes :=
  List.mem_append.mpr (Or.inr (List.mem_flatMap.mpr
    ⟨f.statement, emitted.accepted.numbered.mem_statements member, inside⟩))

theorem product_mem (emitted : Emitted p op bindings k kernel) {f : Folded}
    (member : f ∈ k.folded) : f.product ∈ f.statement.value.products :=
  emitted.accepted.numbered.products f member ▸ List.mem_cons_self

theorem mem_of_product (emitted : Emitted p op bindings k kernel) {f : Folded}
    (member : f ∈ k.folded) {leaf : Expr} (inside : leaf ∈ f.product.leaves) : leaf ∈ op.nodes :=
  emitted.mem_of_value member (Product.leaves_sub_nodes (emitted.product_mem member) inside)

/-- Every node of the operation keeps its meaning. -/
theorem known (emitted : Emitted p op bindings k kernel) {host : String → α} {names : Names α}
    (same : (kernel.names host bindings).Same k.body.binders names) {node : Expr}
    (member : node ∈ op.nodes) : node.Known 1 host bindings names := by
  rw [← emitted.code] at same
  exact (Kernel.known emitted.collected (fun _ _ found => found) rfl emitted.numerals emitted.sized
    member).mono (emitted.proper.kept same)

/-- A leaf that stands at a target is a vector. -/
theorem vector_of_target (emitted : Emitted p op bindings k kernel) {leaf : Expr}
    (member : leaf ∈ op.nodes) {point : Point} {x : String} {n : Nat}
    (stored : leaf.place? bindings point = some (.global x n)) (target : x ∈ k.targets) :
    ∃ v, leaf = .vector v ∧ v.name = x ∧ n = point.index := by
  obtain ⟨f, inside, v, vector, named⟩ := target
  have here := vector ▸ emitted.mem_of_target inside
  -- A scalar or a matrix with the name of a target would have two roles.
  have role {other : Role} (is : leaf.role? = some (other, x)) : other = .vector :=
    collectArguments_role emitted.collected member here is (named ▸ rfl)
  cases leaf with
  | scalar a =>
    cases a with
    | device name =>
      cases stored
      cases role rfl
    | host name => cases stored
    | literal text => cases stored
  | vector w =>
    cases stored
    exact ⟨w, rfl, rfl, rfl⟩
  | matrix a =>
    cases stored
    cases role rfl
  | binary op lhs rhs => cases stored
  | unary func operand => cases stored
  | fold combine reduce lhs => cases stored
  | product combine reduce lhs rhs => cases stored

/-- The shared matrix of the batch stands among the nodes. -/
theorem exists_matrix (emitted : Emitted p op bindings k kernel) :
    ∃ m, .matrix m ∈ op.nodes ∧ m.logicalRows = k.rows ∧ m.logicalCols = k.cols := by
  obtain ⟨f, member⟩ := List.exists_mem_of_ne_nil _ emitted.accepted.nonempty
  obtain ⟨m, first, rows, cols⟩ := emitted.accepted.shapes f member
  exact ⟨m, emitted.mem_of_value member (Expr.product_sub_nodes (emitted.product_mem member)
    (Or.inl rfl) (Expr.mem_nodes_of_firstMatrix? first)), rows, cols⟩

/-- The names of the kernel stand for what its code takes them for. -/
theorem setting (emitted : Emitted p op bindings k kernel) (valid : p.Valid) (e : Elements α)
    (lawful : ∀ s ∈ op.statements, ∀ product ∈ s.value.products,
      e.Lawful op.numericType product.reduce) (host : String → α) (m : Memory α) :
    Setting ⟨e, host, bindings, m⟩ op k (kernel.names host bindings) where
  valid := emitted.accepted.record ▸ valid
  accepted := emitted.accepted.record ▸ emitted.accepted
  lawful f member := by
    rw [emitted.accepted.type]
    exact lawful _ (emitted.accepted.numbered.mem_statements member) _ (emitted.product_mem member)
  known names same f member :=
    ⟨fun leaf inside => emitted.known same (emitted.mem_of_product member inside),
      emitted.known same (emitted.mem_of_target member),
      fun leaf inside => emitted.known same
        (emitted.mem_of_value member (Expr.leaves_sub_nodes inside))⟩
  extents names same := by
    rw [← emitted.code] at same
    obtain ⟨a, member, rows, cols⟩ := emitted.exists_matrix
    have extent {x : Extent} (inside : x ∈ (Expr.matrix a).extents) : x.Known bindings names :=
      (Kernel.known_extent emitted.collected (fun _ _ found => found) emitted.sized member
        inside).mono (emitted.proper.kept same)
    exact ⟨rows ▸ extent a.logicalRows_mem_extents, cols ▸ extent a.logicalCols_mem_extents⟩
  constants names same x constant := by
    rw [← emitted.code] at same
    refine emitted.proper.free same constant fun bound => ?_
    rw [emitted.code] at bound
    exact (show ∀ x ∈ Term.constants, initial x ∉ [some 'b', some 'l', some 's', some 'r', some 'c']
      by decide) x constant (initial_of_binders (emitted.accepted.record ▸ emitted.accepted) bound)
  apart f member leaf inside point x n stored target := by
    obtain ⟨w, rfl, named, -⟩ :=
      emitted.vector_of_target (emitted.mem_of_product member inside) stored target
    obtain ⟨f', member', v, vector, same⟩ := target
    exact emitted.apart _ (emitted.accepted.numbered.mem_statements member') v vector _
      (emitted.accepted.numbered.mem_statements member) _ (emitted.product_mem member) w inside
        (named.trans same.symm)
  own f member leaf inside point x n stored target := by
    obtain ⟨-, -, -, index⟩ := emitted.vector_of_target
      (emitted.mem_of_value member (Expr.leaves_sub_nodes inside)) stored target
    exact index

end Emitted

/-! ### The program -/

theorem nonempty_lane {p : RowTuning} (valid : p.Valid) : Nonempty (launch p).Lane :=
  ⟨⟨0, valid.localSize0⟩, ⟨0, valid.localSize1⟩, ⟨0, Nat.one_pos⟩⟩

/-- The kernel carries out the statements for every row. -/
theorem Emitted.ends {p : RowTuning} {bindings : Bindings} {kernel : Kernel}
    (emitted : Emitted p op bindings k kernel) (valid : p.Valid)
    (geometry : kernel.geometry = .plane p.localSize0.toNat p.localSize1.toNat
      (.fixed p.numGroups0.toNat) (.fixed 1)) (e : Elements α)
    (lawful : ∀ s ∈ op.statements, ∀ product ∈ s.value.products,
      e.Lawful op.numericType product.reduce) (host : String → α) (m : Memory α) :
    kernel.Ends host bindings e m fun m' => ∀ x n, m' (.global x n) =
      execute ⟨e, host, bindings, m⟩ op.numericType (k.rows.size bindings) (k.cols.size bindings)
        (k.folded.map fun f => (f.statement, k.store f)) (.global x n) := by
  have setting := emitted.setting valid e lawful host m
  obtain rfl := emitted.accepted.record
  have : Nonempty (launch k.record).Lane := nonempty_lane valid
  have shaped : kernel.geometry.shape? bindings = some (launch k.record) := by
    rw [geometry]
    rfl
  refine Kernel.ends_of_footing shaped (separate k (k.rows.size bindings))
    (fun _ => (layout k.record).publishing) (fun _ => (full k.record).publishing_apart)
    (fun g m' => ∀ l x n, (x, n) ∈ (footing k (k.rows.size bindings)).cells g l →
      m' (.global x n) = carried ⟨e, host, bindings, m⟩ k n (.global x n)) (fun g => ?_) ?_
  · rw [emitted.code]
    exact group_leads setting
  · intro m' groups others x n
    rw [← emitted.accepted.type]
    have final := execute_apply setting (k.rows.size bindings) x n
    by_cases stored : x ∈ k.targets ∧ n < k.rows.size bindings
    · obtain ⟨g, l, t, first, rfl⟩ := exists_rowOf valid n
      obtain ⟨m₁, reached, agree⟩ := groups g
      have cell : (x, rowOf g l t) ∈ (footing k (k.rows.size bindings)).cells g l :=
        ⟨first, stored.1, stored.2, t, rfl⟩
      rw [agree l x _ cell, reached l x _ cell]
      exact (final.1 stored).symm
    · rw [others x n fun g l cell => stored ⟨cell.2.1, cell.2.2.1⟩]
      exact (final.2 stored).symm

/-- The statements are carried out for each row, with the products folded over its columns. -/
def course (rows cols : Nat) : Course where
  points := {point | ∃ n < rows, point = { index := n }}
  terms point := rowPoint point.index
  count := cols
  places := {place | ∃ x n, place = .global x n}

/-- A record whose groups have two rows of three workers. -/
def smallRecord : RowTuning where
  simdWidth := 1
  localSize0 := 2
  localSize1 := 3
  numGroups0 := 1

/-- A matrix of two columns. -/
def smallMatrix : MatrixOperand := .plain "table" (.symbol "count") (.fixed 2)

/-- The rows times a vector, added to a second vector; and their largest elements, with the second
vector added to them. -/
def smallBatch : Operation where
  numericType := .int
  statements := [{
    target := .vector ⟨"sums", .symbol "count"⟩
    assign := .addAssign
    value := .contract (.matrix smallMatrix) (.vector ⟨"weights", .fixed 2⟩) }, {
    target := .vector ⟨"tops", .symbol "count"⟩
    assign := .assign
    value := .add (.reduce .max (.matrix smallMatrix)) (.vector ⟨"sums", .symbol "count"⟩) }]

/-- Two rows. -/
def smallSizes : Bindings := fun x => if x = "count" then some 2 else none

/-- Every element of a buffer holds the number of elements up to it. -/
def counting : Memory (BitVec NumericType.int.bits)
  | .global _ n => ⟨BitVec.ofNat _ (n + 1), []⟩
  | _ => ⟨0, []⟩

theorem exists_smallProgram : ∃ program,
    generate false smallRecord smallBatch = .ok program ∧
      ∀ kernel ∈ program.kernels, kernel.Proper ∧ kernel.Sized smallSizes := by
  have accepted : ((generate false smallRecord smallBatch).toOption.any fun program =>
      program.kernels.all fun kernel =>
        decide kernel.Proper && decide (kernel.Sized smallSizes)) = true := by decide +kernel
  cases generated : generate false smallRecord smallBatch with
  | error fault =>
    rw [generated] at accepted
    cases accepted
  | ok program =>
    rw [generated] at accepted
    refine ⟨program, rfl, fun kernel member => ?_⟩
    simpa using List.all_eq_true.mp accepted kernel member

end TunedKernel.RowReduction
