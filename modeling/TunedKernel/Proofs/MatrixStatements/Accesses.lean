/-
**What element-wise matrix statements access.**

* `Reads`, `body_passes` — the leaves are read at the rows and columns of the targets.
* `Fits`, `generate_orderly` — the kernel of an accepted operation; what has to fit for every leaf to have
  the elements that are read.
-/

import TunedKernel.Proofs.Batch.Accesses
import TunedKernel.Proofs.MatrixStatements.Emission

namespace TunedKernel.MatrixStatements

variable {op : Operation} {k : Parts} {bindings : Bindings} {arrays : List (String × List Nat)}
  {names₀ : Names Unit}

/-- The points at which a leaf is read: the rows and columns of the targets. -/
def Reads (k : Parts) (bindings : Bindings) (leaf : Expr) (point : Point) : Prop :=
  (∃ s ∈ k.statements, leaf ∈ s.target.leaves ++ s.value.leaves) ∧
    point.row < k.rows.size bindings ∧ point.col < k.cols.size bindings

theorem Accepted.binders_stores (accepted : Accepted op k.record k) : k.stores.binders = [] :=
  Code.binders_ofSteps_nil fun step member => by
    obtain ⟨s, inside, rfl⟩ := List.mem_map.mp member
    obtain ⟨m, isMatrix, -⟩ := accepted.targets s inside
    exact Statement.binder?_storeStep (accepted.stores s inside) (Or.inr ⟨m, isMatrix⟩)

/-- **What a worker accesses.** -/
theorem body_passes (accepted : Accepted op k.record k)
    (known : ∀ names, names₀.Same k.body.binders names → ∀ node ∈ op.nodes, ∀ x ∈ node.extents,
      x.Known bindings names) (g : (launch k.record).Group) (l : (launch k.record).Lane) :
    (Watch.of bindings arrays (Reads k bindings) ((launch k.record).worker g l)).Passes k.body names₀
      fun _ => True := by
  have plain := accepted.binders_stores
  obtain ⟨m, target, rows, cols⟩ := accepted.exists_matrix
  obtain ⟨s, member, isMatrix⟩ := List.mem_map.mp target
  have node : .matrix m ∈ op.nodes := isMatrix ▸ Operation.mem_nodes_target member
  have row {names : Names Unit} (same : names₀.Same (k.rowWalk.declared ++
      "row" :: (k.colWalk.around k.stores).binders) names) : names₀.Same k.body.binders names :=
    same.mono fun x bound =>
      Walk.mem_binders_split.mpr ((List.mem_append.mp bound).imp id List.mem_cons.mp)
  have col {names names' : Names Unit} (settled : names₀.Same k.body.binders names)
      (same : names.Same (k.colWalk.declared ++ "col" :: k.stores.binders) names') :
      names₀.Same k.body.binders names' := settled.trans (same.mono fun x bound =>
    Walk.mem_binders_split.mpr (Or.inr (Or.inr (Walk.mem_binders_split.mpr
      ((List.mem_append.mp bound).imp id List.mem_cons.mp)))))
  have fresh := rows_fresh plain
  refine .split (x := globalRow g l) (n := k.rows.size bindings) rfl rfl (globalRow_lt g l)
    (fresh "row" (List.mem_append_right _ List.mem_cons_self))
    (fun y declared => fresh y (List.mem_append_left _ declared)) (fun names same => ?_)
    fun i below names₁ same₁ at₁ => ?_
  · exact Extent.number?_term
      (rows ▸ known names (row same) _ node _ m.logicalRows_mem_extents)
  have settled := row same₁
  refine .split (x := globalCol g l) (n := k.cols.size bindings) rfl rfl (globalCol_lt g l)
    (plain ▸ List.not_mem_nil) (fun y _ => plain ▸ List.not_mem_nil) (fun names same => ?_)
    fun j before names₂ same₂ at₂ => ?_
  · exact Extent.number?_term
      (cols ▸ known names (col settled same) _ node _ m.logicalCols_mem_extents)
  have counter : names₂ "row" = some (.index i) := by
    refine (same₂ "row" fun bound => ?_).trans at₁
    refine fresh "row" (List.mem_append_right _ List.mem_cons_self) (Walk.mem_binders_split.mpr ?_)
    exact (List.mem_append.mp bound).imp id List.mem_cons.mp
  refine Statement.stores_pass { row := i, col := j } ⟨fun t addressed => ?_,
    fun t addressed => ?_, fun t addressed => ?_⟩ rfl accepted.stores (fun s member => ?_)
    (fun s member leaf inside => known names₂ (col settled same₂) leaf ?_)
    fun s member leaf inside => ⟨⟨s, member, inside⟩, below, before⟩
  · cases addressed
  · cases addressed
    exact Term.number?_name counter
  · cases addressed
    exact Term.number?_name at₂
  · obtain ⟨m, isMatrix, -⟩ := accepted.targets s member
    exact Or.inr ⟨m, isMatrix⟩
  · exact Operation.mem_nodes_statement (accepted.statements ▸ member) inside

/-- Every matrix of a value has as many rows and columns as the targets. -/
def Fits (op : Operation) (bindings : Bindings) : Prop :=
  ∀ s ∈ op.statements, ∀ y, s.target = .matrix y → ∀ s' ∈ op.statements,
    ∀ x, .matrix x ∈ s'.value.leaves → y.logicalRows.size bindings ≤ x.logicalRows.size bindings ∧
      y.logicalCols.size bindings ≤ x.logicalCols.size bindings

/-- Where the operands fit, every leaf has the elements that are read. -/
theorem Accepted.has (accepted : Accepted op k.record k) (fits : Fits op bindings) {leaf : Expr}
    {point : Point} (reads : Reads k bindings leaf point) : leaf.Has 1 bindings point := by
  obtain ⟨⟨s, member, inside⟩, below, before⟩ := reads
  obtain ⟨y, isMatrix, rows, cols⟩ := accepted.targets s member
  obtain ⟨t, value, first, second, -⟩ := Statement.storeStep_eq_ok (accepted.stores s member)
  have addressed := (List.mem_append.mp inside).elim (Expr.addressed_of_term first leaf)
    (Expr.addressed_of_term second leaf)
  rcases addressed with ⟨x, rfl⟩ | ⟨v, rfl, index⟩ | ⟨m, rfl, -⟩
  · trivial
  · exact absurd rfl index
  · rw [← rows] at below
    rw [← cols] at before
    rcases List.mem_append.mp inside with target | read
    · rw [isMatrix] at target
      cases List.mem_singleton.mp target
      exact ⟨below, before⟩
    · have covers := fits s (accepted.statements ▸ member) y isMatrix s
        (accepted.statements ▸ member) m read
      exact ⟨below.trans_le covers.1, before.trans_le covers.2⟩

/-- **The kernel of an accepted operation is orderly**, and where its operands fit, every leaf has the
elements that are read. -/
theorem generate_orderly {p : MatrixTuning} {program : Program} (ok : generate p op = .ok program)
    {kernel : Kernel} (member : kernel ∈ program.kernels) (proper : kernel.Proper)
    (sized : kernel.Sized bindings) :
    ∃ reads, kernel.Orderly op bindings reads ∧ (Fits op bindings → ∀ leaf point,
      reads leaf point → leaf.Has 1 bindings point) := by
  obtain ⟨k, operands, sole, accepted, collected, kernels, arguments, scratch, geometry, code⟩ :=
    generate_eq_ok ok
  obtain rfl := accepted.record
  rw [kernels] at member
  obtain rfl := List.mem_singleton.mp member
  have serves : kernel.Serves op 1 operands bindings :=
    ⟨collected, fun name a found => arguments ▸ found, proper, sized⟩
  have arrays : kernel.arrays = [] := by
    rw [Kernel.arrays, scratch, if_pos rfl, List.append_nil, code, Parts.body, Parts.rowWalk,
      Parts.colWalk, Walk.arrays_around_split, Walk.arrays_around_split]
    refine Code.arrays_ofSteps_nil fun step member => ?_
    obtain ⟨s, inside, rfl⟩ := List.mem_map.mp member
    obtain ⟨target, value, -, -, is⟩ := Statement.storeStep_eq_ok (accepted.stores s inside)
    rw [is]
    rfl
  refine ⟨Reads k bindings, .of_serves serves scratch ?_ ?_ ?_, fun fits leaf point => accepted.has fits⟩
  · refine .of_passes (launch k.record) (by rw [geometry]; rfl) fun g l => ?_
    rw [code]
    exact body_passes accepted (fun names same node inside => serves.known (code ▸ same) inside) g l
  · rintro leaf point ⟨⟨s, inside, leaves⟩, -⟩
    exact Operation.mem_nodes_statement (accepted.statements ▸ inside) leaves
  · intro x dims dims' one _
    rw [arrays] at one
    cases one

end TunedKernel.MatrixStatements
