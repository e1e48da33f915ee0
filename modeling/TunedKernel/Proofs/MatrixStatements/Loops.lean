/-
**When the loops of element-wise matrix statements come to their ends.**

Walks in chunks always do. Workers that stride have to reach the last row, and if there is a row at all, the
last column as well.

* `Paced` — the workers reach the ends of both ranges.
* `body_counts`, `reaches_of_halts` — then the code of the kernel counts, and that is so if the first worker
  halts.
* `generate_terminates_iff` — the kernel of an operation terminates exactly if it is paced.
-/

import TunedKernel.Proofs.Generation.Halting
import TunedKernel.Proofs.MatrixStatements.Accesses

namespace TunedKernel.MatrixStatements

variable {op : Operation} {k : Parts} {kernel : Kernel} {bindings : Bindings}

/-- Workers that stride over the elements of a target reach the last row, and the last column if there is
a row. -/
def Paced (p : MatrixTuning) (op : Operation) (bindings : Bindings) : Prop :=
  p.strided = true → ∀ s ∈ op.statements, ∀ m, s.target = .matrix m →
    Reaches (p.numGroups0.toNat * p.localSize0.toNat) (m.logicalRows.size bindings) ∧
      (0 < m.logicalRows.size bindings →
        Reaches (p.numGroups1.toNat * p.localSize1.toNat) (m.logicalCols.size bindings))

/-- All targets have the same rows and columns. -/
theorem Accepted.paced_iff (accepted : Accepted op k.record k) : Paced k.record op bindings ↔
    (k.record.strided = true → Reaches k.rowWorkers (k.rows.size bindings) ∧
      (0 < k.rows.size bindings → Reaches k.colWorkers (k.cols.size bindings))) := by
  refine forall_congr' fun strided => ⟨fun paced => ?_, fun reaches s member m isMatrix => ?_⟩
  · obtain ⟨s, member⟩ := List.exists_mem_of_ne_nil _ accepted.nonempty
    obtain ⟨m, isMatrix, rows, cols⟩ := accepted.targets s member
    rw [← rows, ← cols]
    exact paced s (accepted.statements ▸ member) m isMatrix
  · obtain ⟨m', isMatrix', rows, cols⟩ := accepted.targets s (accepted.statements ▸ member)
    cases isMatrix.symm.trans isMatrix'
    rw [rows, cols]
    exact reaches

/-- The bounds of the loops are sizes. -/
theorem Accepted.stands {w : Worker} (accepted : Accepted op k.record k)
    (takes : kernel.Takes op bindings) :
    k.rows.term.Stands w (kernel.given bindings) kernel.sizes (k.rows.size bindings) ∧
      k.cols.term.Stands w (kernel.given bindings) kernel.sizes (k.cols.size bindings) := by
  obtain ⟨m, member, rows, cols⟩ := accepted.exists_matrix
  obtain ⟨s, inside, isMatrix⟩ := List.mem_map.mp member
  have node : .matrix m ∈ op.nodes := isMatrix ▸ Operation.mem_nodes_target inside
  rw [← rows, ← cols]
  exact ⟨takes.stands node m.logicalRows_mem_extents, takes.stands node m.logicalCols_mem_extents⟩

/-- **The code of the kernel counts** if the workers reach the ends of both ranges. -/
theorem body_counts (accepted : Accepted op k.record k) (takes : kernel.Takes op bindings)
    (paced : Paced k.record op bindings) (g : (launch k.record).Group) (l : (launch k.record).Lane) :
    k.body.Counts ((launch k.record).worker g l) (kernel.given bindings) kernel.sizes [] := by
  have plain := accepted.binders_stores
  have reaches := accepted.paced_iff.mp paced
  obtain ⟨rows, cols⟩ := accepted.stands (w := (launch k.record).worker g l) takes
  rw [Parts.body, ← Code.append_done (k.rowWalk.around _)]
  refine .split (d := k.rowWorkers) rfl rows (fun strided => (reaches strided).1) (rows_fresh plain)
    (fun enters more _ => ?_) fun _ _ _ => trivial
  rw [← Code.append_done (k.colWalk.around _)]
  refine .split (d := k.colWorkers) rfl cols (fun strided => (reaches strided).2 (enters strided))
    (fun x _ => plain ▸ List.not_mem_nil) (fun _ more _ => ?_) fun _ _ _ => trivial
  refine .last fun s member => Step.plain_of_none ?_
  obtain ⟨m, isMatrix, -⟩ := accepted.targets s member
  exact Statement.binder?_storeStep (accepted.stores s member) (Or.inr ⟨m, isMatrix⟩)

/-- The first worker, if it strides and halts, has reached the last row, and the last column if there is
a row. -/
theorem reaches_of_halts (accepted : Accepted op k.record k) (takes : kernel.Takes op bindings)
    (code : kernel.body = k.body) {g : (launch k.record).Group} {l : (launch k.record).Lane}
    (row : g.1.val = 0 ∧ l.1.val = 0) (col : g.2.1.val = 0 ∧ l.2.1.val = 0)
    (halts : (kernel.start (fun _ => ()) bindings).Halts ((launch k.record).worker g l)) :
    Paced k.record op bindings := by
  refine accepted.paced_iff.mpr fun strided => ?_
  have plain := accepted.binders_stores
  obtain ⟨rows, cols⟩ := accepted.stands (w := (launch k.record).worker g l) takes
  have inner : k.colWalk.around k.stores =
      Code.loop (Walk.strided "col" 1 k.cols.term).loop k.stores .done := by
    rw [Parts.colWalk, strided]
    rfl
  have body : k.body = Code.loop (Walk.strided "row" 0 k.rows.term).loop (k.colWalk.around k.stores)
      .done := by
    rw [Parts.body, Parts.rowWalk, strided]
    rfl
  have startRow : Term.unsigned? ((launch k.record).worker g l) (kernel.given bindings)
      (.query .globalId 0) = some (.bits64, 0) := by
    show some (Word.bits64, g.1.val * k.record.localSize0.toNat + l.1.val) = _
    rw [row.1, row.2, Nat.zero_mul]
  have startCol (names : Names Unit) : Term.unsigned? ((launch k.record).worker g l) names
      (.query .globalId 1) = some (.bits64, 0) := by
    show some (Word.bits64, g.2.1.val * k.record.localSize1.toNat + l.2.1.val) = _
    rw [col.1, col.2, Nat.zero_mul]
  have bound : ∀ x ∈ "row" :: (k.colWalk.around k.stores).binders, x ∈ kernel.body.binders := by
    intro x bound
    rw [code, body]
    exact (List.mem_cons.mp bound).elim (fun here => here ▸ List.mem_cons_self) fun inside =>
      List.mem_cons_of_mem _ (List.mem_append_left _ inside)
  rw [Kernel.start, code, body] at halts
  obtain ⟨reaches, enters, -⟩ := halts.loop ⟨_, startRow⟩ rfl (Term.stands_query rfl) rows (.refl _ _)
    takes.free bound (rows_fresh plain "row" (List.mem_append_right _ List.mem_cons_self))
  refine ⟨reaches, fun some => ?_⟩
  obtain ⟨later, halts⟩ := enters some
  rw [inner] at halts
  refine (halts.loop ⟨_, startCol _⟩ rfl (Term.stands_query rfl) cols
    ((Names.Same.refl _ _).bind (bound _ List.mem_cons_self) _) takes.free (fun x inside => ?_)
    (plain ▸ List.not_mem_nil)).1
  refine bound x (List.mem_cons_of_mem _ ?_)
  rw [inner]
  exact (List.mem_cons.mp inside).elim (fun here => here ▸ List.mem_cons_self) fun inside =>
    List.mem_cons_of_mem _ (List.mem_append_left _ inside)

/-- **The kernel of an operation terminates exactly if it is paced.** -/
theorem generate_terminates_iff {p : MatrixTuning} {program : Program}
    (ok : generate p op = .ok program) (valid : p.Valid)
    (hygienic : ∀ kernel ∈ program.kernels, kernel.Hygienic)
    (sized : ∀ kernel ∈ program.kernels, kernel.Sized bindings)
    (small : ∀ x n, bindings x = some n → n.toNat < 2 ^ 32) :
    (∀ kernel ∈ program.kernels, kernel.Terminates bindings) ↔ Paced p op bindings := by
  obtain ⟨k, operands, kernel, accepted, collected, kernels, arguments, -, geometry, code⟩ :=
    generate_eq_ok ok
  obtain rfl := accepted.record
  have sole : kernel ∈ program.kernels := by rw [kernels]; exact List.mem_cons_self
  have takes : kernel.Takes op bindings := ⟨⟨_, operands, collected, fun name a found => arguments ▸ found⟩,
    hygienic kernel sole, sized kernel sole, small⟩
  have shaped : kernel.geometry.shape? bindings = some (launch k.record) := by
    rw [geometry]
    rfl
  rw [kernels, List.forall_mem_singleton]
  refine takes.terminates_iff shaped (fun paced g l => code ▸ body_counts accepted takes paced g l)
    fun halts => reaches_of_halts accepted takes code ⟨rfl, rfl⟩ ⟨rfl, rfl⟩ (halts
      (⟨0, valid.numGroups0⟩, ⟨0, valid.numGroups1⟩, ⟨0, Nat.one_pos⟩)
      (⟨0, valid.localSize0⟩, ⟨0, valid.localSize1⟩, ⟨0, Nat.one_pos⟩))

end TunedKernel.MatrixStatements
