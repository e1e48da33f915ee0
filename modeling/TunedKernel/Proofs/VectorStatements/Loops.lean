/-
**When the loop of element-wise vector statements comes to its end.**

A walk in chunks always does. Workers that stride over the packed elements may step past the end of the
range and start again from the beginning of the 32-bit numbers.

* `Paced` — the workers reach the end of the range.
* `body_counts`, `reaches_of_halts` — then the code of the kernel counts, and that is so if the first worker
  halts.
* `generate_terminates_iff` — the kernel of an operation terminates exactly if it is paced.
-/

import TunedKernel.Proofs.Generation.Halting
import TunedKernel.Proofs.VectorStatements.Accesses

namespace TunedKernel.VectorStatements

variable {op : Operation} {k : Parts} {kernel : Kernel} {bindings : Bindings}

/-- Workers that stride over the packed elements of a target reach the end of the range. -/
def Paced (p : VectorTuning) (op : Operation) (bindings : Bindings) : Prop :=
  p.strided = true → ∀ s ∈ op.statements, ∀ v, s.target = .vector v →
    Reaches (p.numGroups.toNat * p.localSize.toNat) (v.size.size bindings / p.simdWidth.toNat)

/-- All targets have the same size. -/
theorem Accepted.paced_iff (accepted : Accepted op k.record k) : Paced k.record op bindings ↔
    (k.record.strided = true →
      Reaches (k.record.numGroups.toNat * k.record.localSize.toNat) (k.count bindings)) := by
  refine forall_congr' fun strided => ⟨fun paced => ?_, fun reaches s member v isVector => ?_⟩
  · obtain ⟨s, member⟩ := List.exists_mem_of_ne_nil _ accepted.nonempty
    obtain ⟨v, isVector, size⟩ := accepted.targets s member
    rw [Parts.count, ← size]
    exact paced s (accepted.statements ▸ member) v isVector
  · obtain ⟨v', isVector', size⟩ := accepted.targets s (accepted.statements ▸ member)
    cases isVector.symm.trans isVector'
    rw [size]
    exact reaches

/-- The bound of the loop is made of sizes. -/
theorem Accepted.bound_stands {w : Worker} (accepted : Accepted op k.record k)
    (takes : kernel.Takes op bindings) :
    k.bound.Stands w (kernel.given bindings) kernel.sizes (k.count bindings) := by
  obtain ⟨s, member⟩ := List.exists_mem_of_ne_nil _ accepted.nonempty
  obtain ⟨v, isVector, size⟩ := accepted.targets s member
  refine packedBound_stands accepted.bound (NumericType.isVectorWidth_pos accepted.packed) ?_
  have asked : Expr.vector v ∈ op.nodes := by
    rw [← isVector]
    exact Operation.mem_nodes_target (accepted.statements ▸ member)
  rw [← size]
  exact takes.stands asked List.mem_cons_self

/-- **The code of the kernel counts** if the workers reach the end of the range. -/
theorem body_counts (accepted : Accepted op k.record k) (takes : kernel.Takes op bindings)
    (paced : Paced k.record op bindings) (g : (launch k.record).Group)
    (l : (launch k.record).Lane) :
    k.body.Counts ((launch k.record).worker g l) (kernel.given bindings) kernel.sizes [] := by
  have plain := accepted.binders_stores
  rw [Parts.body, ← Code.append_done (Walk.around _ _)]
  refine .split (d := k.record.numGroups.toNat * k.record.localSize.toNat) rfl
    (accepted.bound_stands takes) (accepted.paced_iff.mp paced) (fun x _ => plain ▸ List.not_mem_nil)
    (fun _ more _ => ?_) fun _ _ _ => trivial
  refine .last fun s member => Step.plain_of_none ?_
  exact Statement.binder?_storeStep (accepted.stores s member) (accepted.exists_vector member)

/-- The first worker, if it strides and halts, has reached the end of the range. -/
theorem reaches_of_halts (accepted : Accepted op k.record k) (takes : kernel.Takes op bindings)
    (code : kernel.body = k.body) {g : (launch k.record).Group} {l : (launch k.record).Lane}
    (first : g.1.val = 0 ∧ l.1.val = 0)
    (halts : (kernel.start (fun _ => ()) bindings).Halts ((launch k.record).worker g l)) :
    Paced k.record op bindings := by
  refine accepted.paced_iff.mpr fun strided => ?_
  have body : k.body = Code.loop (Walk.strided "i" 0 k.bound).loop
      (Code.ofSteps (k.statements.map k.store)) .done := by
    rw [Parts.body, strided]
    rfl
  rw [Kernel.start, code, body] at halts
  have start : Term.unsigned? ((launch k.record).worker g l) (kernel.given bindings)
      (.query .globalId 0) = some (.bits64, 0) := by
    show some (Word.bits64, g.1.val * k.record.localSize.toNat + l.1.val) = _
    rw [first.1, first.2, Nat.zero_mul]
  refine (halts.loop ⟨_, start⟩ rfl (Term.stands_query rfl) (accepted.bound_stands takes) (.refl _ _)
    takes.free ?_ ?_).1
  · intro x bound
    rw [code, body]
    exact (List.mem_cons.mp bound).elim (fun here => here ▸ List.mem_cons_self) fun inside =>
      List.mem_cons_of_mem _ (List.mem_append_left _ inside)
  · exact accepted.binders_stores ▸ List.not_mem_nil

/-- **The kernel of an operation terminates exactly if it is paced.** -/
theorem generate_terminates_iff {p : VectorTuning} {program : Program}
    (ok : generate p op = .ok program) (valid : p.Valid)
    (hygienic : ∀ kernel ∈ program.kernels, kernel.Hygienic)
    (sized : ∀ kernel ∈ program.kernels, kernel.Sized bindings)
    (small : ∀ x n, bindings x = some n → n.toNat < 2 ^ 32) :
    (∀ kernel ∈ program.kernels, kernel.Terminates bindings) ↔ Paced p op bindings := by
  obtain ⟨k, operands, kernel, accepted, collected, kernels, arguments, -, geometry, code⟩ :=
    generate_eq_ok ok
  obtain rfl := accepted.record
  have sole : kernel ∈ program.kernels := by rw [kernels]; exact List.mem_cons_self
  have takes : kernel.Takes op bindings := ⟨⟨_, operands, collected, fun name a found => arguments ▸ found⟩,
    hygienic kernel sole, sized kernel sole, small⟩
  have shaped : kernel.geometry.shape? bindings = some (launch k.record) := by
    rw [geometry]
    rfl
  rw [kernels, List.forall_mem_singleton]
  refine takes.terminates_iff shaped (fun paced g l => code ▸ body_counts accepted takes paced g l)
    fun halts => reaches_of_halts accepted takes code ⟨rfl, rfl⟩ (halts
      (⟨0, valid.numGroups⟩, ⟨0, Nat.one_pos⟩, ⟨0, Nat.one_pos⟩)
      (⟨0, valid.localSize⟩, ⟨0, Nat.one_pos⟩, ⟨0, Nat.one_pos⟩))

end TunedKernel.VectorStatements
