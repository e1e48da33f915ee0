/-
**What the generator of reductions emits.**

* `ReductionTuning.Valid` — what a record that passes its check promises.
* `Reduction.Parts` — what the two kernels are put together from; `Parts.partialBody` and
  `Parts.finalBody` are their code.
* `Reduction.Accepted` — what an accepted batch looks like.
* `Reduction.generate_eq_ok` — the program of an accepted batch.
-/

import TunedKernel.Generator.Reduction
import TunedKernel.Proofs.Batch.Acceptance

namespace TunedKernel

/-- What a record of reductions that passes its check promises. -/
structure ReductionTuning.Valid (p : ReductionTuning) : Prop where
  localSize : 0 < p.localSize.toNat
  numGroups : 0 < p.numGroups.toNat

theorem ReductionTuning.valid {p : ReductionTuning} {u : Unit} (ok : p.check = .ok u) :
    p.Valid := by
  obtain ⟨_, -, positive⟩ := bind_eq_ok_iff.mp ok
  have each := checkPositive_eq_ok positive
  exact ⟨each ("local_size_0", _) (by simp), each ("num_groups", _) (by simp)⟩

namespace Reduction

/-! ### Code -/

/-- What the kernels are put together from. -/
structure Parts where
  record : ReductionTuning
  type : NumericType
  folded : List Folded
  /-- The extent that the products are folded over. -/
  extent : Extent
  /-- The bound of the loop over the packed elements. -/
  bound : Term
  /-- The term that is folded into the variable of a statement. -/
  term : Folded → Term
  tree : Code
  /-- The step that carries out a statement. -/
  store : Folded → Step

namespace Parts

variable (k : Parts)

/-- The lanes of a packed element. -/
def width : Nat := k.record.simdWidth.toNat

/-- The workers of a group. -/
def lanes : Nat := k.record.localSize.toNat

/-- The groups of the first kernel. -/
def groups : Nat := k.record.numGroups.toNat

/-- The buffer of a statement. -/
def buffer (f : Folded) : LocalMemory := f.buffer k.type [k.lanes]

/-- The scope of a term of a product. -/
def elementScope : Scope := (Scope.bare k.type).withIndex (.name "i")

/-- The scope of a statement, whose product stands in the first slot of its buffer. -/
def storeScope (f : Folded) : Scope :=
  (Scope.bare k.type).withProduct (Tree.result (k.buffer f) [])

/-- The walk over the packed elements. -/
def walk : Walk := Walk.split k.record.strided "i" 0 k.bound

/-- The worker's part of the elements, folded into the variables lane by lane. -/
def accumulate : Code := k.walk.around (Code.ofSteps (k.folded.map fun f =>
  f.accumulate (.name (accumulatorName k.width f)) (k.term f)))

/-- The worker's part of the elements, folded into the sums. -/
def gather : Code := Code.ofSteps (k.folded.map (declareAccumulator k.type k.width)) ++
  (k.accumulate ++ Code.ofSteps (k.folded.flatMap (foldLanes k.type k.width)))

/-- The worker's part of the partial values, folded into the sums. -/
def regather : Code := Code.ofSteps (k.folded.map fun f => f.declareSum k.type) ++
  (Walk.byGroup "i" lane 0 k.groups).around (Code.ofSteps (k.folded.map fun f =>
    f.accumulate f.sum (partialPlace k.groups f (.name "i"))))

/-- The sums, handed to the group. -/
def publish : Code := Code.ofSteps (k.folded.map fun f => f.publish (k.buffer f) [lane])

/-- Something that the first worker of a group alone does. -/
def alone (steps : List Step) : Code :=
  Code.ofGuard (.binary .equal lane (.number 0)) (Code.ofSteps steps)

/-- The step that hands the value of a group to the second kernel. -/
def deposit (f : Folded) : Step :=
  .store (partialPlace k.groups f (.query .groupId 0)) .assign (Tree.result (k.buffer f) [])

/-- The code of both kernels, around what a worker folds and what the first one does in the end. -/
def around (fold : Code) (last : Folded → Step) : Code :=
  prologue k.type [k.lanes] k.folded ++ (fold ++ (k.publish ++ (k.tree ++
    alone (k.folded.map last))))

/-- The code of the first kernel. -/
def partialBody : Code := k.around k.gather k.deposit

/-- The code of the second kernel. -/
def finalBody : Code := k.around k.regather k.store

end Parts

/-! ### Acceptance -/

/-- What an accepted batch looks like: every statement stores into a scalar of the device a value with
one product, whose first vector has the extent of the batch. -/
structure Accepted (op : Operation) (p : ReductionTuning) (k : Parts) : Prop where
  record : k.record = p
  type : k.type = op.numericType
  numbered : Numbered op.statements k.folded
  nonempty : k.folded ≠ []
  targets : ∀ f ∈ k.folded, ∃ name, f.statement.target = .scalar (.device name)
  extents : ∀ f ∈ k.folded, ∃ v, f.product.vector? = some v ∧ v.size = k.extent
  packed : NumericType.isVectorWidth k.width
  bound : packedBound kind k.extent k.width = .ok k.bound
  terms : ∀ f ∈ k.folded, f.product.term k.elementScope = .ok (k.term f)
  tree : Tree.code (ε := Refusal) (Folded.trees k.type [k.lanes] k.folded) [] lane k.lanes =
    .ok k.tree
  stores : ∀ f ∈ k.folded, f.statement.storeStep (k.storeScope f) = .ok (k.store f)

theorem productExtent_eq_ok_iff {position : Nat} {p : Product} {extent : Extent} :
    productExtent position p = .ok extent ↔
      (p.matrix? = none ∧ p.rightMatrix? = none) ∧ ∃ v, p.vector? = some v ∧ v.size = extent := by
  unfold productExtent
  cases p.matrix? with
  | some m => exact iff_of_false nofun nofun
  | none =>
    cases p.rightMatrix? with
    | some m => exact iff_of_false nofun nofun
    | none =>
      cases p.vector? with
      | none => exact iff_of_false nofun nofun
      | some v => simp

/-- **When a statement passes**: it stores into a scalar of the device, and has a product of the extent that
was found before, if there was one. -/
theorem checkStatement_eq_ok_iff {state next : List Folded × Option Extent} {entry : Statement × Nat} :
    checkStatement state entry = .ok next ↔ ∃ product extent, entry.1.value.products = [product] ∧
      ((∃ name, entry.1.target = .scalar (.device name)) ∧
        (product.matrix? = none ∧ product.rightMatrix? = none) ∧
          ∃ v, product.vector? = some v ∧ v.size = extent) ∧
      next = (state.1 ++ [⟨entry.1, product, entry.2⟩], some extent) ∧
      ∀ first, state.2 = some first → first = extent := by
  unfold checkStatement
  split
  · next name isScalar =>
    simp only [isScalar, bind_eq_ok_iff, theProduct_eq_ok_iff, productExtent_eq_ok_iff, agree_eq_ok_iff]
    constructor
    · rintro ⟨product, single, extent, spans, shape, ⟨rfl, same⟩, ok⟩
      cases ok
      exact ⟨product, extent, single, ⟨⟨name, rfl⟩, spans⟩, rfl, same⟩
    · rintro ⟨product, extent, single, ⟨-, spans⟩, rfl, same⟩
      exact ⟨product, single, extent, spans, some extent, ⟨rfl, same⟩, rfl⟩
  · next other =>
    refine iff_of_false nofun ?_
    rintro ⟨_, _, -, ⟨⟨name, isScalar⟩, -⟩, -⟩
    exact other name isScalar

theorem batch_eq_ok {op : Operation} {folded : List Folded} {extent : Extent}
    (ok : batch op = .ok (folded, extent)) :
    Numbered op.statements folded ∧ folded ≠ [] ∧
      ∀ f ∈ folded, (∃ name, f.statement.target = .scalar (.device name)) ∧
        ∃ v, f.product.vector? = some v ∧ v.size = extent := by
  obtain ⟨_, nonempty, ok⟩ := bind_eq_ok_iff.mp ok
  obtain ⟨⟨found, shared⟩, collected, ok⟩ := bind_eq_ok_iff.mp ok
  obtain ⟨numbered, all⟩ := collects (fun s product extent =>
    (∃ name, s.target = .scalar (.device name)) ∧ (product.matrix? = none ∧ product.rightMatrix? = none) ∧
      ∃ v, product.vector? = some v ∧ v.size = extent) (fun _ _ _ => checkStatement_eq_ok_iff.mp) collected
  cases shared with
  | none => cases ok
  | some extent =>
    cases ok
    refine ⟨numbered, ?_, fun f member => ?_⟩
    · rintro rfl
      have none : op.statements = [] := numbered.statements_eq.symm
      have some := require_eq_ok_iff.mp nonempty
      rw [none] at some
      cases some
    · obtain ⟨_, same, target, -, spans⟩ := all f member
      cases same
      exact ⟨target, spans⟩

/-- The buffer that is pushed behind the arguments has a name that none of them has. -/
theorem pushBuffer_eq_ok {operands arguments : List Argument} {name element : String}
    (ok : pushBuffer operands name element = .ok arguments) :
    arguments = operands ++ [⟨name, .buffer element⟩] ∧ ∀ a ∈ operands, a.name ≠ name := by
  unfold pushBuffer at ok
  split at ok
  · cases ok
  · next free =>
    cases ok
    refine ⟨rfl, fun a member same => free ?_⟩
    exact List.any_eq_true.mpr ⟨a, member, beq_iff_eq.mpr same⟩

/-- **The program of an accepted batch**: two kernels over the sizes of the record, the second one in a
single group. -/
theorem generate_eq_ok {p : ReductionTuning} {op : Operation} {program : Program}
    (ok : generate p op = .ok program) :
    ∃ k operands first second, Accepted op p k ∧
      collectArguments op p.simdWidth.toNat = .ok operands ∧
      (∀ a ∈ operands, a.name ≠ scratch) ∧ program.kernels = [first, second] ∧
      (∀ kernel ∈ [first, second],
        kernel.arguments = operands ++ [⟨scratch, .buffer op.numericType.text⟩] ∧
        kernel.scratchElements = k.folded.length * k.groups) ∧
      first.geometry = .line p.localSize.toNat (.fixed p.numGroups.toNat) ∧
      second.geometry = .line p.localSize.toNat (.fixed 1) ∧
      first.body = k.partialBody ∧ second.body = k.finalBody := by
  obtain ⟨⟨folded, extent⟩, batched, ok⟩ := bind_eq_ok_iff.mp ok
  obtain ⟨_, packed, ok⟩ := bind_eq_ok_iff.mp ok
  obtain ⟨operands, collected, ok⟩ := bind_eq_ok_iff.mp ok
  obtain ⟨arguments, pushed, ok⟩ := bind_eq_ok_iff.mp ok
  obtain ⟨bytes, -, ok⟩ := bind_eq_ok_iff.mp ok
  obtain ⟨elements, counted, ok⟩ := bind_eq_ok_iff.mp ok
  obtain ⟨first, emitted, ok⟩ := bind_eq_ok_iff.mp ok
  obtain ⟨second, emitted', ok⟩ := bind_eq_ok_iff.mp ok
  cases ok
  obtain rfl := (Word.mul_eq_ok_iff.mp counted).2
  obtain ⟨rfl, fresh⟩ := pushBuffer_eq_ok (accepted_eq_ok_iff.mp pushed)
  obtain ⟨numbered, nonempty, each⟩ := batch_eq_ok batched
  obtain ⟨bound, bounded, emitted⟩ := bind_eq_ok_iff.mp emitted
  obtain ⟨terms, gathered, emitted⟩ := bind_eq_ok_iff.mp emitted
  obtain ⟨tree, staged, emitted⟩ := bind_eq_ok_iff.mp emitted
  cases emitted
  obtain ⟨tree', staged', emitted'⟩ := bind_eq_ok_iff.mp emitted'
  cases staged.symm.trans staged'
  obtain ⟨stores, stored, emitted'⟩ := bind_eq_ok_iff.mp emitted'
  cases emitted'
  have : Nonempty Term := ⟨.number 0⟩
  have : Nonempty Step := ⟨.barrier⟩
  obtain ⟨term, rfl, terms⟩ := exists_map
    (g := fun f t => Folded.accumulate f (.name (accumulatorName p.simdWidth.toNat f)) t)
    (P := fun f t => f.product.term ((Scope.bare op.numericType).withIndex (.name "i")) = .ok t)
    (fun f y found => by
      obtain ⟨t, first, found⟩ := bind_eq_ok_iff.mp found
      cases found
      exact ⟨t, accepted_eq_ok_iff.mp first, rfl⟩) gathered
  obtain ⟨store, rfl, stores⟩ := exists_map (g := fun _ s => s) (fun f y found => ⟨y, found, rfl⟩)
    stored
  refine ⟨⟨p, op.numericType, folded, extent, bound, term, tree, store⟩, operands, _, _,
    ⟨rfl, rfl, numbered, nonempty, fun f member => (each f member).1, fun f member =>
      (each f member).2, require_eq_ok_iff.mp packed, bounded, terms, staged, stores⟩,
    accepted_eq_ok_iff.mp collected, fresh, rfl, fun kernel member => ?_, rfl, rfl, ?_, ?_⟩
  · simp only [List.mem_cons, List.not_mem_nil, or_false] at member
    rcases member with rfl | rfl
    · exact ⟨rfl, rfl⟩
    · exact ⟨rfl, rfl⟩
  · show _ ++ (_ ++ (_ ++ (_ ++ (_ ++ (_ ++ (_ ++ Code.done)))))) =
      _ ++ ((_ ++ (_ ++ _)) ++ (_ ++ (_ ++ _)))
    rw [Code.append_done, Code.append_assoc, Code.append_assoc]
    rfl
  · show _ ++ (_ ++ (_ ++ (_ ++ (_ ++ (_ ++ Code.done))))) = _ ++ ((_ ++ _) ++ (_ ++ (_ ++ _)))
    rw [Code.append_done, Code.append_assoc]
    rfl

end Reduction

end TunedKernel
