/-
**When the parts of a program are there.**

* `Measured.exists_ok_iff` — a computation that refuses nothing has a value exactly if its numbers fit;
  `Measured.exists_refusal` — one without a value ends in a refusal if they do.
* `Folded.exists_localBytes_iff`, `Tree.exists_code_iff`, `exists_packedBound_iff`, `exists_pushBuffer_iff` —
  the local memory, the trees, the bounds and the buffers of a program.
* `exists_checks_iff` — statements that are checked one after the other pass exactly if each has a product
  of the shape that they share.
-/

import TunedKernel.Proofs.Batch.Collecting
import TunedKernel.Proofs.Batch.Terms
import TunedKernel.Proofs.Generation.Overflows
import TunedKernel.Proofs.Generation.Refusals

namespace TunedKernel

/-! ### Computations and their bounds -/

namespace Measured

variable {ε α : Type} {result : Except (Fault ε) α} {fits : Prop}

/-- A computation that refuses nothing has a value exactly if its numbers fit. -/
theorem exists_ok_iff (measured : Measured result fits)
    (never : Fails (Fault.Within fun _ => False) result) : (∃ a, result = .ok a) ↔ fits := by
  cases result with
  | ok a => exact iff_of_true ⟨a, rfl⟩ (measured.of_ok a rfl)
  | error fault =>
    cases fault with
    | overflow operation => exact iff_of_false nofun (measured.of_overflow operation rfl)
    | refused reason => exact (never _ rfl).elim

/-- A computation without a value ends in a refusal if its numbers fit. -/
theorem exists_refusal (measured : Measured result fits) (holds : fits)
    (none : ¬∃ a, result = .ok a) : ∃ reason, result = .error (.refused reason) := by
  cases result with
  | ok a => exact absurd ⟨a, rfl⟩ none
  | error fault =>
    cases fault with
    | overflow operation => exact absurd holds (measured.of_overflow operation rfl)
    | refused reason => exact ⟨reason, rfl⟩

end Measured

/-- A generator answers with a program exactly if the numbers of the program fit and the operation is one of
those it takes. It refuses every other one whose numbers fit. -/
structure Decides (answer : Generated Program) (fits takes : Prop) : Prop where
  accepts : (∃ program, answer = .ok program) ↔ fits ∧ takes
  refuses : fits → ¬takes → ∃ refusal, answer = .error (.refused refusal)

theorem Decides.congr {answer : Generated Program} {fits takes takes' : Prop}
    (decides : Decides answer fits takes) (same : takes ↔ takes') : Decides answer fits takes' :=
  propext same ▸ decides

/-- A generator decides on what it answers with programs of. -/
theorem Measured.decides {answer : Generated Program} {fits takes : Prop} (measured : Measured answer fits)
    (sound : ∀ program, answer = .ok program → takes)
    (complete : fits → takes → ∃ program, answer = .ok program) : Decides answer fits takes where
  accepts := ⟨fun ⟨program, ok⟩ => ⟨measured.of_ok program ok, sound program ok⟩,
    fun ⟨holds, takes⟩ => complete holds takes⟩
  refuses holds other := measured.exists_refusal holds fun ⟨program, ok⟩ => other (sound program ok)

theorem Word.exists_mul_iff {ε : Type} {w : Word} {a b : Nat} :
    (∃ n, w.mul (ε := ε) a b = .ok n) ↔ a * b < w.limit := by
  simp only [mul_eq_ok_iff, exists_and_left, exists_eq', and_true]

theorem Folded.exists_localBytes_iff {ε : Type} {type : NumericType} {dims : List Nat}
    (narrow : Narrow dims) {folded : List Folded} :
    (∃ n, localBytes (ε := ε) type dims folded = .ok n) ↔
      folded.length * (dims.prod * type.size) < Word.bits64.limit :=
  (measured_localBytes type narrow folded).exists_ok_iff (fails_localBytes type dims folded)

theorem Tree.exists_code_iff {ε : Type} {buffers : Tree.Buffers} {before : List Term} {lane : Term}
    {extent : Nat} :
    (∃ code, Tree.code (ε := ε) buffers before lane extent = .ok code) ↔ extent ≤ 2 ^ 31 :=
  (measured_code buffers before lane extent).exists_ok_iff (fails_code buffers before lane extent)

/-- Elements can be read several at a time exactly if a constant extent is a multiple of that. -/
theorem exists_packedBound_iff {kind : Operation.Kind} {extent : Extent} {width : Nat} :
    (∃ bound, packedBound kind extent width = .ok bound) ↔
      ∀ n, extent = .fixed n → width ∣ n.toNat := by
  unfold packedBound
  by_cases scalar : width = 1
  · rw [if_pos scalar]
    exact iff_of_true ⟨_, rfl⟩ fun n _ => scalar ▸ Nat.one_dvd _
  · rw [if_neg scalar]
    cases extent with
    | symbol name => exact iff_of_true ⟨_, rfl⟩ nofun
    | fixed n =>
      by_cases multiple : n.toNat % width = 0
      · refine iff_of_true ⟨_, if_pos multiple⟩ ?_
        rintro _ ⟨⟩
        exact Nat.dvd_of_mod_eq_zero multiple
      · refine iff_of_false ?_ fun all => multiple (Nat.mod_eq_zero_of_dvd (all n rfl))
        rintro ⟨bound, ok⟩
        dsimp only at ok
        rw [if_neg multiple] at ok
        cases ok

/-- A buffer can be pushed behind the arguments exactly if nothing has its name. -/
theorem exists_pushBuffer_iff {op : Operation} {width : Nat} {operands : List Argument}
    (ok : collectArguments op width = .ok operands) {name element : String} :
    (∃ arguments, pushBuffer operands name element = .ok arguments) ↔ ∀ role, ¬op.Uses role name := by
  constructor
  · rintro ⟨arguments, pushed⟩ role uses
    have operand : (⟨name, _⟩ : Argument) ∈ operands := (mem_collectArguments ok).mpr ⟨role, uses, rfl⟩
    exact (Reduction.pushBuffer_eq_ok pushed).2 _ operand rfl
  · intro free
    refine ⟨_, if_neg fun taken => ?_⟩
    obtain ⟨a, member, same⟩ := List.any_eq_true.mp taken
    obtain ⟨role, uses, -⟩ := (mem_collectArguments ok).mp member
    exact free role (beq_iff_eq.mp same ▸ uses)

/-! ### Batches -/

/-- The values of a batch have one product node each, in all, if no product stands in another one. -/
theorem Numbered.forall_single {statements : List Statement} {folded : List Folded}
    (numbered : Numbered statements folded) :
    (∀ s ∈ statements, s.value.nodes.countP Expr.isProduct = 1) ↔ ∀ f ∈ folded, f.product.inner = [] := by
  rw [numbered.forall_statements]
  refine forall₂_congr fun f member => ?_
  rw [Expr.countP_isProduct_eq_one_iff, numbered.products f member]
  simp

/-- **Statements that are checked one after the other** pass exactly if each has a product of the shape that
they share. -/
theorem exists_checks_iff {S : Type} (accepts : Statement → Product → S → Prop)
    {check : List Folded × Option S → Statement × Nat → Generated (List Folded × Option S)}
    (each : ∀ state entry next, check state entry = .ok next ↔ ∃ product shape,
      entry.1.value.products = [product] ∧ accepts entry.1 product shape ∧
      next = (state.1 ++ [⟨entry.1, product, entry.2⟩], some shape) ∧
      ∀ first, state.2 = some first → first = shape)
    {statements : List Statement} {shape : S} :
    (∃ folded, statements.zipIdx.foldlM check ([], none) = .ok (folded, some shape)) ↔
      statements ≠ [] ∧
        ∀ s ∈ statements, ∃ product, s.value.products = [product] ∧ accepts s product shape := by
  have settles (state : List Folded × Option S) (entry : Statement × Nat) (shape : S) :
      (∃ next, check state entry = .ok next ∧ next.2 = some shape) ↔
        (∃ product, entry.1.value.products = [product] ∧ accepts entry.1 product shape) ∧
          ∀ first, state.2 = some first → first = shape := by
    simp only [each]
    constructor
    · rintro ⟨_, ⟨product, x, single, accepted, rfl, same⟩, ⟨⟩⟩
      exact ⟨⟨product, single, accepted⟩, same⟩
    · rintro ⟨⟨product, single, accepted⟩, same⟩
      exact ⟨_, ⟨product, shape, single, accepted, rfl, same⟩, rfl⟩
  have leaves (state : List Folded × Option S) (entry : Statement × Nat) (next : List Folded × Option S)
      (ok : check state entry = .ok next) : ∃ x, next.2 = some x := by
    obtain ⟨_, x, -, -, rfl, -⟩ := (each state entry next).mp ok
    exact ⟨x, rfl⟩
  have checks : (∃ final, statements.zipIdx.foldlM check ([], none) = .ok final ∧ final.2 = some shape) ↔ _ :=
    exists_settled_iff (fun s x => ∃ product, s.value.products = [product] ∧ accepts s product x) settles
      leaves rfl
  rw [← checks]
  exact ⟨fun ⟨folded, ok⟩ => ⟨_, ok, rfl⟩, fun ⟨(folded, _), ok, left⟩ => ⟨folded, left ▸ ok⟩⟩

end TunedKernel
