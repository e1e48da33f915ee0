/-
**When the numbers of a program fit their words.**

A record may be consistent and still ask for sizes that no 32-bit or 64-bit word holds: its check
bounds the workers of a group and nothing else.

* `Measured result fits` — a computation has a value only where `fits` holds and overflows only where
  it fails; `Measured.bind` composes such bounds along the steps of a computation.
* `Word.sum_eq_ok`, `LocalMemory.bytes_eq_ok`, `Folded.localBytes_eq_ok` — sizes that fit their word are the
  exact ones.
* `Word.measured_sum`, `LocalMemory.measured_bytes`, `Folded.measured_localBytes`,
  `Tree.measured_code` — the bounds of the sizes that generators form.
* `ReductionTuning.Fits`, `RowTuning.Fits`, `ProductTuning.Fits` — the numbers that generators form of a
  record fit their words, for so many statements over elements of so many bytes; `ReductionTuning.fits_iff` —
  of few statements, they do if the strides of the trees do.
* `Reduction.measured_generate`, `RowReduction.measured_generateFor`, `MatrixProduct.measured_generate` —
  that is the bound of the program of an operation. Vector and matrix statements always fit.
* `VectorStatements.exists_kernels`, `MatrixStatements.exists_kernels`, `Reduction.exists_kernels`,
  `RowReduction.exists_kernels` — the kernels of a program, up to their code.
-/

import Mathlib.Algebra.GroupWithZero.Nat
import TunedKernel.Generator.MatrixProduct
import TunedKernel.Generator.MatrixStatements
import TunedKernel.Generator.VectorStatements
import TunedKernel.Proofs.Execution.Tree
import TunedKernel.Proofs.Reduction.Emission
import TunedKernel.Proofs.RowReduction.Emission

namespace TunedKernel

/-! ### Computations and their bounds -/

/-- A computation has a value only where `fits` holds, and overflows only where it fails. A refusal
may come before any number is formed, and says nothing about them. -/
structure Measured {ε α : Type} (result : Except (Fault ε) α) (fits : Prop) : Prop where
  of_ok : ∀ a, result = .ok a → fits
  of_overflow : ∀ operation, result = .error (.overflow operation) → ¬fits

namespace Measured

variable {ε α β γ : Type} {result : Except (Fault ε) α} {P Q : Prop}

theorem congr (measured : Measured result P) (same : P ↔ Q) : Measured result Q :=
  propext same ▸ measured

/-- A value that is there fits by itself. -/
theorem ok (a : α) : Measured (.ok a : Except (Fault ε) α) True :=
  ⟨fun _ _ => trivial, nofun⟩

theorem refuse (reason : ε) : Measured (refuse reason : Except (Fault ε) α) True :=
  ⟨nofun, nofun⟩

theorem require (condition : Bool) (reason : ε) : Measured (require condition reason) True := by
  cases condition with
  | false => exact refuse reason
  | true => exact ok ()

theorem accepted (answer : Except Refusal α) : Measured (accepted answer) True := by
  cases answer with
  | error reason => exact refuse reason
  | ok a => exact ok a

/-- **The bounds of two steps are those of the computation**, the second one taken at the value that
the first one leaves. -/
theorem bind {next : α → Except (Fault ε) β} (first : Measured result P)
    (second : ∀ a, result = .ok a → Measured (next a) Q) : Measured (result >>= next) (P ∧ Q) := by
  cases result with
  | error fault =>
    refine ⟨nofun, fun operation overflow both => ?_⟩
    cases overflow
    exact first.of_overflow operation rfl both.1
  | ok a =>
    have fits := first.of_ok a rfl
    exact ⟨fun b found => ⟨fits, (second a rfl).of_ok b found⟩,
      fun operation overflow both => (second a rfl).of_overflow operation overflow both.2⟩

/-- A first step that always fits leaves the bound of the second one. -/
theorem after {next : α → Except (Fault ε) β} (first : Measured result True)
    (second : ∀ a, result = .ok a → Measured (next a) Q) : Measured (result >>= next) Q :=
  (first.bind second).congr (iff_of_eq (true_and Q))

/-- A second step that always fits leaves the bound of the first one. -/
theorem before {next : α → Except (Fault ε) β} (first : Measured result P)
    (second : ∀ a, result = .ok a → Measured (next a) True) : Measured (result >>= next) P :=
  (first.bind second).congr (iff_of_eq (and_true P))

/-- Steps over the items of a list fit when each of them does. -/
theorem mapM {f : β → Except (Fault ε) γ} {fits : β → Prop} (each : ∀ b, Measured (f b) (fits b))
    (xs : List β) : Measured (xs.mapM f) (∀ b ∈ xs, fits b) := by
  induction xs with
  | nil => exact (ok []).congr (by simp)
  | cons b xs ih =>
    rw [List.mapM_cons]
    exact ((each b).bind fun y _ => ih.before fun ys _ => ok (y :: ys)).congr (by simp)

/-- Steps that always fit, one after the other. -/
theorem foldlM {f : α → β → Except (Fault ε) α} (each : ∀ a b, Measured (f a b) True)
    (xs : List β) (start : α) : Measured (xs.foldlM f start) True := by
  induction xs generalizing start with
  | nil => exact ok start
  | cons b xs ih =>
    rw [List.foldlM_cons]
    exact (each start b).after fun next _ => ih next

end Measured

/-! ### Words -/

theorem Word.sum_eq_ok {ε : Type} {w : Word} {terms : List Nat} {n : Nat}
    (ok : w.sum (ε := ε) terms = .ok n) : n = terms.sum := by
  have go (terms : List Nat) (start : Nat) (ok : terms.foldlM (w.add (ε := ε)) start = .ok n) :
      n = start + terms.sum := by
    induction terms generalizing start with
    | nil =>
      cases ok
      rfl
    | cons term terms ih =>
      obtain ⟨next, added, ok⟩ := bind_eq_ok_iff.mp ok
      obtain rfl := (Word.add_eq_ok_iff.mp added).2
      rw [ih _ ok, List.sum_cons, Nat.add_assoc]
  rw [go terms 0 ok, Nat.zero_add]

theorem Word.product_eq_ok {ε : Type} {w : Word} {factors : List Nat} {n : Nat}
    (ok : w.product (ε := ε) factors = .ok n) : n = factors.prod := by
  have go (factors : List Nat) (start : Nat)
      (ok : factors.foldlM (w.mul (ε := ε)) start = .ok n) :
      n = start * factors.prod := by
    induction factors generalizing start with
    | nil =>
      cases ok
      exact (Nat.mul_one _).symm
    | cons factor factors ih =>
      obtain ⟨next, times, ok⟩ := bind_eq_ok_iff.mp ok
      obtain rfl := (Word.mul_eq_ok_iff.mp times).2
      rw [ih _ ok, List.prod_cons, Nat.mul_assoc]
  rw [go factors 1 ok, Nat.one_mul]

namespace Word

variable {ε : Type} (w : Word)

theorem measured_mul (a b : Nat) : Measured (w.mul (ε := ε) a b) (a * b < w.limit) where
  of_ok _ found := (mul_eq_ok_iff.mp found).1
  of_overflow operation overflow fits := by
    rw [mul, if_pos fits] at overflow
    cases overflow

theorem measured_add (a b : Nat) : Measured (w.add (ε := ε) a b) (a + b < w.limit) where
  of_ok _ found := (add_eq_ok_iff.mp found).1
  of_overflow operation overflow fits := by
    rw [add, if_pos fits] at overflow
    cases overflow

/-- Weights added up from the left fit exactly when their total does: the totals on the way are no
greater. -/
theorem measured_total {β : Type} {xs : List β} {add : Nat → β → Except (Fault ε) Nat}
    {weight : β → Nat} (each : ∀ b ∈ xs, ∀ total,
      Measured (add total b) (total + weight b < w.limit) ∧
        ∀ next, add total b = .ok next → next = total + weight b)
    {start : Nat} (small : start < w.limit) :
    Measured (xs.foldlM add start) (start + (xs.map weight).sum < w.limit) := by
  induction xs generalizing start with
  | nil => exact (Measured.ok start).congr (by simpa using small)
  | cons b xs ih =>
    rw [List.foldlM_cons]
    obtain ⟨measured, exact⟩ := each b List.mem_cons_self start
    refine (measured.bind (Q := start + weight b + (xs.map weight).sum < w.limit)
      fun next found => ?_).congr ?_
    · have small := measured.of_ok next found
      obtain rfl := exact next found
      exact ih (fun b' member => each b' (List.mem_cons_of_mem _ member)) small
    · rw [List.map_cons, List.sum_cons]
      omega

theorem measured_sum (terms : List Nat) : Measured (w.sum (ε := ε) terms) (terms.sum < w.limit) := by
  have positive : 0 < w.limit := by cases w <;> decide
  have total : Measured (terms.foldlM (w.add (ε := ε)) 0) (0 + (terms.map id).sum < w.limit) :=
    w.measured_total (fun term _ total =>
      ⟨w.measured_add total term, fun _ found => (add_eq_ok_iff.mp found).2.symm⟩) positive
  rwa [Nat.zero_add, List.map_id] at total

end Word

/-! ### Local memory and trees -/

theorem NumericType.size_le (type : NumericType) : type.size ≤ 8 := by
  cases type <;> decide

theorem LocalMemory.bytes_eq_ok {ε : Type} {memory : LocalMemory} {size n : Nat}
    (ok : memory.bytes (ε := ε) size = .ok n) : n = memory.dims.prod * size := by
  obtain ⟨elements, counted, ok⟩ := bind_eq_ok_iff.mp ok
  rw [← Word.product_eq_ok counted]
  exact (Word.mul_eq_ok_iff.mp ok).2.symm

/-- The bytes of the buffers of a batch. -/
theorem Folded.localBytes_eq_ok {ε : Type} {type : NumericType} {dims : List Nat} {batch : List Folded}
    {n : Nat} (ok : Folded.localBytes (ε := ε) type dims batch = .ok n) :
    n = batch.length * (dims.prod * type.size) := by
  have go (batch : List Folded) (sizes : List Nat)
      (each : batch.mapM (fun f => (f.buffer type dims).bytes (ε := ε) type.size) = .ok sizes) :
      sizes.sum = batch.length * (dims.prod * type.size) := by
    induction batch generalizing sizes with
    | nil =>
      cases each
      exact (Nat.zero_mul _).symm
    | cons f batch ih =>
      rw [List.mapM_cons] at each
      obtain ⟨size, first, each⟩ := bind_eq_ok_iff.mp each
      obtain ⟨sizes, others, each⟩ := bind_eq_ok_iff.mp each
      cases each
      rw [List.sum_cons, ih sizes others, LocalMemory.bytes_eq_ok first, List.length_cons, Nat.succ_mul,
        Nat.add_comm]
      rfl
  obtain ⟨sizes, each, ok⟩ := bind_eq_ok_iff.mp ok
  rw [Word.sum_eq_ok ok, go batch sizes each]

/-- At most two dimensions, each of 32 bits: a word of 64 bits counts their elements. -/
structure Narrow (dims : List Nat) : Prop where
  flat : dims.length ≤ 2
  small : ∀ d ∈ dims, d < Word.bits32.limit

theorem Narrow.line {a : Nat} (first : a < Word.bits32.limit) : Narrow [a] :=
  ⟨by simp, List.forall_mem_singleton.mpr first⟩

theorem Narrow.plane {a b : Nat} (first : a < Word.bits32.limit) (second : b < Word.bits32.limit) :
    Narrow [a, b] :=
  ⟨by simp, List.forall_mem_cons.mpr ⟨first, List.forall_mem_singleton.mpr second⟩⟩

theorem Narrow.product_eq_ok {ε : Type} {dims : List Nat} (narrow : Narrow dims) :
    Word.bits64.product (ε := ε) dims = .ok dims.prod := by
  have limits : Word.bits32.limit * Word.bits32.limit = Word.bits64.limit := rfl
  have mul {a b : Nat} (fits : a * b < Word.bits64.limit) :
      Word.bits64.mul (ε := ε) a b = .ok (a * b) := if_pos fits
  have start {a : Nat} (small : a < Word.bits32.limit) : 1 * a < Word.bits64.limit := by
    rw [Nat.one_mul]
    exact small.trans (by decide)
  match dims with
  | [] => rfl
  | [a] =>
    have first := narrow.small a (by simp)
    simp only [Word.product, List.foldlM_cons, mul (start first), List.foldlM_nil]
    simp [bind, Except.bind, pure, Except.pure]
  | [a, b] =>
    have first := narrow.small a (by simp)
    have second := narrow.small b (by simp)
    have fits : 1 * a * b < Word.bits64.limit := by
      rw [Nat.one_mul, ← limits]
      exact Nat.mul_lt_mul'' first second
    simp only [Word.product, List.foldlM_cons, mul (start first), List.foldlM_nil, bind,
      Except.bind, mul fits]
    simp [pure, Except.pure]
  | _ :: _ :: _ :: _ => exact absurd narrow.flat (by simp)

theorem LocalMemory.measured_bytes {ε : Type} (m : LocalMemory) (narrow : Narrow m.dims)
    (size : Nat) :
    Measured (m.bytes (ε := ε) size) (m.dims.prod * size < Word.bits64.limit) := by
  unfold bytes elements
  rw [narrow.product_eq_ok]
  exact Word.bits64.measured_mul _ size

/-- The local memory of a batch, whose buffers are all of one size. -/
theorem Folded.measured_localBytes {ε : Type} (type : NumericType) {dims : List Nat}
    (narrow : Narrow dims) (batch : List Folded) :
    Measured (localBytes (ε := ε) type dims batch)
      (batch.length * (dims.prod * type.size) < Word.bits64.limit) := by
  have each (f : Folded) := LocalMemory.measured_bytes (ε := ε) (f.buffer type dims) narrow type.size
  refine ((Measured.mapM each batch).bind
    (Q := batch.length * (dims.prod * type.size) < Word.bits64.limit) fun bytes found => ?_).congr
    ⟨And.right, fun fits => ⟨fun f member => ?_, fits⟩⟩
  · obtain ⟨_, rfl, -⟩ := exists_map (P := fun _ (_ : Unit) => True)
      (g := fun _ _ => dims.prod * type.size)
      (fun f n counted => ⟨(), trivial, LocalMemory.bytes_eq_ok counted⟩) found
    refine (Word.bits64.measured_sum _).congr ?_
    rw [List.map_const', List.sum_replicate_nat]
  · have some : 0 < batch.length := List.length_pos_of_mem member
    exact (Nat.le_mul_of_pos_left _ some).trans_lt fits

/-- The power of two at or above an extent fits 32 bits up to the greatest one that does. -/
theorem powerAbove_lt_limit {extent : Nat} :
    powerAbove extent < Word.bits32.limit ↔ extent ≤ 2 ^ 31 := by
  have limit : Word.bits32.limit = 2 ^ 32 := rfl
  rw [powerAbove_eq, limit, Nat.pow_lt_pow_iff_right (by decide), ← Nat.clog_le_iff_le_pow (by decide)]
  omega

theorem Tree.measured_code {ε : Type} (buffers : Tree.Buffers) (before : List Term) (lane : Term)
    (extent : Nat) : Measured (Tree.code (ε := ε) buffers before lane extent) (extent ≤ 2 ^ 31) := by
  refine Measured.before ?_ fun stages _ => .ok _
  unfold strides
  by_cases small : powerAbove extent < Word.bits32.limit
  · rw [if_pos small]
    exact (Measured.ok _).congr (by simpa using powerAbove_lt_limit.mp small)
  · rw [if_neg small]
    exact ⟨nofun, fun _ _ fits => small (powerAbove_lt_limit.mpr fits)⟩

/-! ### Statements -/

theorem measured_storeStep (scope : Scope) (s : Statement) : Measured (s.storeStep scope) True :=
  (Measured.accepted _).after fun _ _ => (Measured.accepted _).after fun _ _ => .ok _

theorem measured_stores {β : Type} (statement : β → Statement) (scope : β → Scope) (xs : List β) :
    Measured (xs.mapM fun x => (statement x).storeStep (scope x)) True :=
  (Measured.mapM (fun x => measured_storeStep (scope x) (statement x)) xs).congr (by simp)

theorem measured_packedBound (kind : Operation.Kind) (extent : Extent) (width : Nat) :
    Measured (packedBound kind extent width) True := by
  unfold packedBound
  split
  · exact .ok _
  · cases extent with
    | symbol name => exact .ok _
    | fixed n =>
      show Measured (if _ then _ else _) True
      split
      · exact .ok _
      · exact .refuse _

theorem measured_agree {α : Type} [DecidableEq α] (describe : α → α → String) (shape : Option α)
    (next : α) : Measured (agree describe shape next) True := by
  unfold agree
  split
  · exact .ok _
  · split
    · exact .ok _
    · exact .refuse _

theorem measured_theProduct (kind : Operation.Kind) (position : Nat) (s : Statement) :
    Measured (theProduct kind position s) True := by
  unfold theProduct
  split
  · exact .ok _
  · exact .refuse _

/-! ### Vector and matrix statements -/

theorem VectorStatements.measured_generate (p : VectorTuning) (op : Operation) :
    Measured (generate p op) True := by
  have checks (size : Option Extent) (entry : Statement × Nat) :
      Measured (checkStatement size entry) True := by
    unfold checkStatement
    split
    · exact (Measured.require _ _).after fun _ _ => measured_agree _ _ _
    · exact .refuse _
  have sized : Measured (commonSize op) True :=
    (Measured.require _ _).after fun _ _ => (Measured.foldlM checks _ _).after fun size _ => by
      cases size with
      | some size => exact .ok size
      | none => exact .refuse _
  exact sized.after fun size _ => (Measured.require _ _).after fun _ _ =>
    (Measured.accepted _).after fun _ _ => (measured_packedBound _ _ _).after fun _ _ =>
      (measured_stores id (fun _ => _) _).after fun _ _ => .ok _

theorem MatrixStatements.measured_generate (p : MatrixTuning) (op : Operation) :
    Measured (generate p op) True := by
  have checks (shape : Option (Extent × Extent)) (entry : Statement × Nat) :
      Measured (checkStatement shape entry) True := by
    unfold checkStatement
    split
    · exact (Measured.require _ _).after fun _ _ => measured_agree _ _ _
    · exact .refuse _
  have shaped : Measured (commonShape op) True :=
    (Measured.foldlM checks _ _).after fun shape _ => by
      cases shape with
      | some shape => exact .ok shape
      | none => exact .refuse _
  exact (Measured.require _ _).after fun _ _ => (Measured.require _ _).after fun _ _ =>
    shaped.after fun _ _ => (Measured.accepted _).after fun _ _ =>
      (measured_stores id (fun _ => _) _).after fun _ _ => .ok _

/-- **The kernel of vector statements**, up to its code. -/
theorem VectorStatements.exists_kernels {p : VectorTuning} {op : Operation} {program : Program}
    (ok : generate p op = .ok program) :
    ∃ arguments body, collectArguments op p.simdWidth.toNat = .ok arguments ∧ program.kernels =
      [⟨kind.identifier, arguments, .line p.localSize.toNat (.fixed p.numGroups.toNat), 0, 0, body⟩] := by
  obtain ⟨_, -, ok⟩ := bind_eq_ok_iff.mp ok
  obtain ⟨_, -, ok⟩ := bind_eq_ok_iff.mp ok
  obtain ⟨arguments, collected, ok⟩ := bind_eq_ok_iff.mp ok
  obtain ⟨_, -, ok⟩ := bind_eq_ok_iff.mp ok
  obtain ⟨_, -, ok⟩ := bind_eq_ok_iff.mp ok
  cases ok
  exact ⟨arguments, _, accepted_eq_ok_iff.mp collected, rfl⟩

/-- **The kernel of matrix statements**, up to its code. -/
theorem MatrixStatements.exists_kernels {p : MatrixTuning} {op : Operation} {program : Program}
    (ok : generate p op = .ok program) :
    ∃ arguments body, collectArguments op 1 = .ok arguments ∧ program.kernels =
      [⟨kind.identifier, arguments,
        .plane p.localSize0.toNat p.localSize1.toNat (.fixed p.numGroups0.toNat) (.fixed p.numGroups1.toNat),
        0, 0, body⟩] := by
  obtain ⟨_, -, ok⟩ := bind_eq_ok_iff.mp ok
  obtain ⟨_, -, ok⟩ := bind_eq_ok_iff.mp ok
  obtain ⟨_, -, ok⟩ := bind_eq_ok_iff.mp ok
  obtain ⟨arguments, collected, ok⟩ := bind_eq_ok_iff.mp ok
  obtain ⟨_, -, ok⟩ := bind_eq_ok_iff.mp ok
  cases ok
  exact ⟨arguments, _, accepted_eq_ok_iff.mp collected, rfl⟩

/-! ### Reductions -/

/-- The numbers of a reduction fit: the strides of its trees, the bytes of the buffers, and the
elements of the scratch buffer. -/
def ReductionTuning.Fits (p : ReductionTuning) (count size : Nat) : Prop :=
  p.localSize.toNat ≤ 2 ^ 31 ∧ count * (p.localSize.toNat * size) < Word.bits64.limit ∧
    count * p.numGroups.toNat < Word.bits64.limit

/-- A record that fits so many statements fits fewer of them, over smaller elements. -/
theorem ReductionTuning.Fits.mono {p : ReductionTuning} {count count' size size' : Nat}
    (fits : p.Fits count size) (fewer : count' ≤ count) (smaller : size' ≤ size) : p.Fits count' size' := by
  obtain ⟨tree, bytes, scratch⟩ := fits
  exact ⟨tree, (Nat.mul_le_mul fewer (Nat.mul_le_mul_left _ smaller)).trans_lt bytes,
    (Nat.mul_le_mul_right _ fewer).trans_lt scratch⟩

/-- With less than `2 ^ 30` statements, the numbers of a reduction fit if the trees of a group do. -/
theorem ReductionTuning.fits_iff {p : ReductionTuning} {count : Nat} (few : count < 2 ^ 30)
    (type : NumericType) : p.Fits count type.size ↔ p.localSize.toNat ≤ 2 ^ 31 := by
  refine ⟨And.left, fun lanes => ⟨lanes, ?_, ?_⟩⟩
  · have bytes : p.localSize.toNat * type.size ≤ 2 ^ 31 * 8 := Nat.mul_le_mul lanes type.size_le
    calc count * (p.localSize.toNat * type.size)
        ≤ count * (2 ^ 31 * 8) := Nat.mul_le_mul_left _ bytes
      _ < 2 ^ 30 * (2 ^ 31 * 8) := Nat.mul_lt_mul_of_pos_right few (by decide)
      _ = Word.bits64.limit := rfl
  · calc count * p.numGroups.toNat
        ≤ 2 ^ 30 * 2 ^ 32 := Nat.mul_le_mul few.le p.numGroups.toNat_lt.le
      _ < Word.bits64.limit := by decide

theorem Reduction.measured_batch (op : Operation) : Measured (batch op) True := by
  have checks (state : List Folded × Option Extent) (entry : Statement × Nat) :
      Measured (checkStatement state entry) True := by
    unfold checkStatement
    split
    · refine (measured_theProduct _ _ _).after fun product _ => ?_
      have sized : Measured (productExtent entry.2 product) True := by
        unfold productExtent
        split
        · exact .refuse _
        · split
          · exact .ok _
          · exact .refuse _
      exact sized.after fun _ _ => (measured_agree _ _ _).after fun _ _ => .ok _
    · exact .refuse _
  refine (Measured.require _ _).after fun _ _ => (Measured.foldlM checks _ _).after fun state _ => ?_
  obtain ⟨folded, extent⟩ := state
  cases extent with
  | some extent => exact .ok _
  | none => exact .refuse _

theorem Reduction.measured_generate (p : ReductionTuning) (op : Operation) :
    Measured (generate p op) (p.Fits op.statements.length op.numericType.size) := by
  have lanes : Narrow [p.localSize.toNat] := .line p.localSize.toNat_lt
  have partial' (folded : List Folded) (extent : Extent) :
      Measured (partialKernel p op.numericType folded extent) (p.localSize.toNat ≤ 2 ^ 31) :=
    (measured_packedBound _ _ _).after fun _ _ =>
      ((Measured.mapM (fun f => (Measured.accepted _).after fun _ _ => .ok _) folded).congr
        (by simp)).after fun _ _ => (Tree.measured_code _ _ _ _).before fun _ _ => .ok _
  have final' (folded : List Folded) :
      Measured (finalKernel p op.numericType folded) (p.localSize.toNat ≤ 2 ^ 31) :=
    (Tree.measured_code _ _ _ _).before fun _ _ =>
      (measured_stores Folded.statement _ folded).after fun _ _ => .ok _
  refine (measured_batch op).after fun (folded, extent) batched => ?_
  have counted := (batch_eq_ok batched).1.length_eq
  refine (Measured.require _ _).after fun _ _ => (Measured.accepted _).after fun _ _ =>
    (Measured.accepted _).after fun _ _ =>
      ((Folded.measured_localBytes op.numericType lanes folded).bind fun _ _ =>
        (Word.bits64.measured_mul folded.length p.numGroups.toNat).bind fun _ _ =>
          (partial' folded extent).bind fun _ _ =>
            (final' folded).before fun _ _ => .ok _).congr ?_
  rw [counted, List.prod_singleton, ReductionTuning.Fits]
  tauto

/-- The kernels of a reduction, up to their code. -/
theorem Reduction.exists_kernels {p : ReductionTuning} {op : Operation} {program : Program}
    (ok : generate p op = .ok program) :
    ∃ operands first second, collectArguments op p.simdWidth.toNat = .ok operands ∧ program.kernels =
      let arguments := operands ++ [⟨scratch, .buffer op.numericType.text⟩]
      let bytes := op.statements.length * (p.localSize.toNat * op.numericType.size)
      let elements := op.statements.length * p.numGroups.toNat
      [⟨"reduction_partial", arguments, .line p.localSize.toNat (.fixed p.numGroups.toNat), bytes,
          elements, first⟩,
        ⟨"reduction_final", arguments, .line p.localSize.toNat (.fixed 1), bytes, elements, second⟩] := by
  obtain ⟨⟨folded, extent⟩, batched, ok⟩ := bind_eq_ok_iff.mp ok
  obtain ⟨_, -, ok⟩ := bind_eq_ok_iff.mp ok
  obtain ⟨operands, collected, ok⟩ := bind_eq_ok_iff.mp ok
  obtain ⟨arguments, pushed, ok⟩ := bind_eq_ok_iff.mp ok
  obtain ⟨bytes, summed, ok⟩ := bind_eq_ok_iff.mp ok
  obtain ⟨elements, counted, ok⟩ := bind_eq_ok_iff.mp ok
  obtain ⟨first, -, ok⟩ := bind_eq_ok_iff.mp ok
  obtain ⟨second, -, ok⟩ := bind_eq_ok_iff.mp ok
  cases ok
  obtain ⟨rfl, -⟩ := pushBuffer_eq_ok (accepted_eq_ok_iff.mp pushed)
  obtain rfl := Folded.localBytes_eq_ok summed
  obtain rfl := (Word.mul_eq_ok_iff.mp counted).2
  refine ⟨operands, first, second, accepted_eq_ok_iff.mp collected, ?_⟩
  rw [(batch_eq_ok batched).1.length_eq, List.prod_singleton]

/-! ### Row reductions -/

/-- The numbers of a row reduction fit: the strides of its trees, and the bytes of the buffers, whose
rows are one slot longer than there are workers. -/
def RowTuning.Fits (p : RowTuning) (count size : Nat) : Prop :=
  p.localSize1.toNat ≤ 2 ^ 31 ∧
    count * (p.localSize0.toNat * (p.localSize1.toNat + 1) * size) < Word.bits64.limit

theorem RowTuning.Fits.mono {p : RowTuning} {count count' size size' : Nat}
    (fits : p.Fits count size) (fewer : count' ≤ count) (smaller : size' ≤ size) : p.Fits count' size' :=
  ⟨fits.1, (Nat.mul_le_mul fewer (Nat.mul_le_mul_left _ smaller)).trans_lt fits.2⟩

theorem RowReduction.measured_batch (kind : Operation.Kind) (transposed : Bool) {demand : Demand}
    (demanded : ∀ position product, Measured (demand position product) True) (op : Operation) :
    Measured (batch kind transposed demand op) True := by
  have checks (state : List Folded × Option (Extent × Extent)) (entry : Statement × Nat) :
      Measured (checkStatement kind transposed demand state entry) True := by
    unfold checkStatement
    split
    · refine (measured_theProduct _ _ _).after fun product _ => ?_
      have shaped : Measured (productMatrix kind transposed entry.2 product) True := by
        unfold productMatrix
        split
        · exact .refuse _
        · split
          · exact .refuse _
          · split
            · exact .ok _
            · exact .refuse _
      exact shaped.after fun _ _ => (demanded _ _).after fun _ _ =>
        (measured_agree _ _ _).after fun _ _ => .ok _
    · exact .refuse _
  refine (Measured.foldlM checks _ _).after fun state _ => ?_
  obtain ⟨folded, shape⟩ := state
  cases shape with
  | some shape => exact .ok _
  | none => exact .refuse _

theorem RowReduction.measured_generateFor (kind : Operation.Kind) (transposed : Bool)
    {demand : Demand} (demanded : ∀ position product, Measured (demand position product) True)
    (p : RowTuning) (op : Operation) :
    Measured (generateFor kind transposed demand p op)
      (p.Fits op.statements.length op.numericType.size) := by
  have coded (dims : List Nat) (folded : List Folded) (rows cols : Extent) :
      Measured (code p transposed op.numericType dims folded rows cols)
        (p.localSize1.toNat ≤ 2 ^ 31) :=
    ((Measured.mapM (fun f => (Measured.accepted _).after fun _ _ => .ok _) folded).congr
      (by simp)).after fun _ _ => (Tree.measured_code _ _ _ _).before fun _ _ =>
        (measured_stores Folded.statement _ folded).after fun _ _ => .ok _
  refine (Measured.require _ _).after fun _ _ => (Measured.require _ _).after fun _ _ =>
    (measured_batch kind transposed demanded op).after fun (folded, rows, cols) batched => ?_
  have counted := (batch_eq_ok batched).1.length_eq
  refine (Measured.accepted _).after fun _ _ =>
    ((Word.bits32.measured_add p.localSize1.toNat 1).bind
      (Q := folded.length * (p.localSize0.toNat * (p.localSize1.toNat + 1) *
        op.numericType.size) < Word.bits64.limit ∧ p.localSize1.toNat ≤ 2 ^ 31)
      fun row found => ?_).congr ?_
  · obtain ⟨small, rfl⟩ := Word.add_eq_ok_iff.mp found
    have bytes := Folded.measured_localBytes (ε := Refusal) op.numericType
      (.plane p.localSize0.toNat_lt small) folded
    simp only [List.prod_cons, List.prod_nil, Nat.mul_one] at bytes
    exact bytes.bind fun _ _ => (coded _ folded rows cols).before fun _ _ => .ok _
  · have limit : Word.bits32.limit = 2 ^ 32 := rfl
    rw [counted, RowTuning.Fits, limit]
    constructor
    · exact fun ⟨_, bytes, tree⟩ => ⟨tree, bytes⟩
    · exact fun ⟨tree, bytes⟩ => ⟨by omega, bytes, tree⟩

/-- The kernel that folds rows, up to its code. -/
theorem RowReduction.exists_kernels {kind : Operation.Kind} {transposed : Bool} {demand : Demand}
    {p : RowTuning} {op : Operation} {program : Program}
    (ok : generateFor kind transposed demand p op = .ok program) :
    ∃ arguments body, collectArguments op 1 = .ok arguments ∧ program.kernels =
      [⟨kind.identifier, arguments,
        .plane p.localSize0.toNat p.localSize1.toNat (.fixed p.numGroups0.toNat) (.fixed 1),
        op.statements.length * (p.localSize0.toNat * (p.localSize1.toNat + 1) * op.numericType.size),
        0, body⟩] := by
  obtain ⟨_, -, ok⟩ := bind_eq_ok_iff.mp ok
  obtain ⟨_, -, ok⟩ := bind_eq_ok_iff.mp ok
  obtain ⟨⟨folded, rows, cols⟩, batched, ok⟩ := bind_eq_ok_iff.mp ok
  obtain ⟨arguments, collected, ok⟩ := bind_eq_ok_iff.mp ok
  obtain ⟨row, widened, ok⟩ := bind_eq_ok_iff.mp ok
  obtain ⟨bytes, summed, ok⟩ := bind_eq_ok_iff.mp ok
  obtain ⟨body, -, ok⟩ := bind_eq_ok_iff.mp ok
  cases ok
  obtain rfl := (Word.add_eq_ok_iff.mp widened).2
  obtain rfl := Folded.localBytes_eq_ok summed
  refine ⟨arguments, body, accepted_eq_ok_iff.mp collected, ?_⟩
  rw [(batch_eq_ok batched).1.length_eq, List.prod_pair]

/-! ### Matrix products -/

/-- The numbers of a matrix product fit: the extents of the result tile with one slot more, and the
bytes of the staged tiles. -/
def ProductTuning.Fits (p : ProductTuning) (size : Nat) : Prop :=
  p.localSize0.toNat * p.ms.toNat + 1 < Word.bits32.limit ∧
    p.localSize1.toNat * p.ns.toNat + 1 < Word.bits32.limit ∧
    (if p.stageLeft then p.kl.toNat * (p.localSize0.toNat * p.ms.toNat + 1) * size else 0) +
      (if p.stageRight then p.kl.toNat * (p.localSize1.toNat * p.ns.toNat + 1) * size else 0) <
        Word.bits64.limit

namespace MatrixProduct

/-- The bytes of the tiles in use fit exactly when all of them together do. -/
theorem Tiling.measured_bytes (t : Tiling) (type : NumericType)
    (narrow : ∀ m ∈ t.memories, Narrow m.dims) :
    Measured (t.bytes type)
      ((t.memories.map fun m => m.dims.prod * type.size).sum < Word.bits64.limit) := by
  refine (Word.bits64.measured_total (fun m member total => ?_) (by decide)).congr
    (by rw [Nat.zero_add])
  have bytes := m.measured_bytes (ε := Refusal) (narrow m member) type.size
  constructor
  · refine (bytes.bind (Q := total + m.dims.prod * type.size < Word.bits64.limit)
      fun n found => ?_).congr ?_
    · obtain rfl := LocalMemory.bytes_eq_ok found
      exact Word.bits64.measured_add total _
    · omega
  · intro next found
    obtain ⟨n, counted, added⟩ := bind_eq_ok_iff.mp found
    rw [← LocalMemory.bytes_eq_ok counted]
    exact (Word.add_eq_ok_iff.mp added).2.symm

theorem Problem.measured_ofOperation (leftTransposed rightTransposed : Bool) (op : Operation) :
    Measured (ofOperation leftTransposed rightTransposed op) True := by
  unfold ofOperation
  simp only
  split
  · split
    · refine (measured_theProduct _ _ _).after fun product _ => ?_
      have operands : Measured (operands (.matrixProduct leftTransposed rightTransposed) product)
          True := by
        unfold Problem.operands
        split
        · exact .ok _
        · exact .refuse _
      refine operands.after fun (lhs, rhs) _ => ?_
      exact Measured.after ((Measured.require _ _).after fun _ _ =>
        (Measured.require _ _).after fun _ _ => .require _ _) fun _ _ => .ok _
    · exact .refuse _
  · exact .refuse _

theorem Tiling.measured_extents (p : ProductTuning) :
    Measured (extents p) (p.localSize0.toNat * p.ms.toNat < Word.bits32.limit ∧
      p.localSize1.toNat * p.ns.toNat < Word.bits32.limit) :=
  (Word.bits32.measured_mul _ _).bind fun _ _ =>
    (Word.bits32.measured_mul _ _).before fun _ _ => .ok _

theorem Tiling.extents_eq_ok {p : ProductTuning} {ml nl : Nat} (ok : extents p = .ok (ml, nl)) :
    ml = p.localSize0.toNat * p.ms.toNat ∧ nl = p.localSize1.toNat * p.ns.toNat := by
  obtain ⟨_, rows, ok⟩ := bind_eq_ok_iff.mp ok
  obtain ⟨_, cols, ok⟩ := bind_eq_ok_iff.mp ok
  cases ok
  exact ⟨(Word.mul_eq_ok_iff.mp rows).2.symm, (Word.mul_eq_ok_iff.mp cols).2.symm⟩

theorem Tiling.measured_ofRecord (p : ProductTuning) (type : NumericType) (ml nl : Nat) :
    Measured (ofRecord p type ml nl) (ml + 1 < Word.bits32.limit ∧ nl + 1 < Word.bits32.limit) :=
  (Word.bits32.measured_add _ _).bind fun _ _ =>
    (Word.bits32.measured_add _ _).before fun _ _ => .ok _

/-- The local tiles in use take the bytes of the staged ones. -/
theorem Tiling.measured_staged {p : ProductTuning} {type : NumericType} {ml nl : Nat} {t : Tiling}
    (ok : ofRecord p type ml nl = .ok t) :
    Measured (t.bytes type)
      ((if p.stageLeft then p.kl.toNat * (ml + 1) * type.size else 0) +
        (if p.stageRight then p.kl.toNat * (nl + 1) * type.size else 0) < Word.bits64.limit) := by
  have fits := (measured_ofRecord p type ml nl).of_ok t ok
  obtain ⟨left, first, ok⟩ := bind_eq_ok_iff.mp ok
  obtain ⟨right, second, ok⟩ := bind_eq_ok_iff.mp ok
  cases ok
  obtain rfl := (Word.add_eq_ok_iff.mp first).2
  obtain rfl := (Word.add_eq_ok_iff.mp second).2
  have either {m : LocalMemory} {t : Tiling} (member : m ∈ t.memories) : m = t.left ∨ m = t.right := by
    rcases List.mem_append.mp member with member | member
    · split at member
      · exact .inl (List.mem_singleton.mp member)
      · cases member
    · split at member
      · exact .inr (List.mem_singleton.mp member)
      · cases member
  refine (measured_bytes _ type fun m member => ?_).congr ?_
  · rcases either member with rfl | rfl
    · exact .plane p.kl.toNat_lt fits.1
    · exact .plane p.kl.toNat_lt fits.2
  · cases left : p.stageLeft <;> cases right : p.stageRight <;> simp [memories, left, right]

theorem measured_generate (leftTransposed rightTransposed : Bool) (p : ProductTuning)
    (op : Operation) :
    Measured (generate leftTransposed rightTransposed p op) (p.Fits op.numericType.size) := by
  have coded (t : Tiling) (problem : Problem) : Measured (code t op.numericType problem) True :=
    (measured_storeStep _ _).after fun _ _ => .ok _
  refine (Measured.require _ _).after fun _ _ => (Measured.require _ _).after fun _ _ =>
    (Problem.measured_ofOperation _ _ op).after fun problem _ =>
      ((Tiling.measured_extents p).bind (Q := p.Fits op.numericType.size)
        fun (ml, nl) found => ?_).congr ?_
  · obtain ⟨rfl, rfl⟩ := Tiling.extents_eq_ok found
    exact (Measured.accepted _).after fun _ _ =>
      ((Tiling.measured_ofRecord p op.numericType _ _).bind fun t tiled =>
        (Tiling.measured_staged tiled).before fun _ _ => (coded t problem).after fun _ _ => .ok _).congr
          and_assoc
  · unfold ProductTuning.Fits
    omega

end MatrixProduct

end TunedKernel
