/-
**Exactly which records of matrix products pass their check.**

The check forms two numbers of workers in 32 bits: that of a group, also where nothing is staged, and
that of the fetch shape of a staged operand. Where one of them does not fit, the check overflows: it
neither accepts the record nor refuses it.

* `ProductTuning.Formed` — what is looked at before any number is formed: the width, the sizes and the
  step.
* `ProductTuning.Consistent` — a formed record whose fetch shape covers the workers of a group.
* `ProductTuning.Counted` — the numbers of workers that the check forms fit 32 bits.
* `ProductTuning.check_exact` — which records are accepted, which are refused, and on which the check
  overflows.
* `ProductTuning.wideGroup_overflows` — a consistent record on which it does.
-/

import TunedKernel.Proofs.Generation.Validity

namespace TunedKernel

theorem checkPositive_eq_ok_iff {sizes : List (String × UInt32)} {u : Unit} :
    checkPositive sizes = .ok u ↔ ∀ size ∈ sizes, 0 < size.2.toNat := by
  refine ⟨checkPositive_eq_ok, fun positive => ?_⟩
  have none : sizes.find? (fun size => size.2 == 0) = none := by
    refine List.find?_eq_none.mpr fun size member zero => ?_
    have large := positive size member
    rw [beq_iff_eq.mp zero] at large
    exact absurd large (Nat.lt_irrefl 0)
  rw [checkPositive, none]

namespace ProductTuning

variable {p : ProductTuning}

/-! ### Consistent records -/

/-- The sizes of a record, under the names that its document gives them. -/
def sizes (p : ProductTuning) : List (String × UInt32) :=
  [("local_size_0", p.localSize0), ("local_size_1", p.localSize1), ("kl", p.kl), ("ms", p.ms),
    ("ks", p.ks), ("ns", p.ns), ("local_fetch_0", p.localFetch0), ("local_fetch_1", p.localFetch1)]

/-- The width is one of kernel code's, no size is zero, and the step divides the depth of a tile. -/
structure Formed (p : ProductTuning) : Prop where
  width : p.simdWidth.toNat ∈ [1, 2, 4, 8, 16]
  positive : ∀ size ∈ p.sizes, 0 < size.2.toNat
  step : p.ks.toNat ∣ p.kl.toNat

/-- The fetch shape of a staged operand has as many workers as the group. -/
structure Consistent (p : ProductTuning) : Prop extends Formed p where
  covers : p.staged = true →
    p.localFetch0.toNat * p.localFetch1.toNat = p.localSize0.toNat * p.localSize1.toNat

/-- The workers of a group, and those of the fetch shape where an operand is staged, are counted in 32
bits. -/
structure Counted (p : ProductTuning) : Prop where
  group : p.localSize0.toNat * p.localSize1.toNat < 2 ^ 32
  fetch : p.staged = true → p.localFetch0.toNat * p.localFetch1.toNat < 2 ^ 32

/-! ### The parts of the check -/

/-- The part of the check that looks at one size after the other. -/
def form (p : ProductTuning) : Except (Fault Flaw) Unit := do
  checkWidth p.simdWidth
  checkPositive p.sizes
  require (p.kl.toNat % p.ks.toNat = 0) (.step p.ks p.kl)

/-- The part of the check that forms numbers of workers. -/
def count (p : ProductTuning) : Except (Fault Flaw) Unit := do
  let workers ← Word.bits32.mul p.localSize0.toNat p.localSize1.toNat
  if p.staged then
    let fetched ← Word.bits32.mul p.localFetch0.toNat p.localFetch1.toNat
    require (fetched = workers) (.fetch p.localFetch0 p.localFetch1 workers)

theorem check_eq (p : ProductTuning) : p.check = p.form >>= fun _ => p.count := by
  simp only [check, form, count, sizes, bind_assoc]

theorem form_eq_ok_iff : p.form = .ok () ↔ p.Formed := by
  simp only [form, bind_eq_ok_iff, checkWidth_eq_ok_iff, checkPositive_eq_ok_iff, require_eq_ok_iff,
    decide_eq_true_eq, exists_and_left, exists_const]
  exact ⟨fun ⟨width, positive, step⟩ => ⟨width, positive, Nat.dvd_of_mod_eq_zero step⟩,
    fun formed => ⟨formed.width, formed.positive, Nat.mod_eq_zero_of_dvd formed.step⟩⟩

/-- No number is formed while the sizes are looked at. -/
theorem measured_form (p : ProductTuning) : Measured p.form True := by
  refine .after (.require _ _) fun _ _ => .after ?_ fun _ _ => .require _ _
  rw [checkPositive]
  split
  · exact .refuse _
  · exact .ok ()

theorem count_eq_ok_iff : p.count = .ok () ↔ p.Counted ∧ (p.staged = true →
    p.localFetch0.toNat * p.localFetch1.toNat = p.localSize0.toNat * p.localSize1.toNat) := by
  have limit : Word.bits32.limit = 2 ^ 32 := rfl
  rw [count, bind_eq_ok_iff]
  cases staged : p.staged with
  | false =>
    refine ⟨fun ⟨_, group, _⟩ => ⟨⟨(Word.mul_eq_ok_iff.mp group).1, ?_⟩, nofun⟩,
      fun ⟨counted, _⟩ => ⟨_, Word.mul_eq_ok_iff.mpr ⟨counted.group, rfl⟩, rfl⟩⟩
    rw [staged]
    exact nofun
  | true =>
    simp only [↓reduceIte, bind_eq_ok_iff, Word.mul_eq_ok_iff, require_eq_ok_iff, decide_eq_true_eq,
      limit, forall_const]
    constructor
    · rintro ⟨_, ⟨group, rfl⟩, _, ⟨fetch, rfl⟩, same⟩
      exact ⟨⟨group, fun _ => fetch⟩, same⟩
    · rintro ⟨counted, same⟩
      exact ⟨_, ⟨counted.group, rfl⟩, _, ⟨counted.fetch staged, rfl⟩, same⟩

theorem count_of_not_counted (large : ¬p.Counted) : p.count = .error (.overflow .multiply) := by
  by_cases group : p.localSize0.toNat * p.localSize1.toNat < Word.bits32.limit
  · -- The group is counted, so it is the fetch shape of a staged operand that is not.
    have rest : p.staged = true ∧ ¬p.localFetch0.toNat * p.localFetch1.toNat < Word.bits32.limit := by
      by_contra small
      exact large ⟨group, fun staged => not_not.mp fun fetch => small ⟨staged, fetch⟩⟩
    simp only [count, Word.mul, if_pos group, if_pos rest.1, if_neg rest.2]
    rfl
  · simp only [count, Word.mul, if_neg group]
    rfl

theorem measured_count (p : ProductTuning) : Measured p.count p.Counted := by
  have group := Word.measured_mul (ε := Flaw) .bits32 p.localSize0.toNat p.localSize1.toNat
  cases staged : p.staged with
  | false =>
    rw [count, staged]
    exact (group.before fun _ _ => .ok ()).congr
      ⟨fun fits => ⟨fits, by simp [staged]⟩, Counted.group⟩
  | true =>
    have fetch := Word.measured_mul (ε := Flaw) .bits32 p.localFetch0.toNat p.localFetch1.toNat
    rw [count, staged]
    exact (group.bind fun _ _ => fetch.before fun _ _ => .require _ _).congr
      ⟨fun ⟨fits, covered⟩ => ⟨fits, fun _ => covered⟩,
        fun counted => ⟨counted.group, counted.fetch staged⟩⟩

/-! ### The check -/

/-- The check accepts exactly the consistent records whose workers are counted. -/
theorem check_eq_ok_iff : p.check = .ok () ↔ p.Consistent ∧ p.Counted := by
  rw [check_eq, bind_eq_ok_iff]
  constructor
  · rintro ⟨_, formed, ok⟩
    obtain ⟨counted, covers⟩ := count_eq_ok_iff.mp ok
    exact ⟨⟨form_eq_ok_iff.mp formed, covers⟩, counted⟩
  · rintro ⟨consistent, counted⟩
    exact ⟨(), form_eq_ok_iff.mpr consistent.toFormed, count_eq_ok_iff.mpr ⟨counted, consistent.covers⟩⟩

/-- The check overflows exactly on the formed records whose workers are not counted. -/
theorem check_eq_overflow_iff {operation : Overflow} :
    p.check = .error (.overflow operation) ↔ operation = .multiply ∧ p.Formed ∧ ¬p.Counted := by
  rw [check_eq]
  constructor
  · intro overflow
    cases formed : p.form with
    | error fault =>
      rw [formed] at overflow
      cases overflow
      exact absurd trivial ((measured_form p).of_overflow operation formed)
    | ok u =>
      rw [formed] at overflow
      have large := (measured_count p).of_overflow operation overflow
      cases (count_of_not_counted large).symm.trans overflow
      exact ⟨rfl, form_eq_ok_iff.mp formed, large⟩
  · rintro ⟨rfl, formed, large⟩
    rw [form_eq_ok_iff.mpr formed]
    exact count_of_not_counted large

/-- **The check is exact, and it is total where the workers are counted.** It accepts the consistent
records whose workers are counted. It refuses those that are not formed, and the inconsistent ones
whose workers are counted. On all others, the formed ones whose workers are not counted, a product
overflows. -/
theorem check_exact (p : ProductTuning) :
    (p.check = .ok () ↔ p.Consistent ∧ p.Counted) ∧
      ((∃ flaw, p.check = .error (.refused flaw)) ↔ ¬p.Formed ∨ p.Counted ∧ ¬p.Consistent) ∧
      ∀ operation, p.check = .error (.overflow operation) ↔
        operation = .multiply ∧ p.Formed ∧ ¬p.Counted := by
  refine ⟨check_eq_ok_iff, ?_, fun operation => check_eq_overflow_iff⟩
  constructor
  · rintro ⟨flaw, refused⟩
    have rejected : ¬(p.Consistent ∧ p.Counted) := fun both => by
      rw [check_eq_ok_iff.mpr both] at refused
      cases refused
    have fits : ¬(p.Formed ∧ ¬p.Counted) := fun both => by
      rw [check_eq_overflow_iff.mpr ⟨rfl, both⟩] at refused
      cases refused
    tauto
  · intro faulty
    have rejected : ¬(p.Consistent ∧ p.Counted) := fun both =>
      faulty.elim (fun malformed => malformed both.1.toFormed) fun other => other.2 both.1
    have fits : ¬(p.Formed ∧ ¬p.Counted) := fun both =>
      faulty.elim (fun malformed => malformed both.1) fun other => both.2 other.1
    cases answer : p.check with
    | ok u => exact absurd (check_eq_ok_iff.mp answer) rejected
    | error fault =>
      cases fault with
      | overflow operation => exact absurd (check_eq_overflow_iff.mp answer).2 fits
      | refused flaw => exact ⟨flaw, rfl⟩

/-- A record for groups of 65536 by 65536 workers that stage nothing. -/
def wideGroup : ProductTuning := ⟨1, 65536, 1, 65536, 1, 1, 1, false, false, 1, 1⟩

/-- **The check overflows on a consistent record.** Its group has one worker more than 32 bits count,
and nothing is staged that the number would be compared for. -/
theorem wideGroup_overflows :
    wideGroup.Consistent ∧ wideGroup.check = .error (.overflow .multiply) := by
  have formed : wideGroup.Formed := by
    refine ⟨by decide, ?_, by decide⟩
    simp only [sizes, List.forall_mem_cons]
    decide
  refine ⟨⟨formed, by decide⟩, check_eq_overflow_iff.mpr ⟨rfl, formed, fun counted => ?_⟩⟩
  exact absurd counted.group (by decide)

end ProductTuning

end TunedKernel
