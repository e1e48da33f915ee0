/-
**Double precision.**

A number of double precision has a significand of 53 bits, and the range ends at
`2 ^ 1024 - 2 ^ 971`. Numerals are read into such numbers in two ways: by rounding the value once,
or by rounding a significand, a power of ten and their product one after the other.

* `spacing n` — the distance between neighbouring numbers of double precision at the size of `n`.
* `nearestDouble n` — the nearest of them to `n`, of two the one with the even significand;
  `two_mul_nearestDouble_le` and `two_mul_le_nearestDouble` say that it is at most half a spacing
  away.
* `doubleLimit` — the least natural number that rounds beyond the range.
* `exceedsDouble m e` — whether `m * 10 ^ e`, rounded once, lies beyond the range.
* `stepwiseExceedsDouble m e` — whether it does when its parts are rounded one after the other.
-/

namespace TunedKernel.Text

/-! ### Rounding -/

/-- The distance between neighbouring numbers of double precision at the size of `n`. -/
def spacing (n : Nat) : Nat := Nat.pow 2 (n.log2 + 1 - 53)

/-- The number of double precision nearest to `n`, in an unlimited range. Halfway between two, it
is the one whose significand is even. -/
def nearestDouble (n : Nat) : Nat :=
  let below := n / spacing n
  let above := n % spacing n
  if spacing n < 2 * above ∨ (spacing n = 2 * above ∧ below % 2 = 1) then
    (below + 1) * spacing n
  else below * spacing n

/-- Rounding adds at most half a spacing. -/
theorem two_mul_nearestDouble_le (n : Nat) : 2 * nearestDouble n ≤ 2 * n + spacing n := by
  have split : n / spacing n * spacing n + n % spacing n = n := Nat.div_add_mod' n (spacing n)
  simp only [nearestDouble]
  split
  · rw [Nat.add_mul]
    omega
  · omega

/-- Rounding takes away at most half a spacing. -/
theorem two_mul_le_nearestDouble (n : Nat) : 2 * n ≤ 2 * nearestDouble n + spacing n := by
  have split : n / spacing n * spacing n + n % spacing n = n := Nat.div_add_mod' n (spacing n)
  have above : n % spacing n < spacing n := Nat.mod_lt n (Nat.pow_pos (by decide))
  simp only [nearestDouble]
  split
  · rw [Nat.add_mul]
    omega
  · omega

/-! ### The end of the range -/

/-- The least natural number that rounds beyond the range: half a spacing above the largest number,
whose significand is odd. -/
def doubleLimit : Nat := Nat.pow 2 1024 - Nat.pow 2 970

/-- Whether `m * 10 ^ e`, rounded once, lies beyond the range. The number of digits before the
point settles all but the numbers near its end. -/
def exceedsDouble (m : Nat) (e : Int) : Bool :=
  let magnitude := (Nat.toDigits 10 m).length + e
  if m = 0 ∨ magnitude < 309 then false
  else if 309 < magnitude then true
  else if 0 ≤ e then doubleLimit ≤ m * Nat.pow 10 e.toNat
  else doubleLimit * Nat.pow 10 (-e).toNat ≤ m

/-- Whether `m * 10 ^ e` lies beyond the range when `m`, the power of ten and their product are
rounded one after the other. A power of ten above the 308th is beyond it already, and a negative
one leads to no larger number than `m`, which has to be within the range. -/
def stepwiseExceedsDouble (m : Nat) (e : Int) : Bool :=
  if m = 0 ∨ e < 0 then false
  else if 308 < e then true
  else doubleLimit ≤ nearestDouble m * nearestDouble (Nat.pow 10 e.toNat)

end TunedKernel.Text
