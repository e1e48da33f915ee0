/-
**Numerals are read as their numbers.**

* `toDigits_append_inj` — the number that is written in front of a text which does not continue it.
* `exists_zeros` — digits are those of their number behind zeros.
* `word32?_of_digits`, `word32?_eq_some_iff` — so the unsigned numerals are numbers, with zeros and a `+`
  before them or without.
-/

import TunedKernel.Proofs.Text.Runs
import TunedKernel.Text.Numeral

namespace TunedKernel.Text

/-! ### Numbers that are written -/

theorem isDigit_of_mem_toDigits (n : Nat) : ∀ c ∈ Nat.toDigits 10 n, c.isDigit :=
  fun _ member => Nat.isDigit_of_mem_toDigits (by decide) (by decide) member

theorem toDigits_injective : Function.Injective (Nat.toDigits 10) := by
  intro m n same
  rw [← Nat.ofDigitChars_ten_toDigits (n := m), same, Nat.ofDigitChars_ten_toDigits]

/-- Numbers in front of texts that do not go on with a digit. -/
theorem toDigits_append_inj {m n : Nat} {rest rest' : List Char} (ends : Ends Char.isDigit rest)
    (ends' : Ends Char.isDigit rest') (same : Nat.toDigits 10 m ++ rest = Nat.toDigits 10 n ++ rest') :
    m = n ∧ rest = rest' := by
  obtain ⟨digits, behind⟩ :=
    append_inj_of_ends (isDigit_of_mem_toDigits m) (isDigit_of_mem_toDigits n) ends ends' same
  exact ⟨toDigits_injective digits, behind⟩

/-! ### Numerals that are read -/

/-- A numeral without the `+` that may stand before it. -/
def withoutPlus : List Char → List Char
  | '+' :: rest => rest
  | cs => cs

theorem word32?_eq (cs : List Char) : word32? cs =
    if withoutPlus cs ≠ [] ∧ (withoutPlus cs).all Char.isDigit ∧ readDecimal (withoutPlus cs) < UInt32.size then
      some (UInt32.ofNat (readDecimal (withoutPlus cs))) else none := by
  cases cs with
  | nil => rfl
  | cons c rest =>
    by_cases plus : c = '+'
    · rw [plus]
      rfl
    · simp [word32?, withoutPlus, plus]

theorem withoutPlus_of_digits {digits : List Char} (all : ∀ c ∈ digits, c.isDigit) :
    withoutPlus digits = digits := by
  unfold withoutPlus
  split
  · cases all '+' List.mem_cons_self
  · rfl

/-- Digits are read as their number when it has 32 bits. -/
theorem word32?_of_digits {digits : List Char} (all : ∀ c ∈ digits, c.isDigit) :
    word32? digits = if digits ≠ [] ∧ readDecimal digits < UInt32.size then
      some (UInt32.ofNat (readDecimal digits)) else none := by
  rw [word32?_eq, withoutPlus_of_digits all, List.all_eq_true.mpr all]
  simp

/-! ### Digits of a number -/

/-- A digit is written for its value. -/
theorem toDigits_digit {c : Char} (digit : c.isDigit) :
    c.toNat - '0'.toNat < 10 ∧ Nat.toDigits 10 (c.toNat - '0'.toNat) = [c] := by
  have bounds : 48 ≤ c.toNat ∧ c.toNat ≤ 57 := by
    simpa [Char.isDigit, UInt32.le_iff_toNat_le] using digit
  obtain ⟨d, small, value⟩ : ∃ d < 10, c.toNat = 48 + d := ⟨c.toNat - 48, by omega, by omega⟩
  have written : ∀ d < 10, Nat.toDigits 10 d = [Char.ofNat (48 + d)] := by decide
  rw [value, show '0'.toNat = 48 from rfl, Nat.add_sub_cancel_left, written d small, ← value,
    Char.ofNat_toNat]
  exact ⟨small, rfl⟩

/-- Digits behind those of a number that is not zero are the digits of the number that they lead to. -/
theorem toDigits_append_of_pos {n : Nat} (pos : 0 < n) {digits : List Char} (all : ∀ c ∈ digits, c.isDigit) :
    Nat.toDigits 10 n ++ digits = Nat.toDigits 10 (Nat.ofDigitChars 10 digits n) := by
  induction digits generalizing n with
  | nil => rw [List.append_nil, Nat.ofDigitChars_nil]
  | cons c digits ih =>
    obtain ⟨first, rest⟩ := List.forall_mem_cons.mp all
    obtain ⟨small, single⟩ := toDigits_digit first
    have longer := Nat.toDigits_append_toDigits (by decide : 1 < 10) pos small
    rw [single] at longer
    rw [Nat.ofDigitChars_cons, ← ih (by omega) rest, ← longer, List.append_assoc, List.singleton_append]

/-- Digits are those of their number behind zeros. -/
theorem exists_zeros {digits : List Char} (some : digits ≠ []) (all : ∀ c ∈ digits, c.isDigit) :
    ∃ zeros, digits = List.replicate zeros '0' ++ Nat.toDigits 10 (readDecimal digits) := by
  induction digits with
  | nil => exact absurd rfl some
  | cons c digits ih =>
    obtain ⟨first, rest⟩ := List.forall_mem_cons.mp all
    obtain ⟨small, single⟩ := toDigits_digit first
    have value : readDecimal (c :: digits) = Nat.ofDigitChars 10 digits (c.toNat - '0'.toNat) := by
      rw [readDecimal, Nat.ofDigitChars_cons, Nat.mul_zero, Nat.zero_add]
    by_cases zero : c = '0'
    · rcases List.eq_nil_or_concat digits with rfl | more
      · exact ⟨0, by rw [value, Nat.ofDigitChars_nil, single]; rfl⟩
      · obtain ⟨zeros, same⟩ := ih (by obtain ⟨_, _, rfl⟩ := more; simp) rest
        refine ⟨zeros + 1, ?_⟩
        rw [value, zero, Nat.sub_self, List.replicate_succ, List.cons_append]
        exact congrArg ('0' :: ·) same
    · have pos : 0 < c.toNat - '0'.toNat := by
        by_contra none
        rw [Nat.eq_zero_of_not_pos none] at single
        exact zero (List.cons.inj single).1.symm
      refine ⟨0, ?_⟩
      rw [value, ← toDigits_append_of_pos pos rest, single]
      rfl

theorem readDecimal_zeros (zeros n : Nat) :
    readDecimal (List.replicate zeros '0' ++ Nat.toDigits 10 n) = n := by
  rw [readDecimal, Nat.ofDigitChars_append, Nat.ofDigitChars_replicate_zero, Nat.mul_zero,
    Nat.ofDigitChars_ten_toDigits]

/-- **The numerals of 32 bits** are the digits of a number, with zeros before them and a `+` before these,
or without. -/
theorem word32?_eq_some_iff {cs : List Char} {w : UInt32} : word32? cs = some w ↔
    ∃ (sign : List Char) (zeros : Nat), (sign = [] ∨ sign = ['+']) ∧
      cs = sign ++ List.replicate zeros '0' ++ Nat.toDigits 10 w.toNat := by
  constructor
  · intro found
    rw [word32?_eq] at found
    split_ifs at found with numeral
    obtain ⟨some, all, fits⟩ := numeral
    obtain ⟨zeros, digits⟩ := exists_zeros some (List.all_eq_true.mp all)
    have value : readDecimal (withoutPlus cs) = w.toNat := by
      rw [← Option.some.inj found, UInt32.toNat_ofNat_of_lt' fits]
    rw [value] at digits
    by_cases plus : ∃ rest, cs = '+' :: rest
    · obtain ⟨rest, rfl⟩ := plus
      exact ⟨['+'], zeros, Or.inr rfl, congrArg ('+' :: ·) digits⟩
    · have bare : withoutPlus cs = cs := by
        unfold withoutPlus
        split
        · next rest => exact absurd ⟨rest, rfl⟩ plus
        · rfl
      exact ⟨[], zeros, Or.inl rfl, bare.symm.trans digits⟩
  · rintro ⟨sign, zeros, signed, rfl⟩
    have all : ∀ c ∈ List.replicate zeros '0' ++ Nat.toDigits 10 w.toNat, c.isDigit := by
      refine List.forall_mem_append.mpr ⟨fun c member => ?_, isDigit_of_mem_toDigits _⟩
      rw [List.eq_of_mem_replicate member]
      rfl
    have some : List.replicate zeros '0' ++ Nat.toDigits 10 w.toNat ≠ [] :=
      List.append_ne_nil_of_right_ne_nil _ Nat.toDigits_ne_nil
    have bare : withoutPlus (sign ++ (List.replicate zeros '0' ++ Nat.toDigits 10 w.toNat)) =
        List.replicate zeros '0' ++ Nat.toDigits 10 w.toNat := by
      rcases signed with rfl | rfl
      · exact withoutPlus_of_digits all
      · rfl
    rw [List.append_assoc, word32?_eq, bare,
      if_pos ⟨some, List.all_eq_true.mpr all, readDecimal_zeros zeros _ ▸ w.toNat_lt⟩, readDecimal_zeros,
      UInt32.ofNat_toNat]

/-! ### Hexadecimal numerals -/

theorem hexValue?_hexDigit : ∀ n < 16, hexValue? (hexDigit n) = some n := by decide

theorem isHexDigit_hexDigit {n : Nat} (small : n < 16) : isHexDigit (hexDigit n) := by
  rw [isHexDigit, hexValue?_hexDigit n small]
  rfl

theorem hexNumeral_eq (n : Nat) : hexNumeral n =
    if n < 16 then [hexDigit n] else hexNumeral (n / 16) ++ [hexDigit (n % 16)] :=
  Nat.toDigits_eq_if (by decide)

theorem isHexDigit_of_mem_hexNumeral (n : Nat) : ∀ c ∈ hexNumeral n, isHexDigit c := by
  induction n using Nat.strongRecOn with
  | ind n ih =>
    rw [hexNumeral_eq]
    split
    · next small => exact List.forall_mem_singleton.mpr (isHexDigit_hexDigit small)
    · next large =>
      refine List.forall_mem_append.mpr ⟨ih (n / 16) (by omega), List.forall_mem_singleton.mpr ?_⟩
      exact isHexDigit_hexDigit (Nat.mod_lt n (by decide))

/-- A hexadecimal numeral denotes the number that it is written for. -/
theorem readHex_hexNumeral (n : Nat) : readHex (hexNumeral n) = n := by
  induction n using Nat.strongRecOn with
  | ind n ih =>
    rw [hexNumeral_eq]
    split
    · next small => simp [readHex, hexValue?_hexDigit n small]
    · next large =>
      have front : readHex (hexNumeral (n / 16)) = n / 16 := ih (n / 16) (by omega)
      have last : hexValue? (hexDigit (n % 16)) = some (n % 16) :=
        hexValue?_hexDigit _ (Nat.mod_lt n (by decide))
      unfold readHex at front
      rw [readHex, List.foldl_append, front, List.foldl_cons, List.foldl_nil, last, Option.getD_some,
        Nat.div_add_mod]

end TunedKernel.Text
