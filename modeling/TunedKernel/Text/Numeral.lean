/-
**Numerals.**

* `hexDigit n`, `hexValue? c` — one hexadecimal digit, written small and read in either case.
* `hexNumeral n` — the digits of `n` in base 16, without leading zeros.
* `readHex cs` — the number that hexadecimal digits denote.
* `word32? cs` — an unsigned decimal numeral of at most 32 bits, with an optional `+` before it.
* `readWhileFits n cs` — the number that the digits of `n` and then those of `cs` spell, as far as 64
  bits hold it, and the digits left over.
-/

namespace TunedKernel.Text

/-- The hexadecimal digit of a number below sixteen, in small letters. -/
def hexDigit (n : Nat) : Char := Nat.digitChar n

/-- The value of a hexadecimal digit in either case. -/
def hexValue? (c : Char) : Option Nat :=
  if '0' ≤ c ∧ c ≤ '9' then some (c.toNat - '0'.toNat)
  else if 'a' ≤ c ∧ c ≤ 'f' then some (c.toNat - 'a'.toNat + 10)
  else if 'A' ≤ c ∧ c ≤ 'F' then some (c.toNat - 'A'.toNat + 10)
  else none

/-- Whether `c` is a hexadecimal digit. -/
def isHexDigit (c : Char) : Bool := (hexValue? c).isSome

/-- The digits of `n` in base sixteen, most significant first. -/
def hexNumeral (n : Nat) : List Char := Nat.toDigits 16 n

/-- The number that hexadecimal digits denote. -/
def readHex (cs : List Char) : Nat :=
  cs.foldl (fun n c => 16 * n + (hexValue? c).getD 0) 0

/-- The number that decimal digits denote. -/
def readDecimal (cs : List Char) : Nat := Nat.ofDigitChars 10 cs 0

/-- The number that the digits of `n` and then those of `cs` spell, up to the first digit with which
it would not fit 64 bits any more, and the digits from there on. -/
def readWhileFits (n : Nat) : List Char → Nat × List Char
  | [] => (n, [])
  | c :: cs =>
    let longer := 10 * n + (c.toNat - '0'.toNat)
    if longer < UInt64.size then readWhileFits longer cs else (n, c :: cs)

/-- What is read fits 64 bits. -/
theorem readWhileFits_lt {n : Nat} (cs : List Char) (fits : n < UInt64.size) :
    (readWhileFits n cs).1 < UInt64.size := by
  induction cs generalizing n with
  | nil => exact fits
  | cons c cs ih =>
    simp only [readWhileFits]
    split
    next longer => exact ih longer
    next => exact fits

/-- An unsigned decimal numeral of at most 32 bits: a `+` may stand before it and it may have
leading zeros. -/
def word32? (cs : List Char) : Option UInt32 :=
  let digits := match cs with
    | '+' :: rest => rest
    | _ => cs
  if digits ≠ [] ∧ digits.all Char.isDigit ∧ readDecimal digits < UInt32.size then
    some (UInt32.ofNat (readDecimal digits))
  else none

end TunedKernel.Text
