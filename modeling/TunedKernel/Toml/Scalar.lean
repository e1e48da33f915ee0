/-
**Numbers, dates and truth values of TOML.**

* `digits` — a group of digits, which single underscores may part.
* `integer` in four bases, `decimal` — an integer of 64 bits with a sign, or a number with a point or
  an exponent; one that is too large is refused.
* `date`, `time`, `moment` — calendar dates and times of day.
* `scalar` — a value that holds no other values.
-/

import TunedKernel.Data.Datum
import TunedKernel.Text.Precision
import TunedKernel.Toml.Text

namespace TunedKernel.Toml

open Scan TunedKernel.Text

/-! ### Numbers -/

/-- Whether underscores stand only between two digits. -/
def wellParted : List Char → Bool
  | [] => false
  | ['_'] => false
  | [_] => true
  | '_' :: _ => false
  | _ :: '_' :: '_' :: _ => false
  | _ :: '_' :: rest => wellParted rest
  | _ :: rest => wellParted rest

/-- A group of digits without the underscores between them. -/
def digits (isDigit : Char → Bool) : Scan (List Char) := do
  let cs ← takeWhile fun c => isDigit c || c == '_'
  if wellParted cs then return cs.filter (· != '_') else failure

/-- A sign; whether it is a minus. -/
def sign : Scan Bool := (char '-' *> pure true) <|> (char '+' *> pure false) <|> pure false

/-- An integer of 64 bits, the sign included, as a value. -/
def word (n : Int) : Scan Datum :=
  let limit : Nat := UInt64.size / 2
  if -(limit : Int) ≤ n ∧ n < limit then return .integer n else failure

/-- An integer in a base given by its letter, without a sign. -/
def based (letter : Char) (base : Nat) (isDigit : Char → Bool) : Scan Datum := do
  exactly ['0', letter]
  let cs ← digits isDigit
  word (cs.foldl (fun n c => base * n + (hexValue? c).getD 0) 0 : Nat)

/-- The digits before the point: zero alone, or digits that do not begin with zero. -/
def whole : Scan (List Char) := do
  let cs ← digits Char.isDigit
  if cs.head? = some '0' ∧ cs ≠ ['0'] then failure else return cs

/-- A point with the digits after it. -/
def fraction : Scan (List Char) := char '.' *> digits Char.isDigit

/-- An exponent. -/
def exponent : Scan Int := do
  char 'e' <|> char 'E'
  let negative ← sign
  let n := readDecimal (← digits Char.isDigit)
  return if negative then -(n : Int) else n

/-- A number in base ten. -/
def decimal : Scan Datum := do
  let negative ← sign
  let ahead ← whole
  let after ← optional fraction
  let power ← optional exponent
  if after.isNone && power.isNone then
    let n := readDecimal ahead
    word (if negative then -(n : Int) else n)
  else
    let after := after.getD []
    let tooLarge := exceedsDouble (readDecimal (ahead ++ after)) (power.getD 0 - after.length)
    if tooLarge && !negative then failure else return .other

/-- A number that has a name. -/
def named : Scan Datum := do
  let _ ← sign
  exactly ['i', 'n', 'f'] <|> exactly ['n', 'a', 'n']
  return .other

/-! ### Dates -/

/-- A number of a fixed count of digits within limits. -/
def numeral (count least greatest : Nat) : Scan Nat := do
  let n := readDecimal (← take count Char.isDigit)
  if least ≤ n ∧ n ≤ greatest then return n else failure

/-- Whether a year has a leap day. -/
def isLeap (year : Nat) : Bool := year % 4 = 0 && (year % 100 ≠ 0 || year % 400 = 0)

/-- The days of a month. -/
def daysIn (year month : Nat) : Nat :=
  if month = 2 then (if isLeap year then 29 else 28)
  else if month = 4 ∨ month = 6 ∨ month = 9 ∨ month = 11 then 30
  else 31

/-- A date of the calendar. -/
def date : Scan Unit := do
  let year ← numeral 4 0 9999
  char '-'
  let month ← numeral 2 1 12
  char '-'
  let _ ← numeral 2 1 (daysIn year month)

/-- A time of the day; a minute may have a leap second. -/
def time : Scan Unit := do
  let _ ← numeral 2 0 23
  char ':'
  let _ ← numeral 2 0 59
  char ':'
  let _ ← numeral 2 0 60
  let _ ← optional (do
    char '.'
    let cs ← takeWhile Char.isDigit
    if cs.isEmpty then failure else return ())

/-- The distance of a time from universal time. -/
def offset : Scan Unit := char 'Z' <|> char 'z' <|> (do
  char '+' <|> char '-'
  let _ ← numeral 2 0 23
  char ':'
  let _ ← numeral 2 0 59)

/-- A date, a time, or a date with a time. -/
def moment : Scan Datum := do
  (do
    date
    let _ ← optional (do
      char 'T' <|> char 't' <|> char ' '
      time
      let _ ← optional offset)) <|> time
  return .other

/-! ### Scalars -/

/-- A value that holds no other values. -/
def scalar : Scan Datum :=
  (Datum.text <$> string) <|>
  (exactly ['t', 'r', 'u', 'e'] *> pure (.flag true)) <|>
  (exactly ['f', 'a', 'l', 's', 'e'] *> pure (.flag false)) <|>
  moment <|> named <|>
  based 'x' 16 isHexDigit <|>
  based 'o' 8 (fun c => '0' ≤ c && c ≤ '7') <|>
  based 'b' 2 (fun c => c == '0' || c == '1') <|>
  decimal

end TunedKernel.Toml
