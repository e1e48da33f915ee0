/-
**Writing JSON.**

* `escape c` — a character as it stands in a string: quotes, backslashes and the characters below
  U+0020 are escaped, the usual ones by a letter and the others by four hexadecimal digits.
* `quote text` — a text as a JSON string.
* `write d` — a value without any blank, members in their order.
-/

import TunedKernel.Data.Datum
import TunedKernel.Text.Numeral

namespace TunedKernel.Json

open TunedKernel.Text

/-- A character as it stands in a string. -/
def escape (c : Char) : List Char :=
  match c with
  | '"' => ['\\', '"']
  | '\\' => ['\\', '\\']
  | '\x08' => ['\\', 'b']
  | '\x0c' => ['\\', 'f']
  | '\n' => ['\\', 'n']
  | '\r' => ['\\', 'r']
  | '\t' => ['\\', 't']
  | c =>
    if c.toNat < 0x20 then
      ['\\', 'u', '0', '0', hexDigit (c.toNat / 16), hexDigit (c.toNat % 16)]
    else [c]

/-- A text as a JSON string. -/
def quote (text : String) : List Char :=
  '"' :: text.toList.flatMap escape ++ ['"']

mutual

/-- The characters of a value. Numbers that are no integers, and broken parts, have no written
form of their own and stand as `null`. -/
def writeChars : Datum → List Char
  | .flag true => ['t', 'r', 'u', 'e']
  | .flag false => ['f', 'a', 'l', 's', 'e']
  | .integer (.ofNat n) => Nat.toDigits 10 n
  | .integer (.negSucc n) => '-' :: Nat.toDigits 10 (n + 1)
  | .text value => quote value
  | .list items => '[' :: writeItems items ++ [']']
  | .record members => '{' :: writeMembers members ++ ['}']
  | .null | .other | .broken => ['n', 'u', 'l', 'l']

/-- Items with commas between them. -/
def writeItems : List Datum → List Char
  | [] => []
  | [item] => writeChars item
  | item :: items => writeChars item ++ ',' :: writeItems items

/-- Members with commas between them. -/
def writeMembers : List (String × Datum) → List Char
  | [] => []
  | [(name, value)] => quote name ++ ':' :: writeChars value
  | (name, value) :: members => quote name ++ ':' :: writeChars value ++ ',' :: writeMembers members

end

/-- The JSON text of a value, without any blank. -/
def write (d : Datum) : String := String.ofList (writeChars d)

end TunedKernel.Json
