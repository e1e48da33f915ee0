/-
**Quoted text.**

A text between double quotes, on one line and readable whatever it holds.

* `quotedChar c` — a character as it stands between the quotes: the common controls, quotes and
  backslashes are escaped by a letter or themselves, other hidden characters by their number in
  braces.
* `quoted s` — the whole text with its quotes.
-/

import TunedKernel.Text.Hidden
import TunedKernel.Text.Numeral

namespace TunedKernel.Text

/-- A character as it stands between the quotes. -/
def quotedChar (c : Char) : List Char :=
  match c with
  | '\x00' => ['\\', '0']
  | '\t' => ['\\', 't']
  | '\r' => ['\\', 'r']
  | '\n' => ['\\', 'n']
  | '"' => ['\\', '"']
  | '\\' => ['\\', '\\']
  | c => if isHidden c then '\\' :: 'u' :: '{' :: hexNumeral c.toNat ++ ['}'] else [c]

/-- A text between double quotes. -/
def quoted (s : String) : String :=
  String.ofList ('"' :: s.toList.flatMap quotedChar ++ ['"'])

end TunedKernel.Text
