/-
**Tokens of JSON text** (RFC 8259).

* `Token` — a bracket, a mark, a word, a numeral or a string.
* `scanString`, `scanNumeral` — the longest string body and numeral at the front of a text.
* `Piece`, `joinPieces` — the pieces a string is written in, and the text they spell; a numbered
  piece is a 16-bit unit, so two of them may make one character and one alone may make none.
* `Token.scan` — the first token of a text that does not begin with a blank.
* `tokens` — the tokens of a text.

Every scanner that finds something leaves less text than it was given (`scanString_shorter`,
`scanNumeral_shorter`, `Token.scan_shorter`), which is why the walk over a text ends.
-/

import TunedKernel.Text.Numeral

namespace TunedKernel.Json

open TunedKernel.Text

/-- A number as it is written. -/
structure Numeral where
  negative : Bool
  whole : List Char
  /-- The digits after the point. -/
  fraction : Option (List Char)
  /-- The sign of the exponent, with its digits. -/
  exponent : Option (Bool × List Char)
deriving DecidableEq, Repr

/-- A token of JSON text. -/
inductive Token where
  | openRecord
  | closeRecord
  | openList
  | closeList
  | colon
  | comma
  | null
  | flag (value : Bool)
  | number (numeral : Numeral)
  /-- A string; it has no text when one of its numbered units is half a surrogate pair. -/
  | string (text : Option String)
deriving DecidableEq, Repr

/-! ### Strings -/

/-- A piece of a string: a character, or the number of a 16-bit unit. -/
inductive Piece where
  | char (c : Char)
  | unit (n : Nat)
deriving DecidableEq, Repr

/-- Whether a 16-bit unit begins a surrogate pair. -/
def isLeading (n : Nat) : Bool := 0xd800 ≤ n && n < 0xdc00

/-- Whether a 16-bit unit ends a surrogate pair. -/
def isTrailing (n : Nat) : Bool := 0xdc00 ≤ n && n < 0xe000

/-- The text that pieces spell; there is none when a surrogate stands alone. -/
def joinPieces : List Piece → Option (List Char)
  | [] => some []
  | .char c :: rest => (joinPieces rest).map (c :: ·)
  | .unit high :: .unit low :: rest =>
    if isLeading high then
      if isTrailing low then
        (joinPieces rest).map
          (Char.ofNat (0x10000 + (high - 0xd800) * 0x400 + (low - 0xdc00)) :: ·)
      else none
    else if isTrailing high then none
    else (joinPieces (.unit low :: rest)).map (Char.ofNat high :: ·)
  | .unit n :: rest =>
    if isLeading n || isTrailing n then none
    else (joinPieces rest).map (Char.ofNat n :: ·)

/-- The character that a short escape stands for. -/
def shortEscape? : Char → Option Char
  | '"' => some '"'
  | '\\' => some '\\'
  | '/' => some '/'
  | 'b' => some '\x08'
  | 'f' => some '\x0c'
  | 'n' => some '\n'
  | 'r' => some '\r'
  | 't' => some '\t'
  | _ => none

/-- The pieces of a string up to its closing quote, and what follows the quote. A character below
U+0020 cannot stand in a string as it is. -/
def scanString : List Char → Option (List Piece × List Char)
  | [] => none
  | '"' :: rest => some ([], rest)
  | '\\' :: 'u' :: a :: b :: c :: d :: rest =>
    if [a, b, c, d].all isHexDigit then
      (scanString rest).map fun (pieces, after) => (.unit (readHex [a, b, c, d]) :: pieces, after)
    else none
  | '\\' :: e :: rest =>
    match shortEscape? e with
    | some c => (scanString rest).map fun (pieces, after) => (.char c :: pieces, after)
    | none => none
  | c :: rest =>
    if c.toNat < 0x20 || c == '\\' then none
    else (scanString rest).map fun (pieces, after) => (.char c :: pieces, after)

theorem scanString_shorter {cs after : List Char} {pieces : List Piece}
    (found : scanString cs = some (pieces, after)) : after.length < cs.length := by
  fun_induction scanString cs generalizing pieces after with
  | case1 => simp at found
  | case2 rest => simp_all
  | case3 a b c d rest _ ih =>
    obtain ⟨⟨ps, left⟩, scanned, same⟩ := Option.map_eq_some_iff.mp found
    have := ih scanned
    simp_all
    omega
  | case4 => simp at found
  | case5 e rest _ c _ ih =>
    obtain ⟨⟨ps, left⟩, scanned, same⟩ := Option.map_eq_some_iff.mp found
    have := ih scanned
    simp_all
    omega
  | case6 => simp at found
  | case7 => simp at found
  | case8 c rest _ _ _ _ ih =>
    obtain ⟨⟨ps, left⟩, scanned, same⟩ := Option.map_eq_some_iff.mp found
    have := ih scanned
    simp_all
    omega

/-! ### Numerals -/

/-- The digits at the front of a text, when there is one, and what follows them. -/
def scanDigits (cs : List Char) : Option (List Char × List Char) :=
  match cs.takeWhile Char.isDigit with
  | [] => none
  | digits => some (digits, cs.dropWhile Char.isDigit)

theorem scanDigits_shorter {cs after digits : List Char}
    (found : scanDigits cs = some (digits, after)) : after.length < cs.length := by
  match cs with
  | [] => simp [scanDigits] at found
  | c :: rest =>
    by_cases digit : c.isDigit
    · simp only [scanDigits, List.takeWhile_cons, digit, if_true, Option.some.injEq, Prod.mk.injEq,
        List.dropWhile_cons] at found
      rw [← found.2]
      exact Nat.lt_succ_of_le (List.dropWhile_sublist _).length_le
    · simp [scanDigits, digit] at found

/-- The digits before the point: zero alone, or digits that do not begin with zero. -/
def scanWhole (cs : List Char) : Option (List Char × List Char) :=
  match cs with
  | '0' :: rest => some (['0'], rest)
  | _ => scanDigits cs

theorem scanWhole_shorter {cs after digits : List Char}
    (found : scanWhole cs = some (digits, after)) : after.length < cs.length := by
  unfold scanWhole at found
  split at found
  · simp_all
  · exact scanDigits_shorter found

/-- A point with the digits after it, when a point stands there. -/
def scanFraction (cs : List Char) : Option (Option (List Char) × List Char) :=
  match cs with
  | '.' :: rest => (scanDigits rest).map fun (digits, after) => (some digits, after)
  | _ => some (none, cs)

theorem scanFraction_no_longer {cs after : List Char} {digits : Option (List Char)}
    (found : scanFraction cs = some (digits, after)) : after.length ≤ cs.length := by
  unfold scanFraction at found
  split at found
  · obtain ⟨⟨ds, left⟩, scanned, same⟩ := Option.map_eq_some_iff.mp found
    have := scanDigits_shorter scanned
    simp_all
    omega
  · simp_all

/-- An exponent, when its mark stands there. -/
def scanExponent (cs : List Char) : Option (Option (Bool × List Char) × List Char) :=
  match cs with
  | [] => some (none, [])
  | mark :: rest =>
    if mark == 'e' || mark == 'E' then
      match rest with
      | '-' :: digits => (scanDigits digits).map fun (ds, after) => (some (true, ds), after)
      | '+' :: digits => (scanDigits digits).map fun (ds, after) => (some (false, ds), after)
      | digits => (scanDigits digits).map fun (ds, after) => (some (false, ds), after)
    else some (none, mark :: rest)

theorem scanExponent_no_longer {cs after : List Char} {exponent : Option (Bool × List Char)}
    (found : scanExponent cs = some (exponent, after)) : after.length ≤ cs.length := by
  unfold scanExponent at found
  split at found
  · simp_all
  · split at found
    · split at found
      all_goals
        obtain ⟨⟨ds, left⟩, scanned, same⟩ := Option.map_eq_some_iff.mp found
        have := scanDigits_shorter scanned
        simp_all
        omega
    · simp_all

/-- The numeral without its sign at the front of a text, and what follows it. -/
def scanUnsigned (negative : Bool) (cs : List Char) : Option (Numeral × List Char) := do
  let (whole, cs) ← scanWhole cs
  let (fraction, cs) ← scanFraction cs
  let (exponent, cs) ← scanExponent cs
  return (⟨negative, whole, fraction, exponent⟩, cs)

theorem scanUnsigned_shorter {negative : Bool} {cs after : List Char} {numeral : Numeral}
    (found : scanUnsigned negative cs = some (numeral, after)) : after.length < cs.length := by
  simp only [scanUnsigned, bind, Option.bind_eq_some_iff, Prod.exists] at found
  obtain ⟨whole, cs₁, wholeFound, fraction, cs₂, fractionFound, exponent, cs₃, exponentFound,
    same⟩ := found
  have := scanWhole_shorter wholeFound
  have := scanFraction_no_longer fractionFound
  have := scanExponent_no_longer exponentFound
  simp_all
  omega

/-- The numeral at the front of a text, and what follows it. -/
def scanNumeral (cs : List Char) : Option (Numeral × List Char) :=
  match cs with
  | '-' :: rest => scanUnsigned true rest
  | _ => scanUnsigned false cs

theorem scanNumeral_shorter {cs after : List Char} {numeral : Numeral}
    (found : scanNumeral cs = some (numeral, after)) : after.length < cs.length := by
  unfold scanNumeral at found
  split at found
  · exact Nat.lt_succ_of_lt (scanUnsigned_shorter found)
  · exact scanUnsigned_shorter found

/-! ### Tokens -/

/-- The first token of a text that does not begin with a blank, and what follows it. -/
def Token.scan : List Char → Option (Token × List Char)
  | '{' :: rest => some (.openRecord, rest)
  | '}' :: rest => some (.closeRecord, rest)
  | '[' :: rest => some (.openList, rest)
  | ']' :: rest => some (.closeList, rest)
  | ':' :: rest => some (.colon, rest)
  | ',' :: rest => some (.comma, rest)
  | 'n' :: 'u' :: 'l' :: 'l' :: rest => some (.null, rest)
  | 't' :: 'r' :: 'u' :: 'e' :: rest => some (.flag true, rest)
  | 'f' :: 'a' :: 'l' :: 's' :: 'e' :: rest => some (.flag false, rest)
  | '"' :: rest =>
    (scanString rest).map fun (pieces, after) =>
      (.string ((joinPieces pieces).map String.ofList), after)
  | cs => (scanNumeral cs).map fun (numeral, after) => (.number numeral, after)

theorem Token.scan_shorter {cs after : List Char} {token : Token}
    (found : Token.scan cs = some (token, after)) : after.length < cs.length := by
  unfold Token.scan at found
  split at found
  case h_10 rest =>
    obtain ⟨⟨pieces, left⟩, scanned, same⟩ := Option.map_eq_some_iff.mp found
    have := scanString_shorter scanned
    simp_all
    omega
  case h_11 =>
    obtain ⟨⟨numeral, left⟩, scanned, same⟩ := Option.map_eq_some_iff.mp found
    have := scanNumeral_shorter scanned
    simp_all
  all_goals
    obtain ⟨rfl, rfl⟩ := Prod.mk.injEq .. ▸ Option.some.inj found
    simp only [List.length_cons]
    omega

/-- Whether a character may stand between tokens. -/
def isSpace (c : Char) : Bool := c == ' ' || c == '\t' || c == '\n' || c == '\r'

/-- The tokens of a text, when it is made of tokens and blanks only. -/
def tokens (cs : List Char) : Option (List Token) :=
  match cs with
  | [] => some []
  | c :: rest =>
    if isSpace c then tokens rest
    else
      match _found : Token.scan (c :: rest) with
      | none => none
      | some (token, after) => (tokens after).map (token :: ·)
termination_by cs.length
decreasing_by
  · simp
  · exact Token.scan_shorter _found

end TunedKernel.Json
