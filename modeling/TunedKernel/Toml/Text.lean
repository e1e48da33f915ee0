/-
**Strings and keys of TOML.**

* `basicBody`, `literalBody` — the body of a string on one line, with and without escapes.
* `longBasicBody`, `longLiteralBody` — the body of a string over several lines. The end of a line is
  one character however it is written; up to two quotes may stand before the closing three; a
  backslash at the end of a line skips the blanks and ends of lines after it.
* `string` — a string of any kind; `keyPath` — a key, its parts joined by points.
-/

import TunedKernel.Text.Numeral
import TunedKernel.Toml.Scan

namespace TunedKernel.Toml

open Scan TunedKernel.Text

/-- A character in front of the text read after it. -/
def prepend (c : Char) (read : Option (List Char × List Char)) :
    Option (List Char × List Char) :=
  read.map fun (cs, rest) => (c :: cs, rest)

/-- The character of a numbered escape; surrogates have none. -/
def numbered? (digits : List Char) : Option Char :=
  if digits.all isHexDigit then
    let n := readHex digits
    if n.isValidChar then some (Char.ofNat n) else none
  else none

/-- The character that a short escape stands for. -/
def shortEscape? : Char → Option Char
  | 'b' => some '\x08'
  | 't' => some '\t'
  | 'n' => some '\n'
  | 'f' => some '\x0c'
  | 'r' => some '\r'
  | '"' => some '"'
  | '\\' => some '\\'
  | _ => none

/-- The body of a string between double quotes, and what follows its closing quote. -/
def basicBody : List Char → Option (List Char × List Char)
  | [] => none
  | '"' :: rest => some ([], rest)
  | '\\' :: 'u' :: a :: b :: c :: d :: rest =>
    match numbered? [a, b, c, d] with
    | some e => prepend e (basicBody rest)
    | none => none
  | '\\' :: 'U' :: a :: b :: c :: d :: e :: f :: g :: h :: rest =>
    match numbered? [a, b, c, d, e, f, g, h] with
    | some e => prepend e (basicBody rest)
    | none => none
  | '\\' :: c :: rest =>
    match shortEscape? c with
    | some e => prepend e (basicBody rest)
    | none => none
  | c :: rest => if isPlain c && c != '\\' then prepend c (basicBody rest) else none

/-- The body of a string between single quotes, and what follows its closing quote. -/
def literalBody : List Char → Option (List Char × List Char)
  | [] => none
  | '\'' :: rest => some ([], rest)
  | c :: rest => if isPlain c then prepend c (literalBody rest) else none

/-- Whether blanks and then the end of a line stand at the front. -/
def endsLine (cs : List Char) : Bool :=
  match cs.dropWhile isBlank with
  | '\n' :: _ => true
  | '\r' :: '\n' :: _ => true
  | _ => false

/-- The body of a string over several lines between double quotes. While `skipping`, blanks and ends
of lines are passed over. -/
def longBasicBody (skipping : Bool) : List Char → Option (List Char × List Char)
  | [] => none
  | '"' :: '"' :: '"' :: '"' :: '"' :: rest => some (['"', '"'], rest)
  | '"' :: '"' :: '"' :: '"' :: rest => some (['"'], rest)
  | '"' :: '"' :: '"' :: rest => some ([], rest)
  | '\r' :: '\n' :: rest =>
    if skipping then longBasicBody true rest else prepend '\n' (longBasicBody false rest)
  | '\\' :: 'u' :: a :: b :: c :: d :: rest =>
    match numbered? [a, b, c, d] with
    | some e => prepend e (longBasicBody false rest)
    | none => none
  | '\\' :: 'U' :: a :: b :: c :: d :: e :: f :: g :: h :: rest =>
    match numbered? [a, b, c, d, e, f, g, h] with
    | some e => prepend e (longBasicBody false rest)
    | none => none
  | '\\' :: c :: rest =>
    match shortEscape? c with
    | some e => prepend e (longBasicBody false rest)
    | none => if endsLine (c :: rest) then longBasicBody true (c :: rest) else none
  | c :: rest =>
    if skipping && (isBlank c || c == '\n') then longBasicBody true rest
    else if (isPlain c || c == '\n') && c != '\\' then prepend c (longBasicBody false rest)
    else none

/-- The body of a string over several lines between single quotes. -/
def longLiteralBody : List Char → Option (List Char × List Char)
  | [] => none
  | '\'' :: '\'' :: '\'' :: '\'' :: '\'' :: rest => some (['\'', '\''], rest)
  | '\'' :: '\'' :: '\'' :: '\'' :: rest => some (['\''], rest)
  | '\'' :: '\'' :: '\'' :: rest => some ([], rest)
  | '\r' :: '\n' :: rest => prepend '\n' (longLiteralBody rest)
  | c :: rest => if isPlain c || c == '\n' then prepend c (longLiteralBody rest) else none

/-- A string on one line. -/
def shortString : Scan String :=
  String.ofList <$>
    ((char '"' *> ofFunction basicBody) <|> (char '\'' *> ofFunction literalBody))

/-- A string over several lines; an end of line right after its opening quotes does not count. -/
def longString : Scan String :=
  String.ofList <$>
    ((exactly ['"', '"', '"'] *> optional newline *> ofFunction (longBasicBody false)) <|>
      (exactly ['\'', '\'', '\''] *> optional newline *> ofFunction longLiteralBody))

/-- Whether three equal quotes stand at the front, which begin a string over several lines. -/
def opensLong : Scan Bool := fun cs =>
  some (['"', '"', '"'].isPrefixOf cs || ['\'', '\'', '\''].isPrefixOf cs, cs)

/-- A string of any kind. -/
def string : Scan String := do
  if ← opensLong then longString else shortString

/-- Whether a character may stand in a key without quotes. -/
def isBare (c : Char) : Bool := c.isAlphanum || c == '_' || c == '-'

/-- A part of a key. -/
def simpleKey : Scan String := shortString <|> (do
  let cs ← takeWhile isBare
  if cs.isEmpty then failure else return String.ofList cs)

/-- How many parts a key may have at most. -/
def maxParts : Nat := 79

/-- A key, its parts joined by points. -/
def keyPath : Scan (List String) := do
  let parts ← separated (blanks *> simpleKey <* blanks) (char '.')
  if parts.length ≤ maxParts then return parts else failure

end TunedKernel.Toml
