/-
**Scanners over characters.**

A scanner reads a value from the front of a text and answers with what follows it, or with nothing
when the text does not begin as wanted; alternatives begin again at the same place.

* `Scan`, `satisfy`, `char`, `exactly`, `takeWhile`, `take`, `atEnd` — the elementary scanners.
* `many` — a scanner repeated as long as it succeeds and uses up text.
* `blanks`, `newline`, `comment`, `lineEnd`, `gap` — what may stand between the parts of a TOML
  document.
-/

namespace TunedKernel.Toml

/-- Reads a value from the front of a text. -/
abbrev Scan (α : Type) : Type := StateT (List Char) Option α

namespace Scan

/-- One character that satisfies a test. -/
def satisfy (p : Char → Bool) : Scan Char := fun
  | c :: rest => if p c then some (c, rest) else none
  | [] => none

/-- One given character. -/
def char (c : Char) : Scan Unit := do
  let _ ← satisfy (· == c)

/-- The given characters one after the other. -/
def exactly (cs : List Char) : Scan Unit := cs.forM char

/-- The characters at the front that satisfy a test. -/
def takeWhile (p : Char → Bool) : Scan (List Char) := fun cs =>
  some (cs.takeWhile p, cs.dropWhile p)

/-- As many characters as given, each of which satisfies a test. -/
def take (n : Nat) (p : Char → Bool) : Scan (List Char) := fun cs =>
  let taken := cs.take n
  if taken.length = n ∧ taken.all p then some (taken, cs.drop n) else none

/-- The next character, which stays where it is. -/
def peek : Scan (Option Char) := fun cs => some (cs.head?, cs)

/-- The end of the text. -/
def atEnd : Scan Unit := fun
  | [] => some ((), [])
  | _ => none

/-- Runs a scanner that is given as a function. -/
def ofFunction {α : Type} (f : List Char → Option (α × List Char)) : Scan α := f

/-- The values that a scanner reads one after the other, as long as it uses up text. -/
def manyFrom {α : Type} (p : Scan α) (cs : List Char) : List α × List Char :=
  match p cs with
  | none => ([], cs)
  | some (x, rest) =>
    if rest.length < cs.length then
      let (xs, after) := manyFrom p rest
      (x :: xs, after)
    else ([], cs)
termination_by cs.length

/-- The values that a scanner reads one after the other, as long as it uses up text. -/
def many {α : Type} (p : Scan α) : Scan (List α) := fun cs => some (manyFrom p cs)

/-- Values with separators between them, at least one. -/
def separated {α : Type} (p : Scan α) (separator : Scan Unit) : Scan (List α) := do
  let first ← p
  let others ← many (separator *> p)
  return first :: others

end Scan

open Scan

/-! ### Between the parts of a document -/

/-- A blank inside a line. -/
def isBlank (c : Char) : Bool := c == ' ' || c == '\t'

/-- A character that may stand in a comment: no control but the tab. -/
def isPlain (c : Char) : Bool := c == '\t' || (0x20 ≤ c.toNat && c.toNat ≠ 0x7f)

/-- Blanks inside a line. -/
def blanks : Scan Unit := do
  let _ ← takeWhile isBlank

/-- The end of a line. -/
def newline : Scan Unit := exactly ['\n'] <|> exactly ['\r', '\n']

/-- A comment, up to the end of its line. -/
def comment : Scan Unit := do
  char '#'
  let _ ← takeWhile isPlain

/-- The rest of a line after its content. -/
def lineEnd : Scan Unit := do
  blanks
  let _ ← optional comment
  newline <|> atEnd

/-- Blanks, comments and ends of lines. -/
def gap : Scan Unit := do
  let _ ← many ((do let _ ← satisfy isBlank) <|> newline <|> (comment *> newline))

end TunedKernel.Toml
