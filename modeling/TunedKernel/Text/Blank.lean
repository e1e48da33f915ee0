/-
**White space in free text.**

* `isBlank c` — `c` has the Unicode property White_Space (25 characters).
* `trim s` — `s` without the blanks at its two ends.
* `runs p cs` — the maximal runs of characters of `cs` that satisfy `p`, in order.
* `words s` — the maximal runs of characters that are not blank.
* `foldCase s` — `s` with the ASCII capital letters made small; no other letter changes.
-/

namespace TunedKernel.Text

/-- Whether `c` has the Unicode property White_Space. -/
def isBlank (c : Char) : Bool :=
  let n := c.toNat
  (0x9 ≤ n && n ≤ 0xd) || n == 0x20 || n == 0x85 || n == 0xa0 || n == 0x1680 ||
    (0x2000 ≤ n && n ≤ 0x200a) || n == 0x2028 || n == 0x2029 || n == 0x202f || n == 0x205f ||
    n == 0x3000

/-- The blanks of core's ASCII test are blanks. -/
theorem isBlank_of_isWhitespace {c : Char} (white : c.isWhitespace = true) :
    isBlank c = true := by
  simp only [Char.isWhitespace, Bool.or_eq_true, decide_eq_true_eq] at white
  rcases white with ((rfl | rfl) | rfl) | rfl <;> rfl

/-- A text without the blanks at its two ends. -/
def trim (s : String) : String :=
  String.ofList ((s.toList.dropWhile isBlank).reverse.dropWhile isBlank).reverse

/-! ### Maximal runs -/

/-- A run in front of the runs that follow it; an empty run is none. -/
def pushRun (run : List Char) (rest : List (List Char)) : List (List Char) :=
  if run.isEmpty then rest else run :: rest

/-- The run that `cs` begins with, empty when the first character does not satisfy `p`, and the
runs after it. -/
def runsFrom (p : Char → Bool) : List Char → List Char × List (List Char)
  | [] => ([], [])
  | c :: cs =>
    let (run, rest) := runsFrom p cs
    if p c then (c :: run, rest) else ([], pushRun run rest)

/-- The maximal runs of characters that satisfy `p`, in order. -/
def runs (p : Char → Bool) (cs : List Char) : List (List Char) :=
  pushRun (runsFrom p cs).1 (runsFrom p cs).2

/-- The words of a text: its maximal runs of characters that are not blank. -/
def words (s : String) : List String :=
  (runs (fun c => !isBlank c) s.toList).map String.ofList

/-! ### Case -/

/-- A text with the ASCII capital letters made small. -/
def foldCase (s : String) : String :=
  String.ofList (s.toList.map Char.toLower)

end TunedKernel.Text
