/-
**Pages: lines of code by depth.**

* `Line` — a line of text and the depth at which it stands; `Line.render` indents it by four blanks
  for each level, except that an empty line stays empty.
* `Page` — the lines written so far and the present depth, with the steps of a writer: a line, a
  block opened or closed, and the depth moved by hand.
* `Page.render` — the text of a page.
-/

namespace TunedKernel

/-- A line of text at some depth. -/
structure Line where
  depth : Nat
  text : String
deriving DecidableEq, Repr

namespace Line

/-- The blanks in front of a line. -/
def indent (depth : Nat) : String := String.ofList (List.replicate (4 * depth) ' ')

/-- A line with its indentation and its end. -/
def render (l : Line) : String :=
  if l.text = "" then "\n" else indent l.depth ++ l.text ++ "\n"

/-- Lines one after the other. -/
def renderAll (ls : List Line) : String := String.join (ls.map render)

/-- The line that opens a block. -/
def opening (depth : Nat) : Line := ⟨depth, "\x7b"⟩

/-- The line that closes a block. -/
def closing (depth : Nat) : Line := ⟨depth, "\x7d"⟩

end Line

/-- The lines written so far, and the depth at which the next one stands. -/
structure Page where
  lines : List Line
  depth : Nat
deriving DecidableEq, Repr

namespace Page

/-- Nothing written yet. -/
def empty : Page := ⟨[], 0⟩

/-- Writes lines that carry their own depth. -/
def append (page : Page) (lines : List Line) : Page := { page with lines := page.lines ++ lines }

/-- Writes a line at the present depth. -/
def line (page : Page) (text : String) : Page := page.append [⟨page.depth, text⟩]

/-- Writes an empty line. -/
def blank (page : Page) : Page := page.append [⟨0, ""⟩]

/-- Moves one level in. -/
def deepen (page : Page) : Page := { page with depth := page.depth + 1 }

/-- Moves one level out; the outermost level has none around it. -/
def lift (page : Page) : Page := { page with depth := page.depth - 1 }

/-- Opens a block under a header; without a header the block stands alone. -/
def openBlock (page : Page) (header : String) : Page :=
  let page := if header = "" then page else page.line header
  (page.append [Line.opening page.depth]).deepen

/-- Closes the innermost block. -/
def closeBlock (page : Page) : Page :=
  let page := page.lift
  page.append [Line.closing page.depth]

/-- The text of a page. -/
def render (page : Page) : String := Line.renderAll page.lines

end Page

end TunedKernel
