/-
**Reading TOML** (version 1.0).

* `value` — a value; lists and tables between braces nest to a limited depth.
* `Line` — what a line of a document says; `line`, `document` — the scanners.
* `Line.apply` — what a line does to the document so far, and to the path of the open table.
* `read?` — the record of a document: all of its lines are well formed, and none refuses its place.
-/

import TunedKernel.Toml.Scalar
import TunedKernel.Toml.Table

namespace TunedKernel.Toml

open Scan

/-! ### Values -/

/-- A list of values, with an optional comma after the last one. -/
def listOf (item : Scan Datum) : Scan Datum := do
  char '['
  gap
  let items ← optional (separated (item <* gap) (char ',' *> gap))
  if items.isSome then
    let _ ← optional (char ',')
  gap
  char ']'
  return .list (items.getD [])

/-- A key with its value. -/
def pair (item : Scan Datum) : Scan (List String × Datum) := do
  let key ← keyPath
  char '='
  blanks
  return (key, ← item)

/-- A table between braces, on one line. -/
def tableOf (item : Scan Datum) : Scan Datum := do
  char '{'
  blanks
  let pairs ← optional (separated (pair item <* blanks) (char ','))
  char '}'
  match (pairs.getD []).foldlM (fun node (key, value) => node.define [] key value) Node.start with
  | some node => return node.datum
  | none => failure

/-- A value with at most `levels` lists and tables around its innermost part. -/
def value : Nat → Scan Datum
  | 0 => scalar
  | levels + 1 => do
    match ← peek with
    | some '[' => listOf (value levels)
    | some '{' => tableOf (value levels)
    | _ => scalar

/-- How deep lists and tables may nest. -/
def maxLevels : Nat := 79

/-! ### Lines -/

/-- What a line of a document says. -/
inductive Line where
  | empty
  | define (key : List String) (value : Datum)
  | openTable (path : List String)
  | addTable (path : List String)

/-- The content of a line. -/
def content : Scan Line := do
  match ← peek with
  | none | some '#' | some '\n' | some '\r' => return .empty
  | some '[' =>
    (do
      exactly ['[', '[']
      let path ← keyPath
      exactly [']', ']']
      return .addTable path) <|>
    (do
      char '['
      let path ← keyPath
      char ']'
      return .openTable path)
  | some _ =>
    let (key, value) ← pair (value maxLevels)
    return .define key value

/-- A line with its end. -/
def line : Scan Line := do
  blanks
  let l ← content
  lineEnd
  return l

/-- The lines of a document, which may begin with a byte order mark. -/
def document : Scan (List Line) := do
  let _ ← optional (char '\ufeff')
  let lines ← many line
  atEnd
  return lines

/-- The document so far, with the path of the open table. -/
structure Draft where
  path : List String
  root : Node

/-- What a line does to the document so far. -/
def Line.apply (draft : Draft) : Line → Option Draft
  | empty => some draft
  | define key value => do return { draft with root := ← draft.root.define draft.path key value }
  | openTable path => do return ⟨path, ← draft.root.openTable path⟩
  | addTable path => do return ⟨path, ← draft.root.addTable path⟩

/-- The record of a document. -/
def read? (source : String) : Option Datum := do
  let (lines, _) ← document.run source.toList
  let draft ← lines.foldlM Line.apply ⟨[], Node.start⟩
  return draft.root.datum

end TunedKernel.Toml
