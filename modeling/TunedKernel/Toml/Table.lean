/-
**Tables of TOML under construction.**

A document fills its tables from several places: a header opens a table, a dotted key makes tables
on its way, and a header in double brackets adds one more table to an array. Whether a table may be
filled further depends on how it came about.

* `Origin` — how a table came about: by its own header, on the way of a header, or on the way of a
  dotted key.
* `Node` — a finished value, a table, or an array of tables, the last one first.
* `Node.define` — puts a value under a dotted key. A table with a header of its own takes no more
  values that way, and no name is given twice.
* `Node.openTable`, `Node.addTable` — what a header does: opens a table, which no header has opened
  and no dotted key has made, or adds a table to an array.
-/

import TunedKernel.Data.Datum

namespace TunedKernel.Toml

/-- How a table came about. -/
inductive Origin where
  /-- By its own header, or between braces, or as the document itself. -/
  | header
  /-- On the way of a header. -/
  | implied
  /-- On the way of a dotted key. -/
  | dotted
deriving DecidableEq, Repr

/-- A part of a document under construction. -/
inductive Node where
  | leaf (value : Datum)
  | table (origin : Origin) (members : List (String × Node))
  /-- An array of tables, the last one first. -/
  | array (tables : List Node)

namespace Node

/-- A change of a table, which may be refused. -/
abbrev Change := Origin → List (String × Node) → Option Node

/-- The document before its first line. -/
def start : Node := table .header []

/-- Changes the member of a name; one that is not there yet comes last. -/
def alter (name : String) (f : Option Node → Option Node) :
    List (String × Node) → Option (List (String × Node))
  | [] => (f none).map fun node => [(name, node)]
  | (other, node) :: members =>
    if other = name then (f (some node)).map fun node => (name, node) :: members
    else (alter name f members).map fun members => (other, node) :: members

/-- Changes the table that a node is, or the last table of an array. -/
def inTable (f : Change) : Node → Option Node
  | leaf _ => none
  | table origin members => f origin members
  | array (table origin members :: others) =>
    (f origin members).map fun node => array (node :: others)
  | array _ => none

/-- Whether a step of a path may enter a node: a dotted key passes by no table with a header. -/
def admits (way : Origin) : Node → Bool
  | table .header _ => way ≠ .dotted
  | _ => true

/-- Changes the table at the end of a path, making the tables on the way. -/
def descend (way : Origin) (f : Change) : List String → Change
  | [], origin, members => f origin members
  | name :: path, origin, members =>
    (alter name (fun child =>
      let node := child.getD (table way [])
      if admits way node then inTable (descend way f path) node else none) members).map
        (table origin)

/-- Puts a value under a name that is not taken. -/
def insert (name : String) (value : Datum) (members : List (String × Node)) :
    Option (List (String × Node)) :=
  alter name (fun | none => some (leaf value) | some _ => none) members

/-- Puts a value under a dotted key of the table at the end of a path. The table that receives the
value is one that the key has made, unless the key has one part only. -/
def define (way : List String) (key : List String) (value : Datum) (node : Node) : Option Node :=
  match key.getLast? with
  | none => none
  | some name =>
    let last : Change := fun origin members =>
      if (origin = .dotted) = (key.dropLast = []) then none
      else (insert name value members).map (table origin)
    inTable (descend .implied (descend .dotted last key.dropLast) way) node

/-- Opens the table at the end of a path. -/
def openTable (path : List String) (node : Node) : Option Node :=
  match path.getLast? with
  | none => none
  | some name =>
    inTable (descend .implied (fun origin members =>
      (alter name (fun
        | none => some (table .header [])
        | some (table .implied members) => some (table .header members)
        | some _ => none) members).map (table origin)) path.dropLast) node

/-- Adds a table to the array at the end of a path. -/
def addTable (path : List String) (node : Node) : Option Node :=
  match path.getLast? with
  | none => none
  | some name =>
    inTable (descend .implied (fun origin members =>
      (alter name (fun
        | none => some (array [table .header []])
        | some (array tables) => some (array (table .header [] :: tables))
        | some _ => none) members).map (table origin)) path.dropLast) node

mutual

/-- The value that a node stands for. -/
def datum : Node → Datum
  | leaf value => value
  | table _ members => .record (memberData members)
  | array tables => .list (tableData tables).reverse

/-- The values of members. -/
def memberData : List (String × Node) → List (String × Datum)
  | [] => []
  | (name, node) :: members => (name, datum node) :: memberData members

/-- The values of tables. -/
def tableData : List Node → List Datum
  | [] => []
  | node :: nodes => datum node :: tableData nodes

end

end Node

end TunedKernel.Toml
