/-
**A folder in memory.**

* `Folder` — files by their path below the folder.
* `Folder.locate?` — the file that a path leads to: `.` stays where it is, `..` leads to the folder
  around, and every folder on the way has to be there. No path leads out of the folder.
* `Folder.files` — reading and writing the files of a folder, as a change of the folder.
-/

import TunedKernel.CommandLine.Run

namespace TunedKernel.CommandLine

/-- The parts of a path. -/
abbrev Location := List String

/-- Files by their path. -/
structure Folder where
  entries : List (Location × String)
deriving DecidableEq, Repr

namespace Folder

/-- The parts of a path as it is written. -/
def parts (path : String) : Location := path.splitOn "/"

/-- The folder of the files given. -/
def ofList (files : List (String × String)) : Folder :=
  ⟨files.map fun (path, text) => (parts path, text)⟩

/-- Whether there is a folder at a place. -/
def hasFolder (folder : Folder) (place : Location) : Bool :=
  place.isEmpty ||
    folder.entries.any fun entry => place.isPrefixOf entry.1 && place.length < entry.1.length

/-- The file that the rest of a path leads to from a place. -/
def walk? (folder : Folder) (place : Location) : List String → Option Location
  | [] => none
  | part :: rest =>
    if part = "" ∨ part = "." then folder.walk? place rest
    else if part = ".." then
      if place.isEmpty then none else folder.walk? place.dropLast rest
    else if folder.hasFolder (place ++ [part]) then folder.walk? (place ++ [part]) rest
    else if rest.isEmpty then some (place ++ [part])
    else none

/-- The file that a path leads to, whether it is there or not. -/
def locate? (folder : Folder) (path : String) : Option Location :=
  if path.startsWith "/" then none else folder.walk? [] (parts path)

/-- The text of a file. -/
def read? (folder : Folder) (path : String) : Option String := do
  let place ← folder.locate? path
  (folder.entries.find? fun entry => entry.1 == place).map Prod.snd

/-- The folder with a text in a file. -/
def write? (folder : Folder) (path text : String) : Option Folder := do
  let place ← folder.locate? path
  return ⟨folder.entries.filter (fun entry => entry.1 != place) ++ [(place, text)]⟩

/-- The files of a folder that another one does not have. -/
def newFiles (before after : Folder) : List (String × String) :=
  (after.entries.filter fun entry => !before.entries.any fun old => old.1 == entry.1).map
    fun entry => ("/".intercalate entry.1, entry.2)

/-- Reading and writing the files of a folder. -/
def files : Files (StateM Folder) where
  read path := return (← get).read? path
  write path text := do
    match (← get).write? path text with
    | some folder =>
      set folder
      return true
    | none => return false

end Folder

end TunedKernel.CommandLine
