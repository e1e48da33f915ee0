/-
**Micro-architecture families.**
-/

import TunedKernel.Device.KeyError
import TunedKernel.Text.Blank

namespace TunedKernel

open TunedKernel.Text

/-- A vendor's family of micro-architectures: four of NVIDIA, then four of AMD. -/
inductive Architecture where
  | unknown
  | tesla
  | fermi
  | kepler
  | maxwell
  | evergreen
  | northernIslands
  | southernIslands
  | volcanicIslands
deriving DecidableEq, Repr

namespace Architecture

/-- Every family, in order. -/
def all : List Architecture :=
  [unknown, tesla, fermi, kepler, maxwell, evergreen, northernIslands, southernIslands,
    volcanicIslands]

theorem mem_all (a : Architecture) : a ∈ all := by cases a <;> decide

/-- The position of a family. -/
def index : Architecture → Nat
  | unknown => 0
  | tesla => 1
  | fermi => 2
  | kepler => 3
  | maxwell => 4
  | evergreen => 5
  | northernIslands => 6
  | southernIslands => 7
  | volcanicIslands => 8

/-- The name of a family. -/
def text : Architecture → String
  | unknown => "unknown"
  | tesla => "tesla"
  | fermi => "fermi"
  | kepler => "kepler"
  | maxwell => "maxwell"
  | evergreen => "evergreen"
  | northernIslands => "northern_islands"
  | southernIslands => "southern_islands"
  | volcanicIslands => "volcanic_islands"

/-- The family of a name exactly as it is written. -/
def ofName? (s : String) : Option Architecture := all.find? fun a => a.text == s

/-- A hyphen or a space as the underscore that names are joined with. -/
def joined (c : Char) : Char := if c == '-' || c == ' ' then '_' else c

/-- Reads a family in any case and between blanks, its words joined by underscores, hyphens or
spaces. The empty text is the unknown family. -/
def parse (s : String) : Except KeyError Architecture :=
  let folded := String.ofList ((foldCase (trim s)).toList.map joined)
  if folded = "" then .ok unknown
  else
    match ofName? folded with
    | some a => .ok a
    | none => .error ⟨"architecture", s⟩

instance : Ord Architecture := ⟨compareOn index⟩

end Architecture

end TunedKernel
