/-
**Families from device names.**

The family of a device follows from its vendor and the name its driver reports.

* `Architecture.ofBoard?` — NVIDIA's compute boards carry the letter of the family before a number.
* `Architecture.ofModel` — the family of an NVIDIA model number.
* `Architecture.modelNumber?` — the first run of at least three digits that is a 32-bit number.
* `Architecture.ofChip?` — AMD's chips are known by their code names.
* `Architecture.detect` — the family of a vendor's device.
-/

import TunedKernel.Device.Architecture
import TunedKernel.Device.Vendor

namespace TunedKernel.Architecture

open TunedKernel.Text

/-- The family of a word that begins with its letter and a digit. -/
def ofBoard? (word : List Char) : Option Architecture :=
  match word with
  | letter :: digit :: _ =>
    if digit.isDigit then
      if letter == 'K' then some kepler
      else if letter == 'M' then some maxwell
      else none
    else none
  | _ => none

/-- The first run of at least three digits that is a number of 32 bits. -/
def modelNumber? (name : String) : Option UInt32 :=
  (runs Char.isDigit name.toList).findSome? fun digits =>
    if 3 ≤ digits.length then word32? digits else none

/-- The family of an NVIDIA model number: the 8000 and 9000 series and the series from 200 to 900.
Two models of the 700 series have a chip of the next family. -/
def ofModel (n : Nat) : Architecture :=
  if 8000 ≤ n ∧ n ≤ 9999 then tesla
  else if 200 ≤ n ∧ n ≤ 399 then tesla
  else if 400 ≤ n ∧ n ≤ 599 then fermi
  else if n = 745 ∨ n = 750 then maxwell
  else if 600 ≤ n ∧ n ≤ 799 then kepler
  else if 900 ≤ n ∧ n ≤ 999 then maxwell
  else unknown

/-- The family of an NVIDIA device: a board's letter decides before the model number. -/
def ofNvidiaName (name : String) : Architecture :=
  match (words name).findSome? fun word => ofBoard? word.toList with
  | some family => family
  | none =>
    match modelNumber? name with
    | some n => ofModel n.toNat
    | none => unknown

/-- The code names of the chips of each AMD family, in small letters. -/
def chips : List (Architecture × List String) :=
  [(evergreen, ["cypress", "hemlock", "juniper", "redwood", "cedar"]),
    (northernIslands, ["cayman", "barts", "turks", "caicos"]),
    (southernIslands, ["tahiti", "pitcairn", "cape verde", "capeverde", "oland"]),
    (volcanicIslands, ["tonga", "fiji", "iceland", "carrizo"])]

/-- Whether `part` stands somewhere in `cs`. -/
def occursIn (part : List Char) : List Char → Bool
  | [] => part.isEmpty
  | c :: cs => part.isPrefixOf (c :: cs) || occursIn part cs

/-- The first family with a chip whose code name stands in the name of the device. -/
def ofChip? (name : String) : Option Architecture :=
  let folded := (foldCase name).toList
  (chips.find? fun family => family.2.any fun chip => occursIn chip.toList folded).map Prod.fst

/-- The family of a vendor's device. -/
def detect (vendor : Vendor) (name : String) : Architecture :=
  if vendor = Vendor.nvidia then ofNvidiaName name
  else if vendor = Vendor.amd then (ofChip? name).getD unknown
  else unknown

end TunedKernel.Architecture
