/-
**Vendors.**

A vendor is its PCI id. Four ids have a name, which is how they are written.

* `Vendor.knownName?`, `Vendor.text` — the name of an id, and how an id is written.
* `Vendor.parse` — reads a name, a company name or an id, in any case and between blanks.
* `Vendor.datum`, `Vendor.ofDatum?` — the form in a document: a name, or else a number.
-/

import TunedKernel.Data.Datum
import TunedKernel.Device.KeyError
import TunedKernel.Text.Blank
import TunedKernel.Text.Numeral

namespace TunedKernel

open TunedKernel.Text

/-- A vendor, by its PCI id. -/
structure Vendor where
  id : UInt32
deriving DecidableEq, Repr

namespace Vendor

/-- The vendor of a device nothing is known about. -/
def unknown : Vendor := ⟨0⟩

def amd : Vendor := ⟨4098⟩

def nvidia : Vendor := ⟨4318⟩

def intel : Vendor := ⟨32902⟩

/-- The name of a vendor that has one. -/
def knownName? (v : Vendor) : Option String :=
  if v = unknown then some "unknown"
  else if v = amd then some "amd"
  else if v = nvidia then some "nvidia"
  else if v = intel then some "intel"
  else none

/-- A vendor as it is written: its name, or else its id. -/
def text (v : Vendor) : String :=
  v.knownName?.getD (toString v.id.toNat)

/-- The vendor that a text without blanks around it and in small letters stands for. -/
def ofFolded? (s : String) : Option Vendor :=
  if s = "unknown" ∨ s = "" then some unknown
  else if s = "amd" ∨ s = "advanced micro devices, inc." then some amd
  else if s = "nvidia" ∨ s = "nvidia corporation" then some nvidia
  else if s = "intel" ∨ s = "intel(r) corporation" then some intel
  else (word32? s.toList).map Vendor.mk

/-- Reads a vendor's name or id. -/
def parse (s : String) : Except KeyError Vendor :=
  match ofFolded? (foldCase (trim s)) with
  | some v => .ok v
  | none => .error ⟨"vendor", s⟩

/-- A vendor in a document: its name, or else its id as a number. -/
def datum (v : Vendor) : Datum :=
  match v.knownName? with
  | some name => .text name
  | none => Datum.ofNat v.id.toNat

/-- The vendor that a value of a document stands for. -/
def ofDatum? (d : Datum) : Option Vendor :=
  match d with
  | .text s => (parse s).toOption
  | d => d.word32?.map Vendor.mk

instance : Ord Vendor := ⟨compareOn Vendor.id⟩

end Vendor

end TunedKernel
