/-
**Stores of tuned records.**

A draft collects records under device descriptions; the last registration of a description counts.
A complete draft, one with the global default of every class and element type, freezes into a
store, which answers for every device.

* `Draft.insert`, `Draft.defaults` — the registrations.
* `Levels` — vendor, class, family, name and type lead, level by level, to what stands under a key.
* `Draft.freeze` — the store of a complete draft, its records in slots in the order of their keys.
* `Store.globalSlot` — the slot of a global default, from a table by class and element type.
* `Store.resolve` — the slot of the best record for a device, and the tier of the answer: the exact
  device, its family, or the global default.
* `Store.entries` — every record with its key, in order.
-/

import Std.Data.TreeMap
import TunedKernel.Device.Basic
import TunedKernel.Diagnostic

namespace TunedKernel

open Std (TreeMap)

/-- A store lacks a global default. -/
structure Incomplete where
  table : String
  deviceClass : DeviceClass
  numericType : NumericType
deriving DecidableEq, Repr

/-- The report of a missing global default. -/
def Incomplete.diagnostic (e : Incomplete) : Diagnostic :=
  { code := "store::missing_global_default"
    message := s!"Table `{e.table}` has no global default for " ++
      s!"{e.deviceClass.text}/{e.numericType.text}"
    help := some
      "register an entry under the unknown vendor, unknown architecture and empty name" }

/-- Which level of the fallback chain an answer comes from. -/
inductive Tier where
  /-- Vendor, class, family, name and type are all those of the device. -/
  | exact
  /-- The record of the device's family. -/
  | family
  /-- The record of everything of the device's class. -/
  | global
deriving DecidableEq, Repr

/-- A tier as it is written. -/
def Tier.text : Tier → String
  | exact => "exact match"
  | family => "architecture default"
  | global => "global default"

/-! ### Drafts -/

/-- The records registered so far. -/
structure Draft (P : Type) where
  records : TreeMap Device P

/-- The classes and element types that a store needs a global default for, class by class. -/
def globalPairs : List (DeviceClass × NumericType) :=
  DeviceClass.all.flatMap fun deviceClass =>
    NumericType.all.map fun numericType => (deviceClass, numericType)

theorem mem_globalPairs (deviceClass : DeviceClass) (numericType : NumericType) :
    (deviceClass, numericType) ∈ globalPairs := by
  simp [globalPairs, DeviceClass.mem_all, NumericType.mem_all]

/-- The place of a class and element type in a table with a row for every class. -/
def globalPlace (deviceClass : DeviceClass) (numericType : NumericType) : Nat :=
  deviceClass.index * NumericType.all.length + numericType.index

theorem globalPlace_lt (deviceClass : DeviceClass) (numericType : NumericType) :
    globalPlace deviceClass numericType < globalPairs.length := by
  cases deviceClass <;> cases numericType <;> decide

namespace Draft

variable {P : Type}

/-- A draft without records. -/
def empty : Draft P := ⟨{}⟩

/-- Registers a record, in place of an earlier one under the same key. -/
def insert (draft : Draft P) (key : Device) (record : P) : Draft P :=
  ⟨draft.records.insert key record⟩

/-- Registers one record as the global default of every class and element type. -/
def defaults (draft : Draft P) (record : P) : Draft P :=
  globalPairs.foldl (fun draft pair => draft.insert (.globalDefault pair.1 pair.2) record) draft

/-- The number of keys with a record. -/
def size (draft : Draft P) : Nat := draft.records.size

/-- The record under a key. -/
def get? (draft : Draft P) (key : Device) : Option P := draft.records[key]?

end Draft

/-! ### Levels -/

/-- From vendor to class to family to name to element type. -/
abbrev Levels (α : Type) : Type :=
  TreeMap Vendor (TreeMap DeviceClass (TreeMap Architecture (TreeMap String (TreeMap NumericType α))))

namespace Levels

variable {α : Type}

/-- The names under a vendor, class and family. -/
def names? (levels : Levels α) (key : Device) : Option (TreeMap String (TreeMap NumericType α)) := do
  let classes ← levels[key.vendor]?
  let families ← classes[key.deviceClass]?
  families[key.architecture]?

/-- What stands under a key. -/
def find? (levels : Levels α) (key : Device) : Option α := do
  let names ← levels.names? key
  let types ← names[key.name]?
  types[key.numericType]?

/-- Puts a value under a key, adding the levels that are not there yet. -/
def insert (levels : Levels α) (key : Device) (value : α) : Levels α :=
  let classes := levels.getD key.vendor {}
  let families := classes.getD key.deviceClass {}
  let names := families.getD key.architecture {}
  let types := names.getD key.name {}
  TreeMap.insert levels key.vendor <| classes.insert key.deviceClass <|
    families.insert key.architecture <| names.insert key.name <| types.insert key.numericType value

/-- Every key with its value, in order. -/
def toList (levels : Levels α) : List (Device × α) :=
  (TreeMap.toList levels).flatMap fun (vendor, classes) =>
    classes.toList.flatMap fun (deviceClass, families) =>
      families.toList.flatMap fun (architecture, names) =>
        names.toList.flatMap fun (name, types) =>
          types.toList.map fun (numericType, value) =>
            (⟨vendor, deviceClass, architecture, name, numericType⟩, value)

end Levels

/-! ### Stores -/

/-- A frozen table: records in slots, and the levels that lead to the slots. -/
structure Store (P : Type) where
  table : String
  /-- The number of records. -/
  size : Nat
  records : Vector P size
  levels : Levels (Fin size)
  /-- The slot of the global default of every class and element type, class by class. -/
  defaults : Vector (Fin size) globalPairs.length

namespace Draft

variable {P : Type}

/-- The levels that lead from each key to its position. -/
def slots (keys : Array Device) : Levels (Fin keys.size) :=
  (List.finRange keys.size).foldl (fun levels slot => levels.insert keys[slot] slot) {}

/-- The first class and element type without a global default, class by class. -/
def missing? {α : Type} (levels : Levels α) : Option (DeviceClass × NumericType) :=
  globalPairs.find? fun pair => (levels.find? (.globalDefault pair.1 pair.2)).isNone

theorem isSome_of_missing?_eq_none {α : Type} {levels : Levels α}
    (nothing : missing? levels = none) (deviceClass : DeviceClass) (numericType : NumericType) :
    (levels.find? (.globalDefault deviceClass numericType)).isSome := by
  have present := List.find?_eq_none.mp nothing _ (mem_globalPairs deviceClass numericType)
  simpa [Option.isSome_iff_ne_none] using present

/-- What stands under the global default of every class and element type, class by class. -/
def defaultSlots {α : Type} (levels : Levels α) (nothing : missing? levels = none) :
    Vector α globalPairs.length :=
  .ofFn fun place => (levels.find? (.globalDefault globalPairs[place].1 globalPairs[place].2)).get
    (isSome_of_missing?_eq_none nothing _ _)

/-- Freezes a draft under the name of its table. The records go into slots in the order of their
keys. A draft that lacks a global default is refused. -/
def freeze (draft : Draft P) (table : String) : Except Incomplete (Store P) :=
  let entries := draft.records.toArray
  let keys := entries.map Prod.fst
  let levels := slots keys
  match found : missing? levels with
  | some (deviceClass, numericType) => .error ⟨table, deviceClass, numericType⟩
  | none => .ok {
      table := table
      size := keys.size
      records := ⟨entries.map Prod.snd, by simp [keys]⟩
      levels := levels
      defaults := defaultSlots levels found }

end Draft

namespace Store

variable {P : Type}

/-- A place for a record. -/
abbrev Slot (store : Store P) : Type := Fin store.size

/-- The record in a slot. -/
def record (store : Store P) (slot : store.Slot) : P := store.records[slot]

/-- The slot of the global default of a class and element type. -/
def globalSlot (store : Store P) (deviceClass : DeviceClass) (numericType : NumericType) :
    store.Slot :=
  have inside := globalPlace_lt deviceClass numericType
  store.defaults[globalPlace deviceClass numericType]

/-- The tier of a record kept for a whole family; the unknown family of the unknown vendor is the
global level itself. -/
def familyTier (device : Device) : Tier :=
  if device.vendor = Vendor.unknown ∧ device.architecture = .unknown then .global else .family

/-- The slot of the best record for a device, and its tier. Without records of the vendor, the
class or the family the answer is the global default. Without a record of the name and type it is
the record of the family, and failing that the global default. -/
def resolve (store : Store P) (device : Device) : store.Slot × Tier :=
  let global := (store.globalSlot device.deviceClass device.numericType, Tier.global)
  match store.levels.names? device with
  | none => global
  | some names =>
    match (names[device.name]?).bind fun types => types[device.numericType]? with
    | some slot => (slot, if device.name = "" then familyTier device else .exact)
    | none =>
      match (names[""]?).bind fun types => types[device.numericType]? with
      | some slot => (slot, familyTier device)
      | none => global

/-- The best record for a device. -/
def best (store : Store P) (device : Device) : P := store.record (store.resolve device).1

/-- Every record with its key, in order. -/
def entries (store : Store P) : List (Device × P) :=
  store.levels.toList.map fun (key, slot) => (key, store.record slot)

end Store

end TunedKernel
