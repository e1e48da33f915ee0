/-
**Devices.**

A device is described by its vendor, class, family, model name and the element type computed with.
With an empty name the same description stands for a whole family, and with an unknown vendor and
family as well for everything of its class: tuned records are kept under such descriptions.

* `Device.globalDefault` — the description of everything of one class, for one element type.
* `Device.text` — the five parts with slashes between them.
* `Device.datum`, `Device.ofDatum?` — the form in a document.
* `Device.order` — by vendor, class, family, name and type.
* `Limits` — what a launch may ask of a device.
-/

import TunedKernel.Device.Architecture
import TunedKernel.Device.DeviceClass
import TunedKernel.Device.NumericType
import TunedKernel.Device.Vendor
import TunedKernel.Text.Quoted

namespace TunedKernel

open TunedKernel.Text

/-- A device, or the devices that a record is tuned for. -/
structure Device where
  vendor : Vendor
  deviceClass : DeviceClass
  architecture : Architecture
  /-- The exact model name, empty when it is not known. -/
  name : String
  numericType : NumericType
deriving DecidableEq, Repr

namespace Device

/-- The description that everything of one class falls back to. -/
def globalDefault (deviceClass : DeviceClass) (numericType : NumericType) : Device :=
  ⟨Vendor.unknown, deviceClass, .unknown, "", numericType⟩

/-- A device as it is written. -/
def text (d : Device) : String :=
  d.vendor.text ++ "/" ++ d.deviceClass.text ++ "/" ++ d.architecture.text ++ "/" ++
    quoted d.name ++ "/" ++ d.numericType.text

/-- The members of a device in a document. -/
def members (d : Device) : Members :=
  [("vendor", d.vendor.datum), ("class", .text d.deviceClass.text),
    ("architecture", .text d.architecture.text), ("name", .text d.name),
    ("numeric_type", .text d.numericType.text)]

/-- A device in a document. -/
def datum (d : Device) : Datum := .record d.members

/-- The device that a record of a document describes; all five members have to stand there. -/
def ofDatum? (d : Datum) : Option Device := do
  let members ← d.record?
  return {
    vendor := ← members.read? "vendor" Vendor.ofDatum?
    deviceClass := ← members.read? "class" fun d => d.text?.bind DeviceClass.ofName?
    architecture := ← members.read? "architecture" fun d => d.text?.bind Architecture.ofName?
    name := ← members.read? "name" Datum.text?
    numericType := ← members.read? "numeric_type" fun d => d.text?.bind NumericType.ofName? }

/-- Devices are ordered by vendor, class, family, name and element type, in this order. -/
def order : Device → Device → Ordering :=
  compareLex (compareOn vendor) <| compareLex (compareOn deviceClass) <|
    compareLex (compareOn architecture) <| compareLex (compareOn name) (compareOn numericType)

instance : Ord Device := ⟨order⟩

end Device

/-- What a launch may ask of a device. -/
structure Limits where
  maxWorkGroupSize : UInt32
  localMemBytes : UInt64
deriving DecidableEq, Repr

namespace Limits

/-- What every device offers. -/
def minimum : Limits := ⟨256, 32 * 1024⟩

/-- Limits in a document. -/
def datum (l : Limits) : Datum :=
  .record [("max_work_group_size", Datum.ofNat l.maxWorkGroupSize.toNat),
    ("local_mem_bytes", Datum.ofNat l.localMemBytes.toNat)]

/-- The limits that a record of a document states. -/
def ofDatum? (d : Datum) : Option Limits := do
  let members ← d.record?
  return {
    maxWorkGroupSize := ← members.read? "max_work_group_size" Datum.word32?
    localMemBytes := ← members.read? "local_mem_bytes" Datum.word64? }

end Limits

end TunedKernel
