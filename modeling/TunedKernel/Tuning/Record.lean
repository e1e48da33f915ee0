/-
**Tuned records: what is common to all kinds.**

A tuned record is a short list of named settings, numbers of 32 bits and switches.

* `Setting` — the value of one setting.
* `TunedRecord P` — a kind of record: its title, its settings in order, its short tag, and the
  check that a record is consistent.
* `Flaw` — why a record is not consistent.
* `TunedRecord.summary`, `TunedRecord.datum` — a record in full, as a line and in a document.
* `readSettings` — the settings of a record in a document, which holds nothing else.
-/

import TunedKernel.Data.Datum
import TunedKernel.Device.NumericType
import TunedKernel.Fault

namespace TunedKernel

/-- The value of a setting. -/
inductive Setting where
  | number (n : UInt32)
  | switch (on : Bool)
deriving DecidableEq, Repr

namespace Setting

/-- A setting as it is written. -/
def text : Setting → String
  | .number n => toString n.toNat
  | .switch true => "true"
  | .switch false => "false"

/-- A setting in a document. -/
def datum : Setting → Datum
  | .number n => Datum.ofNat n.toNat
  | .switch on => .flag on

end Setting

/-- Why a record is not consistent. -/
inductive Flaw where
  /-- The vector width is none that kernel code has. -/
  | width (width : UInt32)
  /-- A size is zero. -/
  | zero (setting : String)
  /-- The step does not divide the depth of a tile. -/
  | step (step depth : UInt32)
  /-- The fetch shape has not as many workers as the group. -/
  | fetch (first second : UInt32) (workers : Nat)
deriving DecidableEq, Repr

/-- The report of a flaw. -/
def Flaw.message : Flaw → String
  | .width w => s!"`simd_width` {w.toNat} is not a vector width"
  | .zero setting => s!"`{setting}` must be positive"
  | .step ks kl => s!"`ks` {ks.toNat} must divide `kl` {kl.toNat}"
  | .fetch first second workers =>
    s!"fetch shape {first.toNat}x{second.toNat} must cover the {workers} workers of a group"

/-- A kind of tuned record. -/
class TunedRecord (P : Type) where
  title : String
  /-- The settings in order. -/
  settings : P → List (String × Setting)
  /-- A short text that tells records of this kind apart. -/
  tag : P → String
  /-- Refuses a record that is not consistent. -/
  check : P → Except (Fault Flaw) Unit
  /-- The record of a document. -/
  ofDatum? : Datum → Option P

namespace TunedRecord

variable {P : Type} [TunedRecord P]

/-- A record with its title and all settings. -/
def summary (p : P) : String :=
  title P ++ " \x7b " ++
    ", ".intercalate ((settings p).map fun (name, setting) => name ++ ": " ++ setting.text) ++
    " \x7d"

/-- A record's tag and the record in full, on one line. -/
def line (p : P) : String := tag p ++ " " ++ summary p

/-- A record in a document. -/
def datum (p : P) : Datum :=
  .record ((settings p).map fun (name, setting) => (name, setting.datum))

end TunedRecord

/-! ### Checks -/

/-- Refuses a width that kernel code has no vectors of. -/
def checkWidth (width : UInt32) : Except (Fault Flaw) Unit :=
  require (NumericType.isVectorWidth width.toNat) (.width width)

/-- Refuses the first size that is zero. -/
def checkPositive (sizes : List (String × UInt32)) : Except (Fault Flaw) Unit :=
  match sizes.find? fun size => size.2 == 0 with
  | some (name, _) => refuse (.zero name)
  | none => .ok ()

/-- The members of a record that has no other settings than those named. -/
def readSettings (names : List String) (d : Datum) : Option Members := do
  let members ← d.record?
  if members.onlyNamed names then some members else none

end TunedKernel
