/-
**Device classes.**
-/

import TunedKernel.Device.KeyError
import TunedKernel.Text.Blank

namespace TunedKernel

open TunedKernel.Text

/-- What kind of processor a device is. -/
inductive DeviceClass where
  | gpu
  | cpu
  | accelerator
deriving DecidableEq, Repr

namespace DeviceClass

/-- Every class, in order. -/
def all : List DeviceClass := [gpu, cpu, accelerator]

theorem mem_all (c : DeviceClass) : c ∈ all := by cases c <;> decide

/-- The position of a class. -/
def index : DeviceClass → Nat
  | gpu => 0
  | cpu => 1
  | accelerator => 2

/-- The name of a class. -/
def text : DeviceClass → String
  | gpu => "gpu"
  | cpu => "cpu"
  | accelerator => "accelerator"

/-- The class of a name exactly as it is written. -/
def ofName? (s : String) : Option DeviceClass := all.find? fun c => c.text == s

/-- Reads a class in any case and between blanks; accelerators have a short name too. -/
def parse (s : String) : Except KeyError DeviceClass :=
  let folded := foldCase (trim s)
  if folded = "acc" then .ok accelerator
  else
    match ofName? folded with
    | some c => .ok c
    | none => .error ⟨"device class", s⟩

instance : Ord DeviceClass := ⟨compareOn index⟩

end DeviceClass

end TunedKernel
