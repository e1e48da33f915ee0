/-
**Programs.**

* `Argument` — an argument of a kernel, and how it is passed.
* `Kernel` — an entry point: its arguments, its geometry, its code, and the memory it needs.
* `Program` — the kernels that carry out an operation, with the tag of the record they are tuned by.
* `Program.source` — the text of a program: its kernels with an empty line between them.
* `Kernel.checkLimits`, `Program.checkLimits` — refuse what a device does not offer.
-/

import TunedKernel.Device.Basic
import TunedKernel.Kernel.Code
import TunedKernel.Kernel.Geometry
import TunedKernel.Operation.Refusal

namespace TunedKernel

/-- How an argument is passed. -/
inductive Argument.Kind where
  /-- A buffer of the device. -/
  | buffer (element : String)
  /-- A value. -/
  | value (type : String)
  /-- The size that a symbol stands for. -/
  | size
deriving DecidableEq, Repr

/-- An argument of a kernel. -/
structure Argument where
  name : String
  kind : Argument.Kind
deriving DecidableEq, Repr

/-- An argument as it stands in the signature. -/
def Argument.declaration (a : Argument) : String :=
  match a.kind with
  | .buffer element => "__global " ++ element ++ "* " ++ a.name
  | .value type => type ++ " " ++ a.name
  | .size => "unsigned int " ++ a.name

/-- An entry point of a program. -/
structure Kernel where
  name : String
  arguments : List Argument
  geometry : Geometry
  /-- The bytes of local memory that a group uses. -/
  localMemBytes : Nat
  /-- The elements of the scratch buffer, zero without one. -/
  scratchElements : Nat
  body : Code
deriving DecidableEq, Repr

namespace Kernel

/-- The lines of a kernel: its attribute, its signature and its body. -/
def lines (k : Kernel) : List Line :=
  ⟨0, "__kernel " ++ k.geometry.attributeText⟩ ::
    ⟨0, "void " ++ k.name ++ "(" ++ ", ".intercalate (k.arguments.map Argument.declaration) ++ ")"⟩ ::
    Line.opening 0 :: (k.body.lines 1 ++ [Line.closing 0])

/-- Refuses a kernel whose groups are too large for a device. -/
def checkLimits (k : Kernel) (limits : Limits) : Except Refusal Unit :=
  if limits.maxWorkGroupSize.toNat < k.geometry.workers then
    .error (.exceedsLimits k.name
      s!"work-group size ({k.geometry.workers}) exceeds maximum ({limits.maxWorkGroupSize.toNat})")
  else if limits.localMemBytes.toNat < k.localMemBytes then
    .error (.exceedsLimits k.name
      (s!"local memory ({k.localMemBytes} bytes) exceeds maximum " ++
        s!"({limits.localMemBytes.toNat} bytes)"))
  else .ok ()

end Kernel

/-- The kernels that carry out an operation. -/
structure Program where
  kernels : List Kernel
  /-- The tag of the record that the kernels are tuned by. -/
  profile : String
deriving DecidableEq, Repr

namespace Program

/-- The lines of a program, with an empty one between two kernels. -/
def lines (p : Program) : List Line :=
  [(⟨0, ""⟩ : Line)].intercalate (p.kernels.map Kernel.lines)

/-- The text of a program. -/
def source (p : Program) : String := Line.renderAll p.lines

/-- The kernel of a name. -/
def kernel? (p : Program) (name : String) : Option Kernel :=
  p.kernels.find? fun k => k.name == name

/-- Refuses the first kernel that is too large for a device. -/
def checkLimits (p : Program) (limits : Limits) : Except Refusal Unit :=
  p.kernels.forM fun k => k.checkLimits limits

end Program

end TunedKernel
