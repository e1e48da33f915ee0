/-
**Element types.**

* `NumericType.text`, `size`, `isFloat` — the name of a type in kernel code, its size in bytes,
  and whether it is a floating-point type.
* `NumericType.vectorName?` — the name of its vector type, for the widths that have one.
-/

import TunedKernel.Device.KeyError
import TunedKernel.Text.Blank

namespace TunedKernel

open TunedKernel.Text

/-- The type of the elements of an operation. -/
inductive NumericType where
  | int
  | uint
  | long
  | ulong
  | float
  | double
deriving DecidableEq, Repr

namespace NumericType

/-- Every type, in order. -/
def all : List NumericType := [int, uint, long, ulong, float, double]

theorem mem_all (t : NumericType) : t ∈ all := by cases t <;> decide

/-- The position of a type. -/
def index : NumericType → Nat
  | int => 0
  | uint => 1
  | long => 2
  | ulong => 3
  | float => 4
  | double => 5

/-- The name of a type in kernel code. -/
def text : NumericType → String
  | int => "int"
  | uint => "uint"
  | long => "long"
  | ulong => "ulong"
  | float => "float"
  | double => "double"

/-- The size of an element in bytes. -/
def size : NumericType → Nat
  | int | uint | float => 4
  | long | ulong | double => 8

/-- Whether a type is a floating-point type. -/
def isFloat : NumericType → Bool
  | float | double => true
  | _ => false

/-- Whether kernel code has vectors of this width; one is the scalar itself. -/
def isVectorWidth (width : Nat) : Bool :=
  width == 1 || width == 2 || width == 4 || width == 8 || width == 16

/-- The name of the vector type of a width, when there is one. -/
def vectorName? (t : NumericType) (width : Nat) : Option String :=
  if width = 1 then some t.text
  else if isVectorWidth width then some (t.text ++ toString width)
  else none

/-- The type of a name exactly as it is written. -/
def ofName? (s : String) : Option NumericType := all.find? fun t => t.text == s

/-- The short name of a type: a letter and its number of bits. -/
def shortName : NumericType → String
  | int => "i32"
  | uint => "u32"
  | long => "i64"
  | ulong => "u64"
  | float => "f32"
  | double => "f64"

/-- Reads the name or the short name of a type, in any case and between blanks. -/
def parse (s : String) : Except KeyError NumericType :=
  let folded := foldCase (trim s)
  match all.find? fun t => t.text == folded || t.shortName == folded with
  | some t => .ok t
  | none => .error ⟨"numeric type", s⟩

instance : Ord NumericType := ⟨compareOn index⟩

end NumericType

end TunedKernel
