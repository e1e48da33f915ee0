/-
**Launch geometry.**

* `Triple` — a value for each of three dimensions.
* `Bindings` — the sizes that symbols stand for at launch.
* `GroupCount` — the number of groups along a dimension: fixed, or as many as cover an extent.
* `Geometry` — the shape and number of the groups of a launch.
* `Geometry.workers` — the workers of a group; `Geometry.globalSize?` — the work-items along each
  dimension, formed in 64 bits, once every symbol is bound.
-/

import TunedKernel.Fault
import TunedKernel.Operation.Operand

namespace TunedKernel

/-- A value for each of three dimensions. -/
structure Triple (α : Type) where
  first : α
  second : α
  third : α
deriving DecidableEq, Repr

namespace Triple

variable {α β : Type}

/-- The values in order. -/
def toList (t : Triple α) : List α := [t.first, t.second, t.third]

/-- A function of each value. -/
def map (f : α → β) (t : Triple α) : Triple β := ⟨f t.first, f t.second, f t.third⟩

/-- The values with commas between them. -/
def text (f : α → String) (t : Triple α) : String := ", ".intercalate (t.toList.map f)

end Triple

/-- The sizes that symbols stand for. -/
abbrev Bindings := String → Option UInt64

/-- The size that an extent stands for. -/
def Extent.value? (e : Extent) (bindings : Bindings) : Option Nat :=
  match e with
  | .fixed n => some n.toNat
  | .symbol name => (bindings name).map UInt64.toNat

/-- The number of groups along a dimension. -/
inductive GroupCount where
  | fixed (n : Nat)
  /-- As many tiles as cover an extent. -/
  | cover (extent : Extent) (tile : Nat)
deriving DecidableEq, Repr

namespace GroupCount

/-- The least number of tiles that cover an extent; an empty tile counts as one element. -/
def tiles (extent tile : Nat) : Nat :=
  let tile := max tile 1
  (extent + tile - 1) / tile

/-- The number of groups once the symbol is bound. -/
def count? (g : GroupCount) (bindings : Bindings) : Option Nat :=
  match g with
  | fixed n => some n
  | cover extent tile => (extent.value? bindings).map fun n => tiles n tile

/-- A number of groups as it is written. -/
def text : GroupCount → String
  | fixed n => toString n
  | cover extent tile => "ceil(" ++ extent.text ++ "/" ++ toString tile ++ ")"

end GroupCount

/-- The shape and number of the groups of a launch. -/
structure Geometry where
  dimensions : Nat
  /-- The workers of a group along each dimension. -/
  localSizes : Triple Nat
  groups : Triple GroupCount
deriving DecidableEq, Repr

namespace Geometry

/-- Groups along one dimension. -/
def line (size : Nat) (groups : GroupCount) : Geometry :=
  ⟨1, ⟨size, 1, 1⟩, ⟨groups, .fixed 1, .fixed 1⟩⟩

/-- Groups along two dimensions. -/
def plane (size₀ size₁ : Nat) (groups₀ groups₁ : GroupCount) : Geometry :=
  ⟨2, ⟨size₀, size₁, 1⟩, ⟨groups₀, groups₁, .fixed 1⟩⟩

/-- The workers of a group. -/
def workers (g : Geometry) : Nat := g.localSizes.first * g.localSizes.second * g.localSizes.third

/-- The work-items along one dimension, when its symbol is bound. -/
def extent? {ε : Type} (bindings : Bindings) (size : Nat) (groups : GroupCount) :
    Except (Fault ε) (Option Nat) :=
  match groups.count? bindings with
  | none => .ok none
  | some n => (Word.bits64.mul size n).map some

/-- The work-items along each dimension. They are formed in order: an unbound symbol ends the
computation before the dimensions after it are looked at. -/
def globalSize? {ε : Type} (g : Geometry) (bindings : Bindings) :
    Except (Fault ε) (Option (Triple Nat)) := do
  let some first ← extent? bindings g.localSizes.first g.groups.first | return none
  let some second ← extent? bindings g.localSizes.second g.groups.second | return none
  let some third ← extent? bindings g.localSizes.third g.groups.third | return none
  return some ⟨first, second, third⟩

/-- The attribute that fixes the shape of a group. -/
def attributeText (g : Geometry) : String :=
  "__attribute__((reqd_work_group_size(" ++ g.localSizes.text toString ++ ")))"

/-- A geometry as it is written. -/
def text (g : Geometry) : String :=
  toString g.dimensions ++ "D local (" ++ g.localSizes.text toString ++ ") groups (" ++
    g.groups.text GroupCount.text ++ ")"

end Geometry

end TunedKernel
