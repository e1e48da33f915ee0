/-
**Data: what a document says, whatever notation it is written in.**

* `Datum` — a value of a document; records keep their members in order, repeated ones included.
* `Datum.intact`, `Datum.depth` — whether a value may be kept, and how deep it nests.
* `Members` — the members of a record, with the ways to ask for one: `one?` (it stands there
  once), `atMostOne?` (it may be missing), `onlyNamed` (nothing else stands there).
* `Datum.restrict` — a record without the members that nobody asks for.
-/

namespace TunedKernel

/-- A value of a document. -/
inductive Datum where
  | null
  | flag (value : Bool)
  | integer (value : Int)
  | text (value : String)
  /-- A number that is no integer, or a date: no reader here asks for one. -/
  | other
  /-- A part that only a value nobody asks for may hold: half of a surrogate pair, or a number
  that is too large. -/
  | broken
  | list (items : List Datum)
  | record (members : List (String × Datum))
deriving Repr, Inhabited

/-- The members of a record, in the order of the document. -/
abbrev Members := List (String × Datum)

namespace Datum

mutual

/-- Whether no part of a value is broken. -/
def intact : Datum → Bool
  | .broken => false
  | .list items => intactItems items
  | .record members => intactMembers members
  | _ => true

/-- Whether no part of any item is broken. -/
def intactItems : List Datum → Bool
  | [] => true
  | item :: items => intact item && intactItems items

/-- Whether no part of any member is broken. -/
def intactMembers : List (String × Datum) → Bool
  | [] => true
  | (_, value) :: members => intact value && intactMembers members

end

mutual

/-- The number of lists and records around the innermost one, itself included. -/
def depth : Datum → Nat
  | .list items => depthItems items + 1
  | .record members => depthMembers members + 1
  | _ => 0

/-- The greatest depth of an item. -/
def depthItems : List Datum → Nat
  | [] => 0
  | item :: items => max (depth item) (depthItems items)

/-- The greatest depth of a member. -/
def depthMembers : List (String × Datum) → Nat
  | [] => 0
  | (_, value) :: members => max (depth value) (depthMembers members)

end

/-! ### Reading one value -/

/-- The text that a value is. -/
def text? : Datum → Option String
  | .text value => some value
  | _ => none

/-- The truth value that a value is. -/
def flag? : Datum → Option Bool
  | .flag value => some value
  | _ => none

/-- The unsigned number below `limit` that a value is. -/
def natural? (limit : Nat) : Datum → Option Nat
  | .integer (.ofNat n) => if n < limit then some n else none
  | _ => none

/-- The unsigned number of 32 bits that a value is. -/
def word32? (d : Datum) : Option UInt32 :=
  (d.natural? UInt32.size).map UInt32.ofNat

/-- The unsigned number of 64 bits that a value is. -/
def word64? (d : Datum) : Option UInt64 :=
  (d.natural? UInt64.size).map UInt64.ofNat

/-- The items of a list. -/
def list? : Datum → Option (List Datum)
  | .list items => some items
  | _ => none

/-- The members of a record. -/
def record? : Datum → Option Members
  | .record members => some members
  | _ => none

/-- A number as a value. -/
def ofNat (n : Nat) : Datum := .integer (.ofNat n)

/-- A record without the members whose name is not listed. Other values stay as they are. -/
def restrict (names : List String) : Datum → Datum
  | .record members => .record (members.filter fun member => names.contains member.1)
  | d => d

end Datum

/-! ### Reading a record -/

namespace Members

/-- All values that stand under a name. -/
def valuesOf (members : Members) (name : String) : List Datum :=
  (members.filter fun member => member.1 == name).map Prod.snd

/-- The value of a member that has to stand there exactly once. -/
def one? (members : Members) (name : String) : Option Datum :=
  match members.valuesOf name with
  | [value] => some value
  | _ => none

/-- The value of a member that may be missing; one that stands there twice is an error. -/
def atMostOne? (members : Members) (name : String) : Option (Option Datum) :=
  match members.valuesOf name with
  | [] => some none
  | [value] => some (some value)
  | _ => none

/-- Reads a member that has to stand there. -/
def read? {α : Type} (members : Members) (name : String) (reader : Datum → Option α) : Option α :=
  (members.one? name).bind reader

/-- Reads a member that may be missing, with its value in that case. -/
def readOr? {α : Type} (members : Members) (name : String) (reader : Datum → Option α)
    (missing : α) : Option α :=
  match members.atMostOne? name with
  | none => none
  | some none => some missing
  | some (some value) => reader value

/-- Whether every member has one of the names listed. -/
def onlyNamed (members : Members) (names : List String) : Bool :=
  members.all fun member => names.contains member.1

end Members

end TunedKernel
