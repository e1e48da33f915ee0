/-
**The database of tuned records.**

* `Database` — a store for every table.
* `Database.load` — the builtin records with overrides on top: a row of a document takes the place
  of what stood under its key before, and a later row that of an earlier one.
* `Database.resolve`, `Database.recordFor` — the record for a device in a table, and the record
  that the kernels of one kind use.
* `Database.listing` — every record of a table with its key, as lines.
-/

import TunedKernel.Tuning.Builtin
import TunedKernel.Tuning.Overrides

namespace TunedKernel

/-- A store for every table. -/
structure Database where
  store : (t : Table) → Store t.Record

namespace Database

/-- The builtin records of a table with the rows of overrides on top. -/
def draft (overrides : Overrides) (t : Table) : Draft t.Record :=
  (overrides.rows t).foldl (fun draft row => draft.insert row.key row.record) (Builtin.draft t)

/-- The store of a table. -/
def freeze (overrides : Overrides) (t : Table) : Except Incomplete (Store t.Record) :=
  (draft overrides t).freeze t.name

/-- The first table without a global default that it needs. -/
def firstIncomplete? (overrides : Overrides) : Option Incomplete :=
  Table.all.findSome? fun t =>
    match freeze overrides t with
    | .error incomplete => some incomplete
    | .ok _ => none

theorem isSome_freeze_of_firstIncomplete?_eq_none {overrides : Overrides}
    (complete : firstIncomplete? overrides = none) (t : Table) :
    (freeze overrides t).toOption.isSome := by
  have fine := List.findSome?_eq_none_iff.mp complete t (Table.mem_all t)
  revert fine
  cases freeze overrides t <;> simp [Except.toOption]

/-- The builtin records with overrides on top, frozen. -/
def load (overrides : Overrides) : Except Incomplete Database :=
  match complete : firstIncomplete? overrides with
  | some incomplete => .error incomplete
  | none => .ok ⟨fun t => (freeze overrides t).toOption.get
      (isSome_freeze_of_firstIncomplete?_eq_none complete t)⟩

/-- The record for a device in a table, and the tier it comes from. -/
def resolve (db : Database) (t : Table) (device : Device) : t.Record × Tier :=
  let (slot, tier) := (db.store t).resolve device
  ((db.store t).record slot, tier)

/-- The record that the kernels of one kind use for a device. -/
def recordFor (db : Database) (kind : Operation.Kind) (device : Device) :
    (Table.ofKind kind).Record :=
  (db.resolve (Table.ofKind kind) device).1

/-- Every record of a table with its key, as lines. -/
def listing (db : Database) (t : Table) : List (String × String) :=
  (db.store t).entries.map fun (key, record) => (key.text, TunedRecord.line record)

end Database

end TunedKernel
