/-
**Overrides: records read from a document.**

An override document has, for any of the tables, a list of rows under the table's name; a row is
the description of a device with the record tuned for it. Nothing else may stand in it.

* `Row P`, `Overrides` — a row, and the rows of every table in the order of the document.
* `Overrides.ofDatum?` — the rows that a document holds.
* `Overrides.check` — refuses the first record that is not consistent, table by table.
* `Overrides.ofToml` — reads and checks a document.
* `ConfigError` — why a document is refused; `ConfigError.message` reports it.
-/

import TunedKernel.Device.Basic
import TunedKernel.Diagnostic
import TunedKernel.Toml.Reader
import TunedKernel.Tuning.Table

namespace TunedKernel

/-- Why a document of overrides, or of an operation, is refused. -/
inductive ConfigError where
  /-- The file cannot be read. -/
  | unreadable (path : String)
  | toml
  | json
  /-- A record is not consistent. -/
  | invalidRecord (table key reason : String)
deriving DecidableEq, Repr

namespace ConfigError

/-- The code of an error. -/
def code : ConfigError → String
  | unreadable _ => "config::io"
  | toml => "config::toml"
  | json => "config::json"
  | invalidRecord .. => "config::invalid_params"

/-- The report of an error. -/
def message : ConfigError → String
  | unreadable path => s!"Failed to read `{path}`"
  | toml => "Invalid TOML"
  | json => "Invalid JSON"
  | invalidRecord table key reason => s!"Invalid parameters in table `{table}` for {key}: {reason}"

/-- The report with its code. -/
def diagnostic (e : ConfigError) : Diagnostic := ⟨e.code, e.message, none⟩

end ConfigError

/-! ### Rows -/

/-- A record with the devices it is tuned for. -/
structure Row (P : Type) where
  key : Device
  record : P
deriving DecidableEq, Repr

namespace Row

variable {P : Type} [TunedRecord P]

/-- The row that a record of a document holds. The family may be missing, which means the unknown
one, and so may the name, which means none. -/
def ofDatum? (d : Datum) : Option (Row P) := do
  let members ← readSettings
    ["vendor", "class", "architecture", "name", "numeric_type", "params"] d
  let key : Device := {
    vendor := ← members.read? "vendor" Vendor.ofDatum?
    deviceClass := ← members.read? "class" fun d => d.text?.bind DeviceClass.ofName?
    architecture := ← members.readOr? "architecture"
      (fun d => d.text?.bind Architecture.ofName?) .unknown
    name := ← members.readOr? "name" Datum.text? ""
    numericType := ← members.read? "numeric_type" fun d => d.text?.bind NumericType.ofName? }
  return ⟨key, ← members.read? "params" TunedRecord.ofDatum?⟩

/-- A row in a document. -/
def datum (row : Row P) : Datum :=
  .record (row.key.members ++ [("params", TunedRecord.datum row.record)])

/-- Refuses a row whose record is not consistent. -/
def check (table : String) (row : Row P) : Except (Fault ConfigError) Unit :=
  (TunedRecord.check row.record).mapError fun fault =>
    fault.map fun flaw => .invalidRecord table row.key.text flaw.message

end Row

/-! ### Overrides -/

/-- The rows for every table, in the order of the document. -/
structure Overrides where
  rows : (t : Table) → List (Row t.Record)

namespace Overrides

/-- No rows at all. -/
def none : Overrides := ⟨fun _ => []⟩

/-- The rows that a member of a document holds for a table. -/
def tableRows? (members : Members) (t : Table) : Option (List (Row t.Record)) :=
  members.readOr? t.name (fun d => d.list?.bind fun items => items.mapM Row.ofDatum?) []

/-- The rows that a document holds. -/
def ofDatum? (d : Datum) : Option Overrides := do
  let members ← readSettings (Table.all.map Table.name) d
  if complete : ∀ t, (tableRows? members t).isSome then
    return ⟨fun t => (tableRows? members t).get (complete t)⟩
  else failure

/-- The number of rows of all tables. -/
def size (o : Overrides) : Nat := Table.all.foldl (fun n t => n + (o.rows t).length) 0

/-- The rows in a document. -/
def datum (o : Overrides) : Datum :=
  .record (Table.all.map fun t => (t.name, .list ((o.rows t).map Row.datum)))

/-- Refuses the first row whose record is not consistent, table by table. -/
def check (o : Overrides) : Except (Fault ConfigError) Unit :=
  Table.all.forM fun t => (o.rows t).forM (Row.check t.name)

/-- Reads a document of overrides and checks its records. -/
def ofToml (source : String) : Except (Fault ConfigError) Overrides :=
  match (Toml.read? source).bind ofDatum? with
  | Option.none => refuse .toml
  | some o => do
    o.check
    return o

end Overrides

end TunedKernel
