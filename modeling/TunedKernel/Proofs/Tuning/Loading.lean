/-
**What holds of every record of a loaded database.**

* `Draft.All` — a property holds of every record of a draft; registering a record that has it keeps it.
* `Draft.All.best` — then it holds of the record that any device is answered with.
* `Overrides.check_eq_ok` — every row of overrides that pass their check passes its own.
* `Database.exists_load_stores` — loading always succeeds, since the builtin records have every
  global default, and the store of every table is its draft, frozen.
* `Database.exists_load_resolve`, `Database.exists_load` — a property of all builtin records and all
  rows holds of the record that any table has for any device, and so of the record for any kind.
-/

import TunedKernel.Proofs.Tuning.Resolution
import TunedKernel.Tuning.Database

namespace TunedKernel

variable {P : Type}

/-! ### Properties of all records of a draft -/

namespace Draft

/-- A property holds of every record of a draft. -/
def All (holds : P → Prop) (draft : Draft P) : Prop :=
  ∀ key record, draft.get? key = some record → holds record

variable {holds : P → Prop} {draft : Draft P}

theorem All.insert (all : draft.All holds) (key : Device) {record : P} (here : holds record) :
    (draft.insert key record).All holds := by
  intro other found there
  rw [get?_insert] at there
  split at there
  · cases there
    exact here
  · exact all other found there

theorem All.insertMany {β : Type} (all : draft.All holds) (key : β → Device) (record : β → P)
    {rows : List β} (each : ∀ row ∈ rows, holds (record row)) :
    (rows.foldl (fun draft row => draft.insert (key row) (record row)) draft).All holds := by
  induction rows generalizing draft with
  | nil => exact all
  | cons row rows ih =>
    rw [List.forall_mem_cons] at each
    exact ih (all.insert (key row) each.1) each.2

theorem All.draftOf {base : P} {tuned : List (Device × P)} (here : holds base)
    (each : ∀ entry ∈ tuned, holds entry.2) : (Builtin.draftOf base tuned).All holds := by
  have defaults : (Draft.empty.defaults base).All holds := by
    intro key record found
    rw [get?_defaults] at found
    split at found
    · cases found
      exact here
    · exact absurd found (by rw [empty, get?, Std.TreeMap.getElem?_emptyc]; nofun)
  exact defaults.insertMany Prod.fst Prod.snd each

/-- A property of all records of a draft holds of the record that a device is answered with. -/
theorem All.best {table : String} {store : Store P} (all : draft.All holds)
    (frozen : draft.freeze table = .ok store) (device : Device) : holds (store.best device) := by
  have stands {key : Device} (found : store.levels.find? key = some (store.resolve device).1) :
      holds (store.best device) := by
    have held := find?_freeze frozen key
    rw [found] at held
    exact all key _ held.symm
  rcases Store.resolve_cases store device with ⟨-, found, -⟩ | ⟨found, -⟩ | ⟨slot, -⟩
  · exact stands found
  · exact stands found
  · exact stands (slot ▸ find?_globalDefault frozen device.deviceClass device.numericType)

/-! ### Drafts with every global default -/

/-- A draft has the global default of every class and element type. -/
def Complete (draft : Draft P) : Prop :=
  ∀ deviceClass numericType, (draft.get? (.globalDefault deviceClass numericType)).isSome

theorem Complete.insertMany {β : Type} (complete : draft.Complete) (key : β → Device)
    (record : β → P) (rows : List β) :
    (rows.foldl (fun draft row => draft.insert (key row) (record row)) draft).Complete := by
  induction rows generalizing draft with
  | nil => exact complete
  | cons row rows ih =>
    refine ih fun deviceClass numericType => ?_
    rw [get?_insert]
    split
    · rfl
    · exact complete deviceClass numericType

theorem complete_draftOf (base : P) (tuned : List (Device × P)) :
    (Builtin.draftOf base tuned).Complete := by
  have defaults : (Draft.empty.defaults base).Complete := by
    intro deviceClass numericType
    rw [get?_defaults]
    exact congrArg Option.isSome (if_pos rfl)
  exact defaults.insertMany Prod.fst Prod.snd tuned

end Draft

/-! ### Overrides and builtin records -/

/-- Every row of overrides that pass their check passes its own. -/
theorem Overrides.check_eq_ok {overrides : Overrides} {u : Unit} (ok : overrides.check = .ok u)
    (t : Table) (row : Row t.Record) (member : row ∈ overrides.rows t) :
    TunedRecord.check row.record = .ok () := by
  have each {α : Type} {f : α → Except (Fault ConfigError) Unit} {xs : List α}
      (ok : xs.forM f = .ok ()) : ∀ x ∈ xs, f x = .ok () := by
    induction xs with
    | nil => exact fun _ none => absurd none List.not_mem_nil
    | cons x xs ih =>
      obtain ⟨_, first, rest⟩ := bind_eq_ok_iff.mp ok
      exact List.forall_mem_cons.mpr ⟨first, ih rest⟩
  have checked := each (each ok t (Table.mem_all t)) row member
  unfold Row.check at checked
  cases inner : TunedRecord.check row.record with
  | error fault =>
    rw [inner] at checked
    cases checked
  | ok u => rfl

/-- Every record of a document that is read passes its check. -/
theorem Overrides.checked_of_read {source : String} {overrides : Overrides}
    (read : Overrides.ofToml source = .ok overrides) (t : Table) (row : Row t.Record)
    (member : row ∈ overrides.rows t) : TunedRecord.check row.record = .ok () := by
  unfold ofToml at read
  split at read
  · cases read
  · obtain ⟨_, checked, read⟩ := bind_eq_ok_iff.mp read
    cases read
    exact check_eq_ok checked t row member

theorem Builtin.complete (t : Table) : (draft t).Complete := by
  rcases t with _ | _ | _ | _ | _ | _ | ⟨_ | _, _ | _⟩ <;> exact Draft.complete_draftOf _ _

/-! ### Loading -/

/-- **Loading always succeeds**, and the store of every table is its draft, frozen. -/
theorem Database.exists_load_stores (overrides : Overrides) :
    ∃ db, load overrides = .ok db ∧ ∀ t, freeze overrides t = .ok (db.store t) := by
  have frozen (t : Table) : ∃ store, freeze overrides t = .ok store :=
    Draft.freeze_of_complete _ _
      ((Builtin.complete t).insertMany Row.key Row.record (overrides.rows t))
  have complete : firstIncomplete? overrides = none := by
    refine List.findSome?_eq_none_iff.mpr fun t _ => ?_
    obtain ⟨store, frozen⟩ := frozen t
    rw [frozen]
  unfold load
  split
  · next found => exact absurd (found.symm.trans complete) (by nofun)
  · refine ⟨_, rfl, fun t => ?_⟩
    obtain ⟨store, frozen⟩ := frozen t
    have same : (freeze overrides t).toOption.get
        (isSome_freeze_of_firstIncomplete?_eq_none complete t) = store :=
      Option.get_of_eq_some _ (congrArg Except.toOption frozen)
    exact frozen.trans (congrArg Except.ok same.symm)

/-- A property of all builtin records and all rows holds of the record that any table has for any
device. -/
theorem Database.exists_load_resolve (overrides : Overrides) :
    ∃ db, load overrides = .ok db ∧ ∀ (holds : (t : Table) → t.Record → Prop),
      (∀ t, (Builtin.draft t).All (holds t)) →
      (∀ t, ∀ row ∈ overrides.rows t, holds t row.record) →
      ∀ t device, holds t (db.resolve t device).1 := by
  obtain ⟨db, loaded, frozen⟩ := exists_load_stores overrides
  refine ⟨db, loaded, fun holds builtin rows t device => ?_⟩
  have all := (builtin t).insertMany Row.key Row.record (rows t)
  exact all.best (frozen t) device

/-- A property of all builtin records and all rows holds of the record for any device. -/
theorem Database.exists_load (overrides : Overrides) :
    ∃ db, load overrides = .ok db ∧ ∀ (holds : (t : Table) → t.Record → Prop),
      (∀ t, (Builtin.draft t).All (holds t)) →
      (∀ t, ∀ row ∈ overrides.rows t, holds t row.record) →
      ∀ kind device, holds (Table.ofKind kind) (db.recordFor kind device) := by
  obtain ⟨db, loaded, every⟩ := exists_load_resolve overrides
  exact ⟨db, loaded, fun holds builtin rows kind device =>
    every holds builtin rows (Table.ofKind kind) device⟩

end TunedKernel
