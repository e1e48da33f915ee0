/-
**Overrides on top of the builtin records.**

* `Row.last?` — the record of the last row with a key; `Draft.get?_insertRows` — a draft with rows
  on top holds under each key the record of its last row, and without one what it held before.
* `Store.get?`, `Store.mem_entries` — the record under a key; the listing of a store is its graph.
* `Store.consulted` — the keys that an answer looks under: the device, its family and the global
  default, up to the first one that has a record. `Store.answer_congr` — stores with the same
  records under these keys give a device the same record and tier.
* `Database.load_overrides` — loading with overrides replaces, table by table, the records under the
  keys of the rows and nothing else, and a device none of whose consulted keys has a row is answered
  as without overrides.
-/

import TunedKernel.Proofs.Tuning.Loading

namespace TunedKernel

variable {P : Type}

/-! ### Rows on top of a draft -/

/-- The record of the last row with a key. -/
def Row.last? (rows : List (Row P)) (key : Device) : Option P :=
  (rows.reverse.find? fun row => row.key = key).map Row.record

theorem Row.last?_append_singleton (earlier : List (Row P)) (latest : Row P) (key : Device) :
    Row.last? (earlier ++ [latest]) key =
      if latest.key = key then some latest.record else Row.last? earlier key := by
  unfold last?
  rw [List.reverse_append, List.reverse_singleton, List.singleton_append]
  by_cases here : latest.key = key
  · rw [List.find?_cons_of_pos (by simpa using here), if_pos here]
    rfl
  · rw [List.find?_cons_of_neg (by simpa using here), if_neg here]

theorem Row.last?_eq_none {rows : List (Row P)} {key : Device} (other : ∀ row ∈ rows, row.key ≠ key) :
    Row.last? rows key = none := by
  rw [last?, List.find?_eq_none.mpr fun row member => ?_, Option.map_none]
  simpa using other row (List.mem_reverse.mp member)

/-- Rows on top of a draft: under each key the record of its last row, without a row what stood
there before. -/
theorem Draft.get?_insertRows (draft : Draft P) (rows : List (Row P)) (key : Device) :
    (rows.foldl (fun draft row => draft.insert row.key row.record) draft).get? key =
      (Row.last? rows key).or (draft.get? key) := by
  induction rows using List.reverseRecOn with
  | nil => rfl
  | append_singleton earlier latest ih =>
    rw [List.foldl_append, List.foldl_cons, List.foldl_nil, get?_insert, ih,
      Row.last?_append_singleton]
    by_cases here : latest.key = key
    · rw [if_pos here, if_pos here, Option.some_or]
    · rw [if_neg here, if_neg here]

/-! ### Answers by the records under keys -/

namespace Store

/-- The record under a key. -/
def get? (store : Store P) (key : Device) : Option P := (store.levels.find? key).map store.record

/-- The listing of a store holds each key with its record. -/
theorem mem_entries {store : Store P} {key : Device} {record : P} :
    (key, record) ∈ store.entries ↔ store.get? key = some record := by
  unfold entries get?
  rw [List.mem_map, Option.map_eq_some_iff]
  constructor
  · rintro ⟨⟨listed, slot⟩, member, equal⟩
    cases equal
    exact ⟨slot, Levels.mem_toList.mp member, rfl⟩
  · rintro ⟨slot, found, rfl⟩
    exact ⟨(key, slot), Levels.mem_toList.mpr found, rfl⟩

/-- The keys that an answer looks under: the device, its family and the global default, up to the
first one with a record. -/
def consulted (store : Store P) (device : Device) : List Device :=
  device :: if (store.get? device).isSome then [] else
    device.family :: if (store.get? device.family).isSome then [] else
      [.globalDefault device.deviceClass device.numericType]

/-- The answer of a store, by the records under the three keys. -/
theorem answer_eq (store : Store P) (device : Device) :
    (store.record (store.resolve device).1, (store.resolve device).2) =
      (((if device.name = "" then none else store.get? device).map (·, .exact)).or
        ((store.get? device.family).map (·, familyTier device))).getD
        (store.record (store.globalSlot device.deviceClass device.numericType), .global) := by
  rw [resolve_eq, get?, get?]
  by_cases unnamed : device.name = ""
  · rw [if_pos unnamed, if_pos unnamed]
    cases store.levels.find? device.family <;> rfl
  · rw [if_neg unnamed, if_neg unnamed]
    cases store.levels.find? device with
    | some slot => rfl
    | none => cases store.levels.find? device.family <;> rfl

/-- Frozen stores with the same records under the keys that one of them looks under for a device
give it the same record and the same tier. -/
theorem answer_congr {draft draft' : Draft P} {table table' : String} {store store' : Store P}
    (frozen : draft.freeze table = .ok store) (frozen' : draft'.freeze table' = .ok store')
    (device : Device)
    (same : ∀ key ∈ store.consulted device, store'.get? key = store.get? key) :
    (store'.record (store'.resolve device).1, (store'.resolve device).2) =
      (store.record (store.resolve device).1, (store.resolve device).2) := by
  unfold consulted at same
  rw [List.forall_mem_cons] at same
  obtain ⟨atDevice, below⟩ := same
  rw [answer_eq, answer_eq, atDevice]
  cases exact : store.get? device with
  | some record =>
    by_cases unnamed : device.name = ""
    · have family : device.family = device := by rw [Device.family, ← unnamed]
      rw [family, atDevice, exact, if_pos unnamed]
      rfl
    · rw [if_neg unnamed]
      rfl
  | none =>
    rw [exact, Option.isSome_none, if_neg Bool.false_ne_true, List.forall_mem_cons] at below
    obtain ⟨atFamily, below⟩ := below
    rw [atFamily]
    cases coarse : store.get? device.family with
    | some record => rw [ite_self]; rfl
    | none =>
      rw [coarse, Option.isSome_none, if_neg Bool.false_ne_true, List.forall_mem_singleton] at below
      rw [get?, get?, Draft.find?_globalDefault frozen, Draft.find?_globalDefault frozen'] at below
      rw [ite_self]
      exact congrArg (·, Tier.global) (Option.some.inj below)

end Store

/-! ### Loading with overrides -/

/-- The store of a table of a loaded database holds the record of the last row with a key, and
without one the builtin record. -/
theorem Database.get?_store {overrides : Overrides} {t : Table} {store : Store t.Record}
    (frozen : freeze overrides t = .ok store) (key : Device) :
    store.get? key = (Row.last? (overrides.rows t) key).or ((Builtin.draft t).get? key) := by
  rw [Store.get?, Draft.find?_freeze frozen, draft, Draft.get?_insertRows]

/-- **Overrides extend the builtin records and change nothing else.** Loading succeeds with every
overrides and without. In each table the entry under a key is the record of the last row of that
table with the key, and the builtin entry where no row has it. So a device is answered from a table
with the same record and tier as without overrides unless a row of that very table has one of the
keys that the answer looks under. -/
theorem Database.load_overrides (overrides : Overrides) :
    ∃ db builtin, load overrides = .ok db ∧ load .none = .ok builtin ∧
      ∀ t,
        (∀ key record, (key, record) ∈ (db.store t).entries ↔
          match Row.last? (overrides.rows t) key with
          | some latest => record = latest
          | none => (key, record) ∈ (builtin.store t).entries) ∧
        ∀ device, (∀ row ∈ overrides.rows t, row.key ∉ (builtin.store t).consulted device) →
          db.resolve t device = builtin.resolve t device := by
  obtain ⟨db, loaded, frozen⟩ := exists_load_stores overrides
  obtain ⟨builtin, loadedToo, frozenToo⟩ := exists_load_stores .none
  have stored (t : Table) (key : Device) :
      (db.store t).get? key =
        (Row.last? (overrides.rows t) key).or ((builtin.store t).get? key) := by
    rw [get?_store (frozen t), get?_store (frozenToo t)]
    rfl
  refine ⟨db, builtin, loaded, loadedToo, fun t => ⟨fun key record => ?_, fun device untouched => ?_⟩⟩
  · rw [Store.mem_entries, stored]
    cases Row.last? (overrides.rows t) key with
    | some latest => rw [Option.some_or, Option.some.injEq, eq_comm]
    | none => rw [Option.none_or, ← Store.mem_entries]
  · refine Store.answer_congr (frozenToo t) (frozen t) device fun key consulted => ?_
    rw [stored, Row.last?_eq_none fun row member equal => ?_, Option.none_or]
    exact untouched row member (equal ▸ consulted)

/-- Overrides with a row for one model of a family of GPUs, for the reductions alone. -/
def modelOverrides : Overrides :=
  ⟨fun
    | .reduction => [⟨{ Builtin.fermi with name := "GTX 470" }, ⟨1, 64, 32, true⟩⟩]
    | _ => []⟩

/-- Another model of the family is answered as without the row. -/
theorem Database.load_overrides_modelOverrides :
    ∃ db builtin, load modelOverrides = .ok db ∧ load .none = .ok builtin ∧
      (∀ row ∈ modelOverrides.rows .reduction,
        row.key ∉ (builtin.store .reduction).consulted { Builtin.fermi with name := "GTX 480" }) ∧
      db.resolve .reduction { Builtin.fermi with name := "GTX 480" } =
        builtin.resolve .reduction { Builtin.fermi with name := "GTX 480" } := by
  obtain ⟨db, builtin, loaded, loadedToo, law⟩ := load_overrides modelOverrides
  have untouched : ∀ row ∈ modelOverrides.rows .reduction, row.key ∉
      (builtin.store .reduction).consulted { Builtin.fermi with name := "GTX 480" } := by
    intro row member
    rw [modelOverrides, List.mem_singleton] at member
    subst member
    unfold Store.consulted
    split
    · decide
    · split <;> decide
  exact ⟨db, builtin, loaded, loadedToo, untouched, (law .reduction).2 _ untouched⟩

end TunedKernel
