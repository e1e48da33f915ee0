/-
**Resolution against the flat map of the registrations.**

* `Registration` — one call that adds to a draft: a record under a key, or one record under the
  global default of every class and element type. `Draft.ofRegistrations` carries out a sequence.
* `Registration.last?` — the flat map: the record that the last registration of a key gave it.
* `Draft.get?_ofRegistrations` — a draft holds exactly the flat map.
* `flatAnswer?` — the answer for a device, read off a flat map: the exact device, else its family,
  else the global default of its class.
* `resolve_eq_lastRegistrations` — a frozen store answers what the flat map answers, for every history of
  registrations and every device, and its answer is the slot of the global default exactly when the
  tier says so.
-/

import Mathlib.Data.List.Induction
import TunedKernel.Proofs.Tuning.Levels

namespace TunedKernel

variable {P : Type}

/-! ### Histories of registrations -/

/-- One call that adds to a draft. -/
inductive Registration (P : Type) where
  | record (key : Device) (record : P)
  /-- One record for everything of every class and element type. -/
  | defaults (record : P)
deriving DecidableEq, Repr

namespace Registration

/-- The draft after one more registration. -/
def apply (draft : Draft P) : Registration P → Draft P
  | record key r => draft.insert key r
  | defaults r => draft.defaults r

/-- The record that a registration gives to a key. -/
def gives? (key : Device) : Registration P → Option P
  | record registered r => if registered = key then some r else none
  | defaults r => if key = .globalDefault key.deviceClass key.numericType then some r else none

/-- The record that the last registration of a key gave it. -/
def last? (history : List (Registration P)) (key : Device) : Option P :=
  history.reverse.findSome? (gives? key)

end Registration

/-- The draft after a sequence of registrations. -/
def Draft.ofRegistrations (history : List (Registration P)) : Draft P :=
  history.foldl Registration.apply Draft.empty

namespace Draft

theorem get?_insert (draft : Draft P) (key other : Device) (record : P) :
    (draft.insert key record).get? other = if key = other then some record else draft.get? other :=
  Levels.getElem?_insert_of_lawful draft.records key other record

theorem get?_insertGlobals (pairs : List (DeviceClass × NumericType)) (draft : Draft P) (record : P)
    (key : Device) :
    (pairs.foldl (fun draft pair => draft.insert (.globalDefault pair.1 pair.2) record) draft).get?
        key =
      if ∃ pair ∈ pairs, key = .globalDefault pair.1 pair.2 then some record else draft.get? key := by
  induction pairs generalizing draft with
  | nil => simp
  | cons pair rest ih =>
    rw [List.foldl_cons, ih, get?_insert]
    by_cases here : Device.globalDefault pair.1 pair.2 = key
    · have first : ∃ pair' ∈ pair :: rest, key = .globalDefault pair'.1 pair'.2 :=
        ⟨pair, List.mem_cons_self, here.symm⟩
      rw [if_pos first, if_pos here, ite_self]
    · rw [if_neg here]
      simp only [List.exists_mem_cons_iff, Ne.symm here, false_or]

theorem get?_defaults (draft : Draft P) (record : P) (key : Device) :
    (draft.defaults record).get? key =
      if key = .globalDefault key.deviceClass key.numericType then some record
      else draft.get? key := by
  rw [defaults, get?_insertGlobals]
  congr 1
  rw [eq_iff_iff]
  constructor
  · rintro ⟨pair, -, equal⟩
    rw [equal]
    rfl
  · intro equal
    exact ⟨_, mem_globalPairs key.deviceClass key.numericType, equal⟩

theorem get?_apply (draft : Draft P) (registration : Registration P) (key : Device) :
    (registration.apply draft).get? key = (registration.gives? key).or (draft.get? key) := by
  cases registration with
  | record registered r =>
    show (draft.insert registered r).get? key = _
    rw [get?_insert, Registration.gives?]
    split <;> rfl
  | defaults r =>
    show (draft.defaults r).get? key = _
    rw [get?_defaults, Registration.gives?]
    split <;> rfl

/-- A draft holds under each key what the last registration gave it. -/
theorem get?_ofRegistrations (history : List (Registration P)) (key : Device) :
    (ofRegistrations history).get? key = Registration.last? history key := by
  induction history using List.reverseRecOn with
  | nil => exact Std.TreeMap.getElem?_emptyc
  | append_singleton earlier latest ih =>
    rw [ofRegistrations, List.foldl_append, List.foldl_cons, List.foldl_nil, ← ofRegistrations,
      get?_apply, ih, Registration.last?, Registration.last?, List.reverse_append,
      List.reverse_singleton, List.singleton_append, List.findSome?_cons]
    cases latest.gives? key <;> rfl

end Draft

/-! ### The answer of a flat map -/

/-- The description of a device's whole family. -/
def Device.family (d : Device) : Device := { d with name := "" }

/-- The answer for a device, read off a flat map: the record of the exact device if it has a name,
else that of its family, else the global default of its class. The unknown family of the unknown
vendor is the global level itself. -/
def flatAnswer? (map : Device → Option P) (device : Device) : Option (P × Tier) :=
  let exact := if device.name = "" then none else map device
  let coarse :=
    if device.vendor = Vendor.unknown ∧ device.architecture = .unknown then Tier.global else .family
  (exact.map (·, .exact)).or <| ((map device.family).map (·, coarse)).or <|
    (map (.globalDefault device.deviceClass device.numericType)).map (·, .global)

namespace Store

/-- The answer of a store, by what stands under the three keys it may fall back on. -/
theorem resolve_eq (store : Store P) (device : Device) :
    store.resolve device =
      (((if device.name = "" then none else store.levels.find? device).map (·, .exact)).or
        ((store.levels.find? device.family).map (·, familyTier device))).getD
        (store.globalSlot device.deviceClass device.numericType, .global) := by
  have names : store.levels.names? device.family = store.levels.names? device := rfl
  unfold resolve Levels.find?
  rw [names]
  cases store.levels.names? device with
  | none => simp
  | some names =>
    simp only [Option.bind_eq_bind, Option.bind_some, Device.family]
    by_cases unnamed : device.name = ""
    · rw [if_pos unnamed, unnamed]
      cases (names[""]?).bind fun types => types[device.numericType]? <;> simp
    · rw [if_neg unnamed]
      cases (names[device.name]?).bind fun types => types[device.numericType]? with
      | some slot => simp [unnamed]
      | none => cases (names[""]?).bind fun types => types[device.numericType]? <;> simp

/-- The slot that answers stands under one of the three keys, with the tier of that key. -/
theorem resolve_cases (store : Store P) (device : Device) :
    (device.name ≠ "" ∧ store.levels.find? device = some (store.resolve device).1 ∧
        (store.resolve device).2 = .exact) ∨
      (store.levels.find? device.family = some (store.resolve device).1 ∧
        (store.resolve device).2 = familyTier device) ∨
      (store.resolve device).1 = store.globalSlot device.deviceClass device.numericType ∧
        (store.resolve device).2 = .global := by
  rw [resolve_eq]
  by_cases unnamed : device.name = ""
  · rw [if_pos unnamed]
    cases found : store.levels.find? device.family <;> simp
  · rw [if_neg unnamed]
    cases exact : store.levels.find? device with
    | some slot => simp [unnamed]
    | none => cases found : store.levels.find? device.family <;> simp

/-- The tier of an answer is the global one exactly when the answer is the slot of the global
default. -/
theorem resolve_tier_eq_global_iff {draft : Draft P} {table : String} {store : Store P}
    (frozen : draft.freeze table = .ok store) (device : Device) :
    (store.resolve device).2 = .global ↔
      (store.resolve device).1 = store.globalSlot device.deviceClass device.numericType := by
  have default := Draft.find?_globalDefault frozen device.deviceClass device.numericType
  rcases resolve_cases store device with ⟨named, found, tier⟩ | ⟨found, tier⟩ | ⟨slot, tier⟩
  · refine ⟨fun global => absurd (tier.symm.trans global) (by decide), fun same => ?_⟩
    rw [same] at found
    have key := Draft.slot_injective frozen found default
    exact absurd (congrArg Device.name key) named
  · rw [tier, familyTier]
    by_cases unknown : device.vendor = Vendor.unknown ∧ device.architecture = .unknown
    · rw [if_pos unknown]
      have key : device.family = .globalDefault device.deviceClass device.numericType := by
        rw [Device.family, Device.globalDefault, unknown.1, unknown.2]
      rw [key, default] at found
      exact ⟨fun _ => (Option.some.inj found).symm, fun _ => rfl⟩
    · rw [if_neg unknown]
      refine ⟨fun global => absurd global (by decide), fun same => ?_⟩
      rw [same] at found
      have key := Draft.slot_injective frozen found default
      exact absurd ⟨congrArg Device.vendor key, congrArg Device.architecture key⟩ unknown
  · exact ⟨fun _ => slot, fun _ => tier⟩

end Store

/-- **A frozen store answers what the flat map of its registrations answers.** Whatever the history
and the device, the record and the tier are those of the flat map, the slot lies among the records
and the place of the default in its table, and the slot is the slot of the global default exactly when the tier is the global one. -/
theorem resolve_eq_lastRegistrations (history : List (Registration P)) (table : String) (store : Store P)
    (frozen : (Draft.ofRegistrations history).freeze table = .ok store) (device : Device) :
    flatAnswer? (Registration.last? history) device =
        some (store.record (store.resolve device).1, (store.resolve device).2) ∧
      (store.resolve device).1.val < store.records.toArray.size ∧
      globalPlace device.deviceClass device.numericType < store.defaults.toArray.size ∧
      ((store.resolve device).2 = .global ↔
        (store.resolve device).1 = store.globalSlot device.deviceClass device.numericType) := by
  refine ⟨?_, by simp, ?_, Store.resolve_tier_eq_global_iff frozen device⟩
  swap
  · rw [Vector.size_toArray]
    exact globalPlace_lt device.deviceClass device.numericType
  have map : Registration.last? history = fun key => (store.levels.find? key).map store.record := by
    funext key
    rw [Draft.find?_freeze frozen, Draft.get?_ofRegistrations]
  have default := Draft.find?_globalDefault frozen device.deviceClass device.numericType
  rw [map, Store.resolve_eq]
  unfold flatAnswer? Store.familyTier
  simp only [default]
  by_cases unnamed : device.name = ""
  · simp only [if_pos unnamed]
    cases store.levels.find? device.family <;> simp
  · simp only [if_neg unnamed]
    cases store.levels.find? device with
    | some slot => simp
    | none => cases store.levels.find? device.family <;> simp

/-- A history in which a family is registered twice. -/
def familyHistory : List (Registration Nat) :=
  [.defaults 1, .record ⟨Vendor.nvidia, .gpu, .fermi, "", .float⟩ 2,
    .record ⟨Vendor.nvidia, .gpu, .fermi, "", .float⟩ 3]

theorem exists_store_familyHistory :
    ∃ store, (Draft.ofRegistrations familyHistory).freeze "records" = .ok store := by
  refine Draft.freeze_of_complete _ _ fun deviceClass numericType => ?_
  rw [Draft.get?_ofRegistrations]
  cases deviceClass <;> cases numericType <;> decide

/-- A device of the family, asked by a name that has no record of its own, gets the record that was
registered last for the family. -/
theorem resolve_familyHistory :
    ∃ store, (Draft.ofRegistrations familyHistory).freeze "records" = .ok store ∧
      some (3, Tier.family) =
        some (store.record (store.resolve ⟨Vendor.nvidia, .gpu, .fermi, "GTX 470", .float⟩).1,
          (store.resolve ⟨Vendor.nvidia, .gpu, .fermi, "GTX 470", .float⟩).2) := by
  obtain ⟨store, frozen⟩ := exists_store_familyHistory
  have answer := (resolve_eq_lastRegistrations familyHistory "records" store frozen
    ⟨Vendor.nvidia, .gpu, .fermi, "GTX 470", .float⟩).1
  refine ⟨store, frozen, ?_⟩
  rw [← answer]
  decide

end TunedKernel
