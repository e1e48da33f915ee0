/-
**Look-ups in the levels of a store.**

* `Levels.find?_insert` — putting a value under a key changes what stands there and nowhere else.
* `Levels.mem_toList` — the listing of the levels holds each key with what stands under it.
* `Draft.find?_slots` — the slot that leads to a key is the position of the key.
* `Draft.freeze_eq_ok` — the parts of a frozen store.
* `Draft.find?_freeze`, `Draft.slot_injective` — a frozen store finds under each key what the draft
  held, and different keys lead to different slots.
* `Draft.find?_globalDefault` — the table of defaults holds the slots of the global defaults.
-/

import Mathlib.Data.List.Nodup
import TunedKernel.Tuning.Store

namespace TunedKernel

open Std (TreeMap TransCmp TransOrd LawfulEqOrd LawfulEqCmp)

/-! ### The orders of the levels -/

instance : TransOrd Vendor := inferInstanceAs (TransCmp (compareOn Vendor.id))

instance : LawfulEqOrd Vendor where
  eq_of_compare {first second} equal := by
    have ids : first.id = second.id := LawfulEqOrd.eq_of_compare equal
    cases first
    cases second
    exact congrArg Vendor.mk ids

instance : TransOrd DeviceClass := inferInstanceAs (TransCmp (compareOn DeviceClass.index))

instance : LawfulEqOrd DeviceClass where
  eq_of_compare {first second} equal := by
    have positions : first.index = second.index := LawfulEqOrd.eq_of_compare equal
    revert positions
    cases first <;> cases second <;> simp [DeviceClass.index]

instance : TransOrd Architecture := inferInstanceAs (TransCmp (compareOn Architecture.index))

instance : LawfulEqOrd Architecture where
  eq_of_compare {first second} equal := by
    have positions : first.index = second.index := LawfulEqOrd.eq_of_compare equal
    revert positions
    cases first <;> cases second <;> simp [Architecture.index]

instance : TransOrd NumericType := inferInstanceAs (TransCmp (compareOn NumericType.index))

instance : LawfulEqOrd NumericType where
  eq_of_compare {first second} equal := by
    have positions : first.index = second.index := LawfulEqOrd.eq_of_compare equal
    revert positions
    cases first <;> cases second <;> simp [NumericType.index]

instance : TransOrd Device := inferInstanceAs (TransCmp
  (compareLex (compareOn Device.vendor) <| compareLex (compareOn Device.deviceClass) <|
    compareLex (compareOn Device.architecture) <|
      compareLex (compareOn Device.name) (compareOn Device.numericType)))

instance : LawfulEqOrd Device where
  eq_of_compare {first second} equal := by
    have parts : Device.order first second = .eq := equal
    simp only [Device.order, compareLex_eq_eq, compareOn] at parts
    obtain ⟨vendor, deviceClass, architecture, name, numericType⟩ := parts
    cases first
    cases second
    simp only [Device.mk.injEq]
    exact ⟨LawfulEqOrd.eq_of_compare vendor, LawfulEqOrd.eq_of_compare deviceClass,
      LawfulEqOrd.eq_of_compare architecture, LawfulEqOrd.eq_of_compare name,
      LawfulEqOrd.eq_of_compare numericType⟩

/-! ### Levels -/

namespace Levels

variable {α : Type}

theorem find?_empty (key : Device) : find? ({} : Levels α) key = none := by
  simp only [find?, names?, Option.bind_eq_bind, TreeMap.getElem?_emptyc, Option.bind_none]

/-- What one level leads to after an insertion: at the key's own place the level below, changed,
and elsewhere what was there. -/
theorem getElem?_insert_of_lawful {κ β : Type} [Ord κ] [TransOrd κ] [LawfulEqOrd κ]
    [DecidableEq κ] (map : TreeMap κ β) (place other : κ) (value : β) :
    (map.insert place value)[other]? = if place = other then some value else map[other]? := by
  rw [TreeMap.getElem?_insert]
  simp only [LawfulEqCmp.compare_eq_iff_eq]

theorem getD_empty_getElem? {κ ι β : Type} [Ord κ] [TransOrd κ] [Ord ι] [TransOrd ι]
    (map : TreeMap κ (TreeMap ι β)) (place : κ) (below : ι) :
    (map.getD place {})[below]? = map[place]?.bind fun inner => inner[below]? := by
  rw [TreeMap.getD_eq_getD_getElem?]
  cases map[place]? with
  | none => exact TreeMap.getElem?_emptyc
  | some inner => rfl

/-- Putting a value under a key changes what stands there and nowhere else. -/
theorem find?_insert (levels : Levels α) (key other : Device) (value : α) :
    (levels.insert key value).find? other = if key = other then some value else levels.find? other := by
  rcases key with ⟨vendor, deviceClass, architecture, name, numericType⟩
  rcases other with ⟨vendor', deviceClass', architecture', name', numericType'⟩
  simp only [find?, names?, insert, Option.bind_eq_bind, getElem?_insert_of_lawful, Device.mk.injEq]
  by_cases sameVendor : vendor = vendor'
  case neg => simp [sameVendor]
  subst sameVendor
  by_cases sameClass : deviceClass = deviceClass'
  case neg => simp [sameClass, getElem?_insert_of_lawful, getD_empty_getElem?, Option.bind_assoc]
  subst sameClass
  by_cases sameArchitecture : architecture = architecture'
  case neg => simp [sameArchitecture, getElem?_insert_of_lawful, getD_empty_getElem?, Option.bind_assoc]
  subst sameArchitecture
  by_cases sameName : name = name'
  case neg => simp [sameName, getElem?_insert_of_lawful, getD_empty_getElem?, Option.bind_assoc]
  subst sameName
  by_cases sameType : numericType = numericType'
  · simp [sameType]
  · simp [sameType, getElem?_insert_of_lawful, getD_empty_getElem?, Option.bind_assoc]

/-- The listing of the levels holds each key with what stands under it. -/
theorem mem_toList {levels : Levels α} {key : Device} {value : α} :
    (key, value) ∈ levels.toList ↔ levels.find? key = some value := by
  rcases key with ⟨vendor, deviceClass, architecture, name, numericType⟩
  simp only [toList, find?, names?, List.mem_flatMap, List.mem_map, Prod.exists, Prod.mk.injEq,
    Device.mk.injEq, TreeMap.mem_toList_iff_getElem?_eq_some, Option.bind_eq_bind,
    Option.bind_eq_some_iff]
  constructor
  · rintro ⟨_, classes, atVendor, _, families, atClass, _, names, atFamily, _, types, atName, _, _,
      atType, ⟨rfl, rfl, rfl, rfl, rfl⟩, rfl⟩
    exact ⟨names, ⟨classes, atVendor, families, atClass, atFamily⟩, types, atName, atType⟩
  · rintro ⟨names, ⟨classes, atVendor, families, atClass, atFamily⟩, types, atName, atType⟩
    exact ⟨_, classes, atVendor, _, families, atClass, _, names, atFamily, _, types, atName, _, _,
      atType, ⟨rfl, rfl, rfl, rfl, rfl⟩, rfl⟩

end Levels

/-! ### The slots of a draft -/

namespace Draft

variable {P : Type}

/-- Slots inserted one after the other: a slot that is found is one of them and leads back to its
key. -/
theorem find?_insertSlots (keys : Array Device) (slots : List (Fin keys.size))
    (levels : Levels (Fin keys.size)) (key : Device) :
    (slots.foldl (fun levels slot => levels.insert (getElem keys slot slot.isLt) slot) levels).find? key =
      (slots.reverse.find? fun slot => getElem keys slot slot.isLt = key).or (levels.find? key) := by
  induction slots generalizing levels with
  | nil => simp
  | cons slot rest ih =>
    rw [List.foldl_cons, ih, Levels.find?_insert, List.reverse_cons, List.find?_append]
    cases rest.reverse.find? fun slot => decide (getElem keys slot slot.isLt = key) with
    | some later => simp
    | none =>
      by_cases here : getElem keys slot slot.isLt = key
      · rw [if_pos here, List.find?_cons_of_pos (by simpa using here)]
        rfl
      · rw [if_neg here, List.find?_cons_of_neg (by simpa using here)]
        rfl

/-- With different keys, the slot found under a key is the position of the key. -/
theorem find?_slots {keys : Array Device} (distinct : keys.toList.Nodup) (key : Device)
    (slot : Fin keys.size) : (slots keys).find? key = some slot ↔ getElem keys slot slot.isLt = key := by
  rw [slots, find?_insertSlots, Levels.find?_empty, Option.or_none]
  constructor
  · intro found
    simpa using List.find?_some found
  · intro here
    cases found : (List.finRange keys.size).reverse.find? fun slot =>
        getElem keys slot slot.isLt = key with
    | none =>
      have absent := List.find?_eq_none.mp found slot (by simp)
      exact absurd here (by simpa using absent)
    | some other =>
      have there : getElem keys other other.isLt = key := by simpa using List.find?_some found
      have same : keys.toList[other.val] = keys.toList[slot.val] := there.trans here.symm
      rw [Fin.ext ((List.Nodup.getElem_inj_iff distinct).mp same)]

theorem find?_slots_eq_none {keys : Array Device} (distinct : keys.toList.Nodup) (key : Device) :
    (slots keys).find? key = none ↔ key ∉ keys.toList := by
  rw [← not_iff_not, not_not, List.mem_iff_getElem, ← ne_eq, Option.ne_none_iff_exists']
  constructor
  · rintro ⟨slot, found⟩
    exact ⟨slot, by simp, by simpa using (find?_slots distinct key slot).mp found⟩
  · rintro ⟨position, inside, here⟩
    refine ⟨⟨position, by simpa using inside⟩, (find?_slots distinct key _).mpr ?_⟩
    simpa using here

/-- The keys of a draft, in order. -/
def keys (draft : Draft P) : Array Device := draft.records.toArray.map Prod.fst

theorem keys_nodup (draft : Draft P) : draft.keys.toList.Nodup := by
  have distinct := TreeMap.distinct_keys_toList (t := draft.records)
  rw [keys, Array.toList_map, TreeMap.toList_toArray]
  refine List.pairwise_map.mpr (distinct.imp fun {first second} different equal => ?_)
  exact different (LawfulEqCmp.compare_eq_iff_eq.mpr equal)

/-- The keys of a draft are those with a record. -/
theorem mem_keys {draft : Draft P} {key : Device} :
    key ∈ draft.keys.toList ↔ (draft.get? key).isSome := by
  rw [keys, Array.toList_map, TreeMap.toList_toArray, List.mem_map, Option.isSome_iff_exists]
  constructor
  · rintro ⟨⟨_, record⟩, member, rfl⟩
    exact ⟨record, TreeMap.mem_toList_iff_getElem?_eq_some.mp member⟩
  · rintro ⟨record, held⟩
    exact ⟨(key, record), TreeMap.mem_toList_iff_getElem?_eq_some.mpr held, rfl⟩

/-- The parts of a frozen store. -/
theorem freeze_eq_ok {draft : Draft P} {table : String} {store : Store P}
    (frozen : draft.freeze table = .ok store) :
    ∃ nothing : missing? (slots draft.keys) = none,
      store = {
        table := table
        size := draft.keys.size
        records := ⟨draft.records.toArray.map Prod.snd, by simp [keys]⟩
        levels := slots draft.keys
        defaults := defaultSlots (slots draft.keys) nothing } := by
  unfold freeze at frozen
  simp only at frozen
  split at frozen
  · cases frozen
  · next nothing => exact ⟨nothing, (Except.ok.inj frozen).symm⟩

/-- A frozen store finds under each key what the draft held. -/
theorem find?_freeze {draft : Draft P} {table : String} {store : Store P}
    (frozen : draft.freeze table = .ok store) (key : Device) :
    (store.levels.find? key).map store.record = draft.get? key := by
  obtain ⟨nothing, rfl⟩ := freeze_eq_ok frozen
  show ((slots draft.keys).find? key).map _ = draft.records[key]?
  cases found : (slots draft.keys).find? key with
  | none =>
    rw [find?_slots_eq_none draft.keys_nodup, mem_keys, Option.not_isSome_iff_eq_none] at found
    exact found.symm
  | some slot =>
    rw [find?_slots draft.keys_nodup] at found
    have inside : slot.val < draft.records.toArray.size := by
      simpa only [keys, Array.size_map] using slot.isLt
    have first : draft.records.toArray[slot.val].1 = key :=
      (Array.getElem_map _ slot.isLt).symm.trans found
    have entry : (key, draft.records.toArray[slot.val].2) = draft.records.toArray[slot.val] := by
      rw [← first]
    have held : draft.records[key]? = some draft.records.toArray[slot.val].2 := by
      rw [← TreeMap.mem_toArray_iff_getElem?_eq_some, entry]
      exact Array.getElem_mem inside
    have mapped : slot.val < (draft.records.toArray.map Prod.snd).size := by
      rw [Array.size_map]
      exact inside
    rw [held]
    exact congrArg some (Array.getElem_map _ mapped)

/-- A draft with every global default freezes. -/
theorem freeze_of_complete (draft : Draft P) (table : String)
    (complete : ∀ deviceClass numericType,
      (draft.get? (.globalDefault deviceClass numericType)).isSome) :
    ∃ store, draft.freeze table = .ok store := by
  unfold freeze
  simp only
  split
  · next deviceClass numericType found =>
    have absent := List.find?_some found
    rw [Option.isNone_iff_eq_none, ← keys, find?_slots_eq_none draft.keys_nodup, mem_keys] at absent
    exact absurd (complete deviceClass numericType) absent
  · exact ⟨_, rfl⟩

/-- Different keys lead to different slots. -/
theorem slot_injective {draft : Draft P} {table : String} {store : Store P}
    (frozen : draft.freeze table = .ok store) {first second : Device} {slot : store.Slot}
    (found : store.levels.find? first = some slot)
    (foundToo : store.levels.find? second = some slot) : first = second := by
  obtain ⟨nothing, rfl⟩ := freeze_eq_ok frozen
  have here := (find?_slots draft.keys_nodup first slot).mp found
  have there := (find?_slots draft.keys_nodup second slot).mp foundToo
  exact here.symm.trans there

/-- The table of defaults holds the slots of the global defaults. -/
theorem find?_globalDefault {draft : Draft P} {table : String} {store : Store P}
    (frozen : draft.freeze table = .ok store) (deviceClass : DeviceClass)
    (numericType : NumericType) :
    store.levels.find? (.globalDefault deviceClass numericType) =
      some (store.globalSlot deviceClass numericType) := by
  obtain ⟨nothing, rfl⟩ := freeze_eq_ok frozen
  have inside := globalPlace_lt deviceClass numericType
  have pair : globalPairs[globalPlace deviceClass numericType] = (deviceClass, numericType) := by
    cases deviceClass <;> cases numericType <;> rfl
  simp only [Store.globalSlot, defaultSlots, Vector.getElem_ofFn, Fin.getElem_fin, pair,
    Option.some_get]

end Draft

end TunedKernel
