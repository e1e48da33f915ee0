/-
**What a store holds.**

* `Levels.ordered_toList` — the levels are listed in the order of their keys.
* `Draft.entries_freeze` — a frozen store lists what the draft holds, in order.
* `Draft.freeze_eq_error_iff` — freezing reports the first class and element type without a global
  default.
* `Draft.freeze_congr` — drafts that hold the same freeze into the same store.
* `Registration.Apart` — two registrations that share no key; `Registration.last?_perm` — the order of
  such registrations does not matter.
* `Draft.freeze_ofRegistrations` — when a history freezes, what the store lists, and that neither the
  history nor its order can be told from it beyond the last record of every key.
-/

import Mathlib.Data.List.Pairwise
import TunedKernel.Proofs.Tuning.Overriding

namespace TunedKernel

open Std (TreeMap TransOrd LawfulEqOrd LawfulEqCmp OrientedCmp)

variable {P : Type}

/-! ### Lists in the order of their keys -/

/-- A list in strictly increasing order of its keys. -/
def Ordered {α : Type} (entries : List (Device × α)) : Prop :=
  entries.Pairwise fun first second => Device.order first.1 second.1 = .lt

namespace Ordered

variable {α : Type} {entries entries' : List (Device × α)}

theorem nodup_keys (ordered : Ordered entries) : (entries.map Prod.fst).Nodup := by
  refine List.pairwise_map.mpr (ordered.imp fun {first second} before equal => ?_)
  have same : compare first.1 second.1 = .eq := LawfulEqCmp.compare_eq_iff_eq.mpr equal
  exact absurd (before.symm.trans same) (by decide)

/-- Two such lists with the same entries are equal. -/
theorem eq_of_mem_iff (ordered : Ordered entries) (ordered' : Ordered entries')
    (same : ∀ entry, entry ∈ entries ↔ entry ∈ entries') : entries = entries' := by
  have perm : entries.Perm entries' :=
    (List.perm_ext_iff_of_nodup (.of_map _ ordered.nodup_keys) (.of_map _ ordered'.nodup_keys)).mpr
      same
  refine List.Perm.eq_of_pairwise (fun first second _ _ before after => ?_) ordered ordered' perm
  have not : compare second.1 first.1 ≠ .lt := OrientedCmp.not_lt_of_lt before
  exact absurd after not

end Ordered

/-- The listing of one level is in order when what stands under each of its keys is, and the order of
two of them decides. -/
theorem Levels.ordered_flatMap {κ β α : Type} [Ord κ] [TransOrd κ] (map : TreeMap κ β)
    {below : κ × β → List (Device × α)} (inner : ∀ entry, Ordered (below entry))
    (outer : ∀ entry entry' : κ × β, compare entry.1 entry'.1 = .lt →
      ∀ x ∈ below entry, ∀ y ∈ below entry', Device.order x.1 y.1 = .lt) :
    Ordered (map.toList.flatMap below) :=
  List.pairwise_flatMap.mpr ⟨fun entry _ => inner entry,
    TreeMap.ordered_keys_toList.imp fun {entry entry'} before => outer entry entry' before⟩

/-- The levels are listed in the order of their keys. -/
theorem Levels.ordered_toList {α : Type} (levels : Levels α) : Ordered levels.toList := by
  -- entries of one list agree in the parts of their keys that lead to it
  refine ordered_flatMap levels (fun (vendor, classes) => ?_) ?vendors
  refine ordered_flatMap classes (fun (deviceClass, families) => ?_) ?classes
  refine ordered_flatMap families (fun (architecture, names) => ?_) ?families
  refine ordered_flatMap names (fun (name, types) => ?_) ?names
  · refine List.pairwise_map.mpr (TreeMap.ordered_keys_toList.imp fun before => ?_)
    simp [Device.order, compareLex, compareOn, before]
  all_goals
    intro entry entry' before x member y member'
    simp only [List.mem_flatMap, List.mem_map] at member member'
  case names =>
    obtain ⟨_, -, rfl⟩ := member
    obtain ⟨_, -, rfl⟩ := member'
    simp [Device.order, compareLex, compareOn, before]
  case families =>
    obtain ⟨_, -, _, -, rfl⟩ := member
    obtain ⟨_, -, _, -, rfl⟩ := member'
    simp [Device.order, compareLex, compareOn, before]
  case classes =>
    obtain ⟨_, -, _, -, _, -, rfl⟩ := member
    obtain ⟨_, -, _, -, _, -, rfl⟩ := member'
    simp [Device.order, compareLex, compareOn, before]
  case vendors =>
    obtain ⟨_, -, _, -, _, -, _, -, rfl⟩ := member
    obtain ⟨_, -, _, -, _, -, _, -, rfl⟩ := member'
    simp [Device.order, compareLex, compareOn, before]

/-! ### Frozen drafts -/

namespace Draft

/-- The records of a draft are in the order of their keys. -/
theorem ordered_records (draft : Draft P) : Ordered draft.records.toList :=
  @TreeMap.ordered_keys_toList _ _ compare draft.records _

/-- The slots lead to the keys with a record. -/
theorem isNone_find?_slots (draft : Draft P) (key : Device) :
    ((slots draft.keys).find? key).isNone = (draft.get? key).isNone := by
  rw [Bool.eq_iff_iff, Option.isNone_iff_eq_none, find?_slots_eq_none draft.keys_nodup, mem_keys,
    Bool.not_eq_true, ← Option.not_isSome, Bool.not_eq_true']

/-- A frozen store lists what the draft holds, in order. -/
theorem entries_freeze {draft : Draft P} {table : String} {store : Store P}
    (frozen : draft.freeze table = .ok store) : store.entries = draft.records.toList := by
  have listed : Ordered store.entries :=
    List.pairwise_map.mpr (Levels.ordered_toList store.levels)
  refine listed.eq_of_mem_iff draft.ordered_records fun (key, record) => ?_
  rw [Store.mem_entries, Store.get?, find?_freeze frozen]
  exact TreeMap.mem_toList_iff_getElem?_eq_some.symm

/-- The class and element type that are reported missing: the first without a global default. -/
theorem freeze_eq_error_iff {draft : Draft P} {table : String} {missing : Incomplete} :
    draft.freeze table = .error missing ↔
      missing.table = table ∧
        globalPairs.find? (fun pair => (draft.get? (.globalDefault pair.1 pair.2)).isNone) =
          some (missing.deviceClass, missing.numericType) := by
  have searched : missing? (slots draft.keys) =
      globalPairs.find? fun pair => (draft.get? (.globalDefault pair.1 pair.2)).isNone := by
    unfold missing?
    simp only [isNone_find?_slots]
  rw [← searched]
  unfold freeze
  simp only
  split
  · next deviceClass numericType found =>
    rw [show missing? (slots draft.keys) = some (deviceClass, numericType) from found]
    obtain ⟨table', deviceClass', numericType'⟩ := missing
    simp [eq_comm]
  · next nothing =>
    rw [show missing? (slots draft.keys) = none from nothing]
    simp

/-- Drafts that hold the same freeze into the same store. -/
theorem freeze_congr {draft draft' : Draft P} (same : ∀ key, draft.get? key = draft'.get? key)
    (table : String) : draft.freeze table = draft'.freeze table := by
  have lists : draft.records.toList = draft'.records.toList := by
    refine draft.ordered_records.eq_of_mem_iff draft'.ordered_records fun (key, record) => ?_
    rw [TreeMap.mem_toList_iff_getElem?_eq_some, TreeMap.mem_toList_iff_getElem?_eq_some]
    exact iff_of_eq (congrArg (· = some record) (same key))
  have arrays : draft.records.toArray = draft'.records.toArray := by
    rw [← TreeMap.toArray_toList, lists, TreeMap.toArray_toList]
  unfold freeze
  -- the sizes of the arrays are part of the store, so their proofs go along
  generalize_proofs sizes sizes'
  revert sizes
  rw [arrays]
  exact fun _ => rfl

/-- The name of a store is the only thing that depends on the name it is frozen under. -/
theorem freeze_renamed {draft : Draft P} {table : String} {store : Store P}
    (frozen : draft.freeze table = .ok store) (table' : String) :
    draft.freeze table' = .ok { store with table := table' } := by
  obtain ⟨nothing, rfl⟩ := freeze_eq_ok frozen
  unfold freeze
  simp only
  split
  · next found => exact absurd (found.symm.trans nothing) (Option.some_ne_none _)
  · rfl

end Draft

/-! ### Histories of registrations -/

namespace Registration

variable {history history' : List (Registration P)}

/-- Some registration of a history gives a record to a key. -/
def Registered (history : List (Registration P)) (key : Device) : Prop :=
  ∃ registration ∈ history, (registration.gives? key).isSome

instance (history : List (Registration P)) (key : Device) : Decidable (Registered history key) :=
  inferInstanceAs (Decidable (∃ registration ∈ history, _))

theorem isSome_last?_iff {key : Device} : (last? history key).isSome ↔ Registered history key := by
  simp only [last?, List.findSome?_isSome_iff, List.mem_reverse, Registered]

/-- Two registrations have no key in common. -/
def Apart (first second : Registration P) : Prop :=
  ∀ key, first.gives? key = none ∨ second.gives? key = none

instance : Std.Symm (Apart (P := P)) := ⟨fun _ _ apart key => (apart key).symm⟩

theorem apart_record {first second : Device} (different : first ≠ second) (r s : P) :
    Apart (.record first r) (.record second s) := by
  intro key
  by_cases here : first = key
  · exact .inr (if_neg fun there => different (here.trans there.symm))
  · exact .inl (if_neg here)

/-- When no two registrations share a key, the record of a key is that of any registration which
gives it one. -/
theorem last?_eq_some_iff (apart : history.Pairwise Apart) {key : Device} {record : P} :
    last? history key = some record ↔
      ∃ registration ∈ history, registration.gives? key = some record := by
  constructor
  · intro found
    obtain ⟨registration, member, gives⟩ := List.exists_of_findSome?_eq_some found
    exact ⟨registration, List.mem_reverse.mp member, gives⟩
  · rintro ⟨registration, member, gives⟩
    obtain ⟨record', found⟩ := Option.isSome_iff_exists.mp
      (isSome_last?_iff.mpr ⟨registration, member, Option.isSome_iff_exists.mpr ⟨record, gives⟩⟩)
    obtain ⟨other, member', gives'⟩ := List.exists_of_findSome?_eq_some found
    by_cases same : registration = other
    · rw [found, ← gives', ← same, gives]
    · rcases apart.forall member (List.mem_reverse.mp member') same key with none | none
      · exact absurd (gives.symm.trans none) (Option.some_ne_none _)
      · exact absurd (gives'.symm.trans none) (Option.some_ne_none _)

/-- The order of registrations that share no key does not matter. -/
theorem last?_perm (apart : history.Pairwise Apart) (perm : history'.Perm history) (key : Device) :
    last? history' key = last? history key := by
  have apart' : history'.Pairwise Apart := (perm.pairwise_iff (Std.Symm.symm _ _)).mpr apart
  refine Option.ext fun record => ?_
  rw [last?_eq_some_iff apart', last?_eq_some_iff apart]
  simp only [perm.mem_iff]

/-- Registrations of entries with different keys give each key its record. -/
theorem last?_entries {entries : List (Device × P)} (distinct : (entries.map Prod.fst).Nodup)
    {key : Device} {record : P} :
    last? (entries.map fun entry => .record entry.1 entry.2) key = some record ↔
      (key, record) ∈ entries := by
  have apart : (entries.map fun entry => Registration.record entry.1 entry.2).Pairwise Apart :=
    List.pairwise_map.mpr ((List.pairwise_map.mp distinct).imp fun different =>
      apart_record different _ _)
  rw [last?_eq_some_iff apart]
  constructor
  · rintro ⟨_, listed, gives⟩
    obtain ⟨⟨registered, r⟩, member, rfl⟩ := List.mem_map.mp listed
    obtain ⟨rfl, rfl⟩ : registered = key ∧ r = record := by simpa [gives?] using gives
    exact member
  · intro member
    exact ⟨_, List.mem_map_of_mem member, if_pos rfl⟩

end Registration

/-! ### The global defaults in order -/

/-- Class by class, and type by type within a class. -/
def GlobalBefore (first second : DeviceClass × NumericType) : Prop :=
  first.1.index < second.1.index ∨ first.1 = second.1 ∧ first.2.index < second.2.index

instance : DecidableRel GlobalBefore :=
  fun _ _ => inferInstanceAs (Decidable (_ ∨ _ ∧ _))

theorem globalPairs_pairwise : globalPairs.Pairwise GlobalBefore := by decide

theorem GlobalBefore.asymm {first second : DeviceClass × NumericType}
    (before : GlobalBefore first second) : ¬GlobalBefore second first := by
  rcases before with classes | ⟨classes, types⟩
  · rintro (after | ⟨same, -⟩)
    · omega
    · rw [same] at classes
      omega
  · rw [GlobalBefore, classes]
    omega

/-- In a list in order, the first element that passes a test is the one that passes it with none
before it passing. -/
theorem find?_eq_some_iff_of_pairwise {α : Type} {before : α → α → Prop}
    (asymm : ∀ {a b}, before a b → ¬before b a) {xs : List α} (ordered : xs.Pairwise before)
    {test : α → Bool} {found : α} :
    xs.find? test = some found ↔
      found ∈ xs ∧ test found ∧ ∀ x ∈ xs, before x found → test x = false := by
  induction xs with
  | nil => simp
  | cons first rest ih =>
    obtain ⟨later, ordered⟩ := List.pairwise_cons.mp ordered
    cases passes : test first with
    | true =>
      rw [List.find?_cons_of_pos passes, Option.some.injEq]
      constructor
      · rintro rfl
        refine ⟨List.mem_cons_self, passes, fun x member earlier => ?_⟩
        rcases List.mem_cons.mp member with rfl | member
        · exact absurd earlier (asymm earlier)
        · exact absurd earlier (asymm (later x member))
      · rintro ⟨member, -, fail⟩
        rcases List.mem_cons.mp member with same | member
        · exact same.symm
        · have fails := fail first List.mem_cons_self (later found member)
          exact absurd (passes.symm.trans fails) (by decide)
    | false =>
      rw [List.find?_cons_of_neg (by simp [passes]), ih ordered]
      constructor
      · rintro ⟨member, here, fail⟩
        exact ⟨List.mem_cons_of_mem _ member, here,
          List.forall_mem_cons.mpr ⟨fun _ => passes, fail⟩⟩
      · rintro ⟨member, here, fail⟩
        refine ⟨?_, here, (List.forall_mem_cons.mp fail).2⟩
        rcases List.mem_cons.mp member with rfl | member
        · exact absurd (passes.symm.trans here) (by decide)
        · exact member

theorem find?_globalPairs {test : DeviceClass × NumericType → Bool}
    {pair : DeviceClass × NumericType} :
    globalPairs.find? test = some pair ↔
      test pair ∧ ∀ earlier, GlobalBefore earlier pair → test earlier = false := by
  rw [find?_eq_some_iff_of_pairwise GlobalBefore.asymm globalPairs_pairwise]
  have every (pair : DeviceClass × NumericType) : pair ∈ globalPairs := mem_globalPairs _ _
  simp only [every, true_and, true_imp_iff]

/-! ### What a history leaves in a store -/

/-- The record and the tier that a device is answered with. -/
def Store.answer (store : Store P) (device : Device) : P × Tier :=
  (store.record (store.resolve device).1, (store.resolve device).2)

/-- A store lists a flat map: every key that has a record stands there with it, the keys are strictly
increasing, so that each of them stands there once, and there are as many entries as records. -/
structure Store.Lists (store : Store P) (map : Device → Option P) : Prop where
  mem : ∀ key record, (key, record) ∈ store.entries ↔ map key = some record
  ordered : Ordered store.entries
  length : store.entries.length = store.size

open Registration

/-- A frozen store lists the last record that the history gave to every key. -/
theorem Draft.lists_ofRegistrations {history : List (Registration P)} {table : String}
    {store : Store P} (frozen : (ofRegistrations history).freeze table = .ok store) :
    store.Lists (last? history) where
  mem key record := by
    rw [Store.mem_entries, Store.get?, find?_freeze frozen, get?_ofRegistrations]
  ordered := List.pairwise_map.mpr (Levels.ordered_toList store.levels)
  length := by
    rw [entries_freeze frozen]
    obtain ⟨nothing, rfl⟩ := freeze_eq_ok frozen
    exact (congrArg List.length TreeMap.toList_toArray).symm.trans (Array.size_map ..).symm

/-- The entries of a store, registered anew, freeze into the same store. -/
theorem Draft.freeze_entries {history : List (Registration P)} {table : String} {store : Store P}
    (frozen : (ofRegistrations history).freeze table = .ok store) {entries : List (Device × P)}
    (perm : entries.Perm store.entries) :
    (ofRegistrations (entries.map fun entry => .record entry.1 entry.2)).freeze table =
      .ok store := by
  have lists := lists_ofRegistrations frozen
  have distinct : (entries.map Prod.fst).Nodup :=
    (perm.map Prod.fst).nodup_iff.mpr lists.ordered.nodup_keys
  rw [← frozen]
  refine freeze_congr (fun key => Option.ext fun record => ?_) table
  rw [get?_ofRegistrations, get?_ofRegistrations, last?_entries distinct, perm.mem_iff,
    lists.mem]

/-- **What a store holds, and when there is one.** A history freezes exactly when it has registered
the global default of every class and element type; else the first one it has not registered is
reported, class by class. A store lists every registered key once, with the record that was registered
last, in strictly increasing order; its entries, registered anew in any order and under any name,
freeze into a store that answers every device alike. So registrations that share no key may come in
any order. -/
theorem Draft.freeze_ofRegistrations (history : List (Registration P)) (table : String) :
    ((∃ store, (ofRegistrations history).freeze table = .ok store) ↔
      ∀ deviceClass numericType, Registered history (.globalDefault deviceClass numericType)) ∧
    (∀ missing, (ofRegistrations history).freeze table = .error missing ↔
      missing.table = table ∧
      ¬Registered history (.globalDefault missing.deviceClass missing.numericType) ∧
      ∀ deviceClass numericType,
        GlobalBefore (deviceClass, numericType) (missing.deviceClass, missing.numericType) →
        Registered history (.globalDefault deviceClass numericType)) ∧
    (∀ store, (ofRegistrations history).freeze table = .ok store →
      store.Lists (last? history) ∧
      ∀ entries : List (Device × P), entries.Perm store.entries → ∀ table', ∃ again,
        (ofRegistrations (entries.map fun entry => .record entry.1 entry.2)).freeze table' =
          .ok again ∧
        again.entries = store.entries ∧ ∀ device, again.answer device = store.answer device) ∧
    ∀ history', history'.Perm history → history.Pairwise Apart →
      (ofRegistrations history').freeze table = (ofRegistrations history).freeze table := by
  have absent (key : Device) :
      ((ofRegistrations history).get? key).isNone = true ↔ ¬Registered history key := by
    rw [get?_ofRegistrations, ← isSome_last?_iff, Option.isNone_iff_eq_none,
      Option.not_isSome_iff_eq_none]
  have present (key : Device) :
      ((ofRegistrations history).get? key).isNone = false ↔ Registered history key := by
    rw [get?_ofRegistrations, ← isSome_last?_iff, Option.isNone_eq_false_iff]
  have error (missing : Incomplete) :
      (ofRegistrations history).freeze table = .error missing ↔ _ := freeze_eq_error_iff
  simp only [find?_globalPairs, absent, present, Prod.forall] at error
  refine ⟨⟨?_, ?_⟩, error, fun store frozen => ⟨lists_ofRegistrations frozen, ?_⟩, ?_⟩
  · rintro ⟨store, frozen⟩ deviceClass numericType
    have found := find?_globalDefault frozen deviceClass numericType
    have held := find?_freeze frozen (.globalDefault deviceClass numericType)
    rw [found, get?_ofRegistrations] at held
    exact isSome_last?_iff.mp (held ▸ rfl)
  · intro complete
    refine freeze_of_complete _ table fun deviceClass numericType => ?_
    rw [get?_ofRegistrations]
    exact isSome_last?_iff.mpr (complete deviceClass numericType)
  · intro entries perm table'
    have again := freeze_renamed (freeze_entries frozen perm) table'
    exact ⟨_, again, rfl, fun device => Store.answer_congr frozen again device fun _ _ => rfl⟩
  · intro history' perm apart
    refine freeze_congr (fun key => ?_) table
    rw [get?_ofRegistrations, get?_ofRegistrations, last?_perm apart perm]

/-- A history that registers a family twice, with the global defaults in between. -/
def renewedHistory : List (Registration Nat) :=
  [.record Builtin.fermi 1, .defaults 2, .record Builtin.volcanicIslands 3,
    .record Builtin.fermi 4]

/-- A history of two registrations that leaves nearly all global defaults out. -/
def scantHistory : List (Registration Nat) :=
  [.record Builtin.fermi 1, .record (.globalDefault .gpu .int) 2]

/-- The first history freezes, and the entries of its store in reverse freeze into a store with the
same answers; of the second the default of the second element type is reported, in either order. -/
theorem Draft.freeze_renewedHistory :
    (∃ store, (ofRegistrations renewedHistory).freeze "records" = .ok store ∧
      (Builtin.fermi, 4) ∈ store.entries ∧ ∃ again,
        (ofRegistrations (store.entries.reverse.map fun entry => .record entry.1 entry.2)).freeze
          "again" = .ok again ∧ ∀ device, again.answer device = store.answer device) ∧
    (ofRegistrations scantHistory).freeze "records" = .error ⟨"records", .gpu, .uint⟩ ∧
    (ofRegistrations scantHistory.reverse).freeze "records" =
      .error ⟨"records", .gpu, .uint⟩ := by
  obtain ⟨complete, -, contents, -⟩ := freeze_ofRegistrations renewedHistory "records"
  obtain ⟨-, incomplete, -, anyOrder⟩ := freeze_ofRegistrations scantHistory "records"
  obtain ⟨store, frozen⟩ := complete.mpr fun deviceClass numericType => by
    cases deviceClass <;> cases numericType <;> decide
  obtain ⟨lists, renewed⟩ := contents store frozen
  obtain ⟨again, frozenAgain, -, alike⟩ :=
    renewed store.entries.reverse (List.reverse_perm _) "again"
  have missing : (ofRegistrations scantHistory).freeze "records" =
      .error ⟨"records", .gpu, .uint⟩ := by
    refine (incomplete ⟨"records", .gpu, .uint⟩).mpr ⟨rfl, by decide, ?_⟩
    intro deviceClass numericType before
    cases deviceClass <;> cases numericType <;> revert before <;> decide
  have apart : scantHistory.Pairwise Apart :=
    List.pairwise_pair.mpr (apart_record (by decide) _ _)
  refine ⟨⟨store, frozen, ?_, again, frozenAgain, alike⟩, missing, ?_⟩
  · exact (lists.mem Builtin.fermi 4).mpr (by decide)
  · exact (anyOrder _ (List.reverse_perm _) apart).trans missing

end TunedKernel
