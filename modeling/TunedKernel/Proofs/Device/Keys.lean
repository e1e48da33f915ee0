/-
**Keys read back, and are told apart by how they are written.**

* `Vendor.IsSpelling` — what a vendor may be written as; `Vendor.parse_eq_ok_iff` — these are the texts that
  are read as it, in any case and between blanks, and `Vendor.parse_text` — its own text is one of them.
* `Vendor.ofDatum?_datum`, `Device.ofDatum?_datum` — vendors and devices are read from their form in a
  document.
* `Device.prefixFree_text` — the text of a device is read in one way, whatever its name holds and whatever
  stands behind it.
* `Device.keys_read_back` — so the texts of a listing are distinct, and the report of a record that is not
  consistent names one key.
-/

import TunedKernel.Proofs.Operation.Documents
import TunedKernel.Proofs.Text.Quoting
import TunedKernel.Proofs.Tuning.Contents

namespace TunedKernel

open TunedKernel.Text

/-! ### Plain texts -/

/-- A character that reading a key leaves as it is, and that does not separate the parts of one. -/
def isPlain (c : Char) : Bool := !isBlank c && c.toLower == c && c != '/'

theorem isPlain_of_isDigit {c : Char} (digit : c.isDigit) : isPlain c := by
  have every : ∀ d < 10, (Nat.toDigits 10 d).all isPlain := by decide
  obtain ⟨small, single⟩ := toDigits_digit digit
  exact List.all_eq_true.mp (every _ small) c (single ▸ List.mem_singleton_self c)

theorem isPlain_iff {c : Char} : isPlain c ↔ isBlank c = false ∧ c.toLower = c ∧ c ≠ '/' := by
  simp [isPlain, and_assoc]

theorem foldCase_trim {s : String} (plain : ∀ c ∈ s.toList, isPlain c) : foldCase (trim s) = s := by
  have keep {cs : List Char} (inner : ∀ c ∈ cs, isPlain c) : cs.dropWhile isBlank = cs := by
    cases cs with
    | nil => rfl
    | cons c cs =>
      obtain ⟨solid, -⟩ := isPlain_iff.mp (inner c List.mem_cons_self)
      rw [List.dropWhile_cons, solid, if_neg Bool.false_ne_true]
  have trimmed : trim s = s := by
    rw [trim, keep plain, keep fun c member => plain c (List.mem_reverse.mp member), List.reverse_reverse,
      String.ofList_toList]
  have folded : s.toList.map Char.toLower = s.toList := by
    rw [List.map_congr_left fun c member => (isPlain_iff.mp (plain c member)).2.1, List.map_id']
  rw [trimmed, foldCase, folded, String.ofList_toList]

/-! ### Vendors -/

namespace Vendor

/-- The names of the vendors that have one, and those of their companies. -/
def namings : List (String × Vendor) :=
  [("unknown", unknown), ("", unknown), ("amd", amd), ("advanced micro devices, inc.", amd),
    ("nvidia", nvidia), ("nvidia corporation", nvidia), ("intel", intel), ("intel(r) corporation", intel)]

/-- What a vendor may be written as: a name of it, or its id with zeros before it and a `+` before these, or
without. -/
def IsSpelling (v : Vendor) (s : String) : Prop :=
  (s, v) ∈ namings ∨ ∃ (sign : List Char) (zeros : Nat), (sign = [] ∨ sign = ['+']) ∧
    s.toList = sign ++ List.replicate zeros '0' ++ Nat.toDigits 10 v.id.toNat

theorem ofFolded?_eq_some_iff {v : Vendor} {s : String} : ofFolded? s = some v ↔ v.IsSpelling s := by
  rw [IsSpelling, ← word32?_eq_some_iff]
  by_cases named : ∃ u, (s, u) ∈ namings
  · -- no name is a numeral
    obtain ⟨u, member⟩ := named
    have every : ∀ entry ∈ namings, ofFolded? entry.1 = some entry.2 ∧ word32? entry.1.toList = none ∧
        ∀ other ∈ namings, other.1 = entry.1 → other.2 = entry.2 := by decide
    obtain ⟨found, noNumeral, alone⟩ := every _ member
    rw [found, noNumeral]
    constructor
    · rintro ⟨⟩
      exact .inl member
    · rintro (member' | read)
      · exact congrArg some (alone _ member' rfl).symm
      · exact nomatch read
  · have names : ∀ entry ∈ namings, s ≠ entry.1 := by
      rintro ⟨name, u⟩ member rfl
      exact named ⟨u, member⟩
    have numeral : ofFolded? s = (word32? s.toList).map Vendor.mk := by
      simp [namings] at names
      simp [ofFolded?, names]
    have noName : (s, v) ∉ namings := fun member => named ⟨v, member⟩
    rw [numeral, Option.map_eq_some_iff]
    constructor
    · rintro ⟨id, read, rfl⟩
      exact .inr read
    · rintro (member | read)
      · exact absurd member noName
      · exact ⟨v.id, read, rfl⟩

/-- **The texts that are read as a vendor.** -/
theorem parse_eq_ok_iff {v : Vendor} {s : String} :
    parse s = .ok v ↔ v.IsSpelling (foldCase (trim s)) := by
  rw [← ofFolded?_eq_some_iff, parse]
  cases ofFolded? (foldCase (trim s)) <;> simp

theorem text_cases (v : Vendor) :
    v.text.toList = Nat.toDigits 10 v.id.toNat ∨ v ∈ [unknown, amd, nvidia, intel] := by
  unfold text knownName?
  split_ifs <;> simp_all

theorem isPlain_of_mem_text (v : Vendor) : ∀ c ∈ v.text.toList, isPlain c := by
  rcases v.text_cases with digits | known
  · rw [digits]
    exact fun c member => isPlain_of_isDigit (isDigit_of_mem_toDigits _ c member)
  · have every : ∀ v ∈ [unknown, amd, nvidia, intel], v.text.toList.all isPlain := by decide
    exact List.all_eq_true.mp (every v known)

theorem isSpelling_text (v : Vendor) : v.IsSpelling v.text := by
  rcases v.text_cases with digits | known
  · exact .inr ⟨[], 0, .inl rfl, digits⟩
  · have every : ∀ v ∈ [unknown, amd, nvidia, intel], (v.text, v) ∈ namings := by decide
    exact .inl (every v known)

/-- A vendor is read from its own text. -/
theorem parse_text (v : Vendor) : parse v.text = .ok v := by
  rw [parse_eq_ok_iff, foldCase_trim v.isPlain_of_mem_text]
  exact v.isSpelling_text

theorem ofDatum?_datum (v : Vendor) : ofDatum? v.datum = some v := by
  unfold datum
  cases name : v.knownName? with
  | some name' =>
    have same : v.text = name' := by rw [text, name, Option.getD_some]
    rw [← same, ofDatum?, v.parse_text]
    rfl
  | none =>
    have fits : v.id.toNat < UInt32.size := v.id.toNat_lt
    simp [ofDatum?, Datum.ofNat, Datum.word32?, Datum.natural?, fits]

theorem exact_datum (v : Vendor) : v.datum.Exact := by
  unfold datum
  cases v.knownName? with
  | some name => exact .text name
  | none => exact .natural (v.id.toNat_lt.trans (by decide))

end Vendor

/-! ### Devices -/

theorem DeviceClass.ofName?_text (c : DeviceClass) : ofName? c.text = some c := by cases c <;> decide

theorem Architecture.ofName?_text (a : Architecture) : ofName? a.text = some a := by cases a <;> decide

namespace Device

theorem ofDatum?_datum (d : Device) : ofDatum? d.datum = some d := by
  simp [datum, members, ofDatum?, Datum.record?, Members.read?, Members.one?, Members.valuesOf, Datum.text?,
    Vendor.ofDatum?_datum, DeviceClass.ofName?_text, Architecture.ofName?_text, NumericType.ofName?_text]

theorem exact_datum (d : Device) : d.datum.Exact :=
  .record (by simp [members, Datum.Exact.text, Vendor.exact_datum])

end Device

/-! ### The texts of keys -/

/-- Plain texts with a slash behind them. -/
theorem prefixFree_part {α : Type} {code : α → String} (injective : Function.Injective code)
    (plain : ∀ a, ∀ c ∈ (code a).toList, isPlain c) : PrefixFree fun a => (code a).toList ++ ['/'] :=
  .terminated (p := isPlain) (fun _ _ same => injective (String.toList_inj.mp same)) plain (by decide)

theorem Vendor.prefixFree_text : PrefixFree fun v : Vendor => v.text.toList ++ ['/'] := by
  refine prefixFree_part (fun v w same => ?_) isPlain_of_mem_text
  have read : parse v.text = .ok w := same ▸ w.parse_text
  exact Except.ok.inj (v.parse_text.symm.trans read)

theorem DeviceClass.prefixFree_text : PrefixFree fun c : DeviceClass => c.text.toList ++ ['/'] := by
  have plain (c : DeviceClass) : c.text.toList.all isPlain := by cases c <;> decide
  refine prefixFree_part (fun c c' same => ?_) fun c => List.all_eq_true.mp (plain c)
  exact Option.some.inj (c.ofName?_text.symm.trans (same ▸ c'.ofName?_text))

theorem Architecture.prefixFree_text : PrefixFree fun a : Architecture => a.text.toList ++ ['/'] := by
  have plain (a : Architecture) : a.text.toList.all isPlain := by cases a <;> decide
  refine prefixFree_part (fun a a' same => ?_) fun a => List.all_eq_true.mp (plain a)
  exact Option.some.inj (a.ofName?_text.symm.trans (same ▸ a'.ofName?_text))

theorem NumericType.prefixFree_text : PrefixFree fun t : NumericType => t.text.toList := by
  have apart : ∀ t ∈ all, ∀ t' ∈ all, t.text.toList <+: t'.text.toList → t = t' := by decide
  exact .of_isPrefix fun t t' => apart t t.mem_all t' t'.mem_all

/-- **The text of a device is read in one way**, whatever its name holds and whatever stands behind it. -/
theorem Device.prefixFree_text : PrefixFree fun d : Device => d.text.toList := by
  intro d e rest rest' same
  have split (d : Device) (rest : List Char) : d.text.toList ++ rest =
      d.vendor.text.toList ++ ['/'] ++ (d.deviceClass.text.toList ++ ['/'] ++
        (d.architecture.text.toList ++ ['/'] ++ ((quoted d.name).toList ++
          ('/' :: (d.numericType.text.toList ++ rest))))) := by
    simp [Device.text]
  simp only [split] at same
  obtain ⟨vendor, same⟩ := Vendor.prefixFree_text same
  obtain ⟨deviceClass, same⟩ := DeviceClass.prefixFree_text same
  obtain ⟨architecture, same⟩ := Architecture.prefixFree_text same
  obtain ⟨name, same⟩ := prefixFree_quoted same
  obtain ⟨numericType, rests⟩ := NumericType.prefixFree_text (List.cons.inj same).2
  cases d
  cases e
  simp_all

theorem Device.text_injective : Function.Injective text := by
  intro d e same
  exact prefixFree_text.injective (congrArg String.toList same)

/-! ### Reports and listings -/

theorem Table.prefixFree_name : PrefixFree fun t : Table => t.name.toList ++ ['\x60'] := by
  have apart : ∀ t t' : Table, t.name.toList = t'.name.toList → t = t' := by decide
  have inside : ∀ t : Table, t.name.toList.all (· != '\x60') := by decide
  exact .terminated (p := (· != '\x60')) (fun t t' => apart t t') (fun t => List.all_eq_true.mp (inside t))
    (by decide)

theorem ConfigError.toList_message (table key reason : String) :
    (invalidRecord table key reason).message.toList =
      "Invalid parameters in table \x60".toList ++ (table.toList ++ ['\x60'] ++ (" for ".toList ++
        (key.toList ++ (": ".toList ++ reason.toList)))) := by
  have itself (s : String) : toString s = s := rfl
  have mark : "\x60 for ".toList = ['\x60'] ++ " for ".toList := by decide
  dsimp only [message]
  simp only [itself, String.toList_append, List.append_assoc, mark]

/-- The report of a record that is not consistent names its table and its key. -/
theorem Row.check_names {P Q : Type} [TunedRecord P] [TunedRecord Q] {t t' : Table} {row : Row P}
    {row' : Row Q} {e e' : ConfigError} (refused : row.check t.name = .error (.refused e))
    (refused' : row'.check t'.name = .error (.refused e')) (same : e.message = e'.message) :
    t = t' ∧ row.key = row'.key := by
  have report {R : Type} [TunedRecord R] {table : String} {row : Row R} {e : ConfigError}
      (refused : row.check table = .error (.refused e)) :
      ∃ reason, e = .invalidRecord table row.key.text reason := by
    unfold Row.check at refused
    cases checked : TunedRecord.check row.record with
    | ok u => rw [checked] at refused; cases refused
    | error fault =>
      rw [checked] at refused
      cases fault with
      | overflow operation => cases refused
      | refused flaw =>
        cases refused
        exact ⟨flaw.message, rfl⟩
  obtain ⟨reason, rfl⟩ := report refused
  obtain ⟨reason', rfl⟩ := report refused'
  have texts := congrArg String.toList same
  rw [ConfigError.toList_message, ConfigError.toList_message, List.append_cancel_left_eq] at texts
  obtain ⟨table, behind⟩ := Table.prefixFree_name texts
  obtain ⟨key, -⟩ := Device.prefixFree_text (List.append_cancel_left behind)
  exact ⟨table, key⟩

/-- The texts of a listing are distinct. -/
theorem Store.nodup_texts {P : Type} (store : Store P) :
    (store.entries.map fun entry => entry.1.text).Nodup := by
  have keys : (store.entries.map Prod.fst).Nodup := by
    rw [entries, List.map_map]
    exact store.levels.ordered_toList.nodup_keys
  have texts := keys.map Device.text_injective
  rwa [List.map_map] at texts

namespace Device

/-- **Keys read back.** Every vendor is read from its text and from its form in a document, and what is read
as a vendor is one of its spellings, so the text of the vendor is read in the same way. Every device is read
from its form in a document. And different keys have different texts, whatever their names hold: those of a
listing are distinct, and the report of a record that is not consistent names one table and one key. -/
theorem keys_read_back :
    (∀ v : Vendor, Vendor.parse v.text = .ok v ∧
      (Json.read? (Json.write v.datum)).bind Vendor.ofDatum? = some v) ∧
    (∀ (s : String) (v : Vendor), (Vendor.parse s = .ok v ↔ v.IsSpelling (foldCase (trim s))) ∧
      (Vendor.parse s = .ok v → Vendor.parse v.text = Vendor.parse s)) ∧
    (∀ d : Device, (Json.read? (Json.write d.datum)).bind ofDatum? = some d) ∧
    Function.Injective text ∧
    (∀ (P : Type) (store : Store P), (store.entries.map fun entry => entry.1.text).Nodup) ∧
    ∀ (t t' : Table) (row : Row t.Record) (row' : Row t'.Record) (e e' : ConfigError),
      row.check t.name = .error (.refused e) → row'.check t'.name = .error (.refused e') →
      e.message = e'.message → t = t' ∧ row.key = row'.key := by
  refine ⟨fun v => ⟨v.parse_text, ?_⟩, fun s v => ⟨Vendor.parse_eq_ok_iff, fun read => ?_⟩, fun d => ?_,
    text_injective, fun P store => store.nodup_texts, fun t t' row row' e e' => Row.check_names⟩
  · rw [Json.read?_write v.exact_datum, Option.bind_some, v.ofDatum?_datum]
  · rw [v.parse_text, read]
  · rw [Json.read?_write d.exact_datum, Option.bind_some, d.ofDatum?_datum]

/-- A device whose name holds what separates the parts of a key and what ends a quoted text. -/
def slashed : Device := ⟨Vendor.nvidia, .gpu, .kepler, "K20\"/float\\\t", .float⟩

/-- The same with another element type in its name. -/
def slashedInt : Device := { slashed with name := "K20\"/int\\\t" }

/-- A row of that device with a width that kernel code has no vectors of. -/
def slashedRow (localSize : UInt32) : Row (Table.Record .vectorStatements) :=
  ⟨slashed, ⟨3, localSize, 1, true⟩⟩

theorem keys_read_back_slashed : Vendor.parse "\u00a0+004318\t" = .ok Vendor.nvidia ∧
    Vendor.parse Vendor.nvidia.text = .ok Vendor.nvidia ∧
    slashed ≠ slashedInt ∧ slashed.text ≠ slashedInt.text ∧
    ∃ e e', (slashedRow 0).check "vector_axpy" = .error (.refused e) ∧
      (slashedRow 1).check "vector_axpy" = .error (.refused e') ∧ e.message = e'.message ∧
      (slashedRow 0).key = (slashedRow 1).key := by
  have read : Vendor.parse "\u00a0+004318\t" = .ok Vendor.nvidia := by decide +kernel
  have different : slashed ≠ slashedInt := by decide
  have refused (localSize : UInt32) : (slashedRow localSize).check (Table.name .vectorStatements) =
      .error (.refused (.invalidRecord "vector_axpy" slashed.text (Flaw.width 3).message)) := rfl
  obtain ⟨-, spelled, -, injective, -, named⟩ := keys_read_back
  obtain ⟨-, key⟩ := named .vectorStatements .vectorStatements (slashedRow 0) (slashedRow 1) _ _ (refused 0)
    (refused 1) rfl
  exact ⟨read, ((spelled _ _).2 read).trans read, different, injective.ne different, _, _, refused 0,
    refused 1, rfl, key⟩

end Device

end TunedKernel
