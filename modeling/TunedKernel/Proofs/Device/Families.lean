/-
**Families from the names of NVIDIA devices.**

* `IsBoard`, `IsModel` — the words that name a compute board, and the digits that name a model.
* `ofBoard?_eq`, `ofModel_ne_unknown_iff` — the family of a board, and the model numbers that have one.
* `detect_nvidia` — the first board of a name decides; without one, the first model does, whatever stands
  around it; and without either the family is not known.
* `gtx860_undetected` — the numbers from 800 to 899 have no family.
-/

import TunedKernel.Device.Detection
import TunedKernel.Proofs.Text.Numerals

namespace TunedKernel.Architecture

open TunedKernel.Text

/-! ### Boards -/

/-- Whether a character belongs to a word. -/
def notBlank (c : Char) : Bool := !isBlank c

/-- A word that begins with the letter of a family of compute boards and a digit. -/
def IsBoard (word : List Char) : Prop :=
  ∃ letter digit rest, word = letter :: digit :: rest ∧ (letter = 'K' ∨ letter = 'M') ∧ digit.isDigit

theorem ofBoard?_eq {word : List Char} (board : IsBoard word) :
    ofBoard? word = some (if word.head? = some 'K' then kepler else maxwell) := by
  obtain ⟨letter, digit, rest, rfl, rfl | rfl, isDigit⟩ := board
  · simp [ofBoard?, isDigit]
  · simp [ofBoard?, isDigit]

theorem isSome_ofBoard?_iff (word : List Char) : (ofBoard? word).isSome ↔ IsBoard word := by
  refine ⟨fun found => ?_, fun board => by rw [ofBoard?_eq board]; rfl⟩
  unfold ofBoard? at found
  split at found
  · next letter digit rest =>
    split_ifs at found with isDigit isK isM
    · exact ⟨letter, digit, rest, rfl, Or.inl (beq_iff_eq.mp isK), isDigit⟩
    · exact ⟨letter, digit, rest, rfl, Or.inr (beq_iff_eq.mp isM), isDigit⟩
    · cases found
    · cases found
  · cases found

instance (word : List Char) : Decidable (IsBoard word) :=
  decidable_of_iff _ (isSome_ofBoard?_iff word)

/-- The families of words are those of the maximal runs of characters that are not blank. -/
theorem findSome?_words (name : String) :
    ((words name).findSome? fun word => ofBoard? word.toList) =
      (runs notBlank name.toList).findSome? ofBoard? := by
  rw [words, List.findSome?_map]
  refine congrArg (List.findSome? · _) (funext fun word => ?_)
  rw [Function.comp_apply, String.toList_ofList]

/-! ### Models -/

/-- Digits that name a model: at least three of them, and a number of 32 bits. -/
def IsModel (digits : List Char) : Prop := 3 ≤ digits.length ∧ readDecimal digits < UInt32.size

instance (digits : List Char) : Decidable (IsModel digits) :=
  inferInstanceAs (Decidable (_ ∧ _))

/-- The number that is looked for in a run of digits. -/
theorem word32?_of_run {digits : List Char} (all : ∀ c ∈ digits, c.isDigit) :
    (if 3 ≤ digits.length then word32? digits else none) =
      if IsModel digits then some (UInt32.ofNat (readDecimal digits)) else none := by
  by_cases long : 3 ≤ digits.length
  · have some : digits ≠ [] := List.ne_nil_of_length_pos (by omega)
    rw [word32?_of_digits all]
    simp [IsModel, long, some]
  · simp [IsModel, long]

theorem isSome_word32?_iff (digits : List Char) (all : ∀ c ∈ digits, c.isDigit) :
    (if 3 ≤ digits.length then word32? digits else none).isSome ↔ IsModel digits := by
  rw [word32?_of_run all]
  split_ifs with model <;> simp [model]

/-- The first model of a name is its model number, whatever stands around it. -/
theorem modelNumber?_of_first {name : String} {digits : List Char}
    (first : IsFirstRun Char.isDigit IsModel name.toList digits) :
    modelNumber? name = some (UInt32.ofNat (readDecimal digits)) := by
  have model : IsModel digits := first.holds
  rw [modelNumber?, first.findSome?_eq isSome_word32?_iff, word32?_of_run first.inside, if_pos model]

theorem modelNumber?_eq_none_iff (name : String) :
    modelNumber? name = none ↔ ¬HasRun Char.isDigit IsModel name.toList :=
  findSome?_runs_eq_none_iff isSome_word32?_iff

/-- The model numbers that have a family. -/
theorem ofModel_ne_unknown_iff (n : Nat) : ofModel n ≠ unknown ↔
    200 ≤ n ∧ n ≤ 799 ∨ 900 ≤ n ∧ n ≤ 999 ∨ 8000 ≤ n ∧ n ≤ 9999 := by
  unfold ofModel
  split_ifs <;> simp <;> omega

/-! ### Names -/

/-- Without a board, the first model decides. -/
theorem detect_of_model {name : String} {digits : List Char}
    (noBoard : ¬HasRun notBlank IsBoard name.toList)
    (first : IsFirstRun Char.isDigit IsModel name.toList digits) :
    detect Vendor.nvidia name = ofModel (readDecimal digits) := by
  have fits : readDecimal digits < UInt32.size := first.holds.2
  have none := (findSome?_runs_eq_none_iff fun word _ => isSome_ofBoard?_iff word).mpr noBoard
  rw [detect, if_pos rfl, ofNvidiaName, findSome?_words, none, modelNumber?_of_first first]
  exact congrArg ofModel (UInt32.toNat_ofNat_of_lt' fits)

/-- Without a board and without a model, the family is not known. -/
theorem detect_of_neither {name : String} (noBoard : ¬HasRun notBlank IsBoard name.toList)
    (noModel : ¬HasRun Char.isDigit IsModel name.toList) : detect Vendor.nvidia name = unknown := by
  have none := (findSome?_runs_eq_none_iff fun word _ => isSome_ofBoard?_iff word).mpr noBoard
  rw [detect, if_pos rfl, ofNvidiaName, findSome?_words, none, (modelNumber?_eq_none_iff name).mpr noModel]

/-- **Families of NVIDIA devices.** In a name with a word that begins with `K` or `M` and a digit, the first
such word decides between Kepler and Maxwell. In any other name the first run of at least three digits that
is a number of 32 bits decides alone; and the family is known just when there is such a run, with a number
from 200 to 799, from 900 to 999 or from 8000 to 9999. -/
theorem detect_nvidia (name : String) :
    (HasRun notBlank IsBoard name.toList → ∃ word, IsFirstRun notBlank IsBoard name.toList word ∧
      detect Vendor.nvidia name = if word.head? = some 'K' then kepler else maxwell) ∧
    (¬HasRun notBlank IsBoard name.toList →
      (∀ digits, IsFirstRun Char.isDigit IsModel name.toList digits →
        detect Vendor.nvidia name = ofModel (readDecimal digits)) ∧
      (detect Vendor.nvidia name ≠ unknown ↔
        ∃ digits, IsFirstRun Char.isDigit IsModel name.toList digits ∧
          (200 ≤ readDecimal digits ∧ readDecimal digits ≤ 799 ∨
            900 ≤ readDecimal digits ∧ readDecimal digits ≤ 999 ∨
            8000 ≤ readDecimal digits ∧ readDecimal digits ≤ 9999))) := by
  refine ⟨fun board => ?_, fun noBoard => ⟨fun digits => detect_of_model noBoard, ?_⟩⟩
  · obtain ⟨word, first, -⟩ := board.existsUnique_first
    refine ⟨word, first, ?_⟩
    rw [detect, if_pos rfl, ofNvidiaName, findSome?_words,
      first.findSome?_eq fun word _ => isSome_ofBoard?_iff word, ofBoard?_eq first.holds]
  · constructor
    · intro known
      by_cases model : HasRun Char.isDigit IsModel name.toList
      · obtain ⟨digits, first, -⟩ := model.existsUnique_first
        rw [detect_of_model noBoard first, ofModel_ne_unknown_iff] at known
        exact ⟨digits, first, known⟩
      · exact absurd (detect_of_neither noBoard model) known
    · rintro ⟨digits, first, range⟩
      rw [detect_of_model noBoard first]
      exact (ofModel_ne_unknown_iff _).mpr range

/-- No word of the first name is a board, and its only model is the number 780; the second has a board. -/
theorem detect_nvidia_kepler :
    ¬HasRun notBlank IsBoard "GeForce GTX 780 Ti".toList ∧
      IsFirstRun Char.isDigit IsModel "GeForce GTX 780 Ti".toList "780".toList ∧
      detect Vendor.nvidia "GeForce GTX 780 Ti" = kepler ∧
      IsFirstRun notBlank IsBoard "Tesla K20m 5120".toList "K20m".toList ∧
      detect Vendor.nvidia "Tesla K20m 5120" = kepler := by
  have noBoard : ¬HasRun notBlank IsBoard "GeForce GTX 780 Ti".toList := by
    rw [hasRun_iff]
    decide +kernel
  have model : IsFirstRun Char.isDigit IsModel "GeForce GTX 780 Ti".toList "780".toList := by
    refine ⟨"GeForce GTX ".toList, " Ti".toList, rfl,
      ⟨by decide, List.all_eq_true.mp (by decide), by simp, .cons (by decide) _⟩, by decide, ?_⟩
    rw [hasRun_iff]
    decide +kernel
  have board : IsFirstRun notBlank IsBoard "Tesla K20m 5120".toList "K20m".toList := by
    refine ⟨"Tesla ".toList, " 5120".toList, rfl,
      ⟨by decide, List.all_eq_true.mp (by decide), by simp [notBlank, isBlank], .cons (by decide) _⟩, by decide, ?_⟩
    rw [hasRun_iff]
    decide +kernel
  have has : HasRun notBlank IsBoard "Tesla K20m 5120".toList := by
    obtain ⟨before, after, split, is, here, -⟩ := board
    exact ⟨before, _, after, split, is, here⟩
  obtain ⟨word, first, family⟩ := (detect_nvidia "Tesla K20m 5120").1 has
  rw [has.existsUnique_first.unique first board] at family
  exact ⟨noBoard, model, ((detect_nvidia "GeForce GTX 780 Ti").2 noBoard).1 _ model, board, family⟩

/-- **The series of the 800 numbers is passed over.** The name has no board, and its first model has a number
from 200 to 999; but the device counts as one of no known family. -/
theorem gtx860_undetected :
    ¬HasRun notBlank IsBoard "GeForce GTX 860M".toList ∧
      IsFirstRun Char.isDigit IsModel "GeForce GTX 860M".toList "860".toList ∧
      (200 ≤ readDecimal "860".toList ∧ readDecimal "860".toList ≤ 999) ∧
      detect Vendor.nvidia "GeForce GTX 860M" = unknown := by
  have noBoard : ¬HasRun notBlank IsBoard "GeForce GTX 860M".toList := by
    rw [hasRun_iff]
    decide +kernel
  have noModel : ¬HasRun Char.isDigit IsModel "GeForce GTX ".toList := by
    rw [hasRun_iff]
    decide +kernel
  refine ⟨noBoard, ⟨"GeForce GTX ".toList, "M".toList, rfl,
    ⟨by decide, List.all_eq_true.mp (by decide), by simp, .cons (by decide) _⟩, by decide, noModel⟩, by decide, by decide +kernel⟩

end TunedKernel.Architecture
