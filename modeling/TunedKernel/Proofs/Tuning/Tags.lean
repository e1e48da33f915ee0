/-
**Tags identify records.**

A tag is a row of labels with a number behind each, and perhaps marks that are no numbers.

* `labelled` — numbers behind their labels; `labelled_append_inj` — they are read in one way only, since a
  label does not begin with a digit and so ends the number in front of it.
* `VectorTuning.tag_injective` and so on — the tag of every kind of record is such a row.
* `tag_identifies` — records of a table with the same tag are the same, and so are the records that
  programs of one kind with the same tag are made with.
-/

import TunedKernel.Json.Reader
import TunedKernel.Proofs.Generation.Dispatch
import TunedKernel.Proofs.Text.Numerals

namespace TunedKernel

open TunedKernel.Text

/-! ### Labels and numbers -/

/-- Numbers behind their labels. -/
def labelled (fields : List (String × UInt32)) : List Char :=
  fields.flatMap fun field => field.1.toList ++ Nat.toDigits 10 field.2.toNat

/-- A label that does not begin with a digit. -/
def IsLabel (label : String) : Prop := ∃ c ∈ label.toList.head?, c.isDigit = false

instance (label : String) : Decidable (IsLabel label) :=
  match head : label.toList.head? with
  | some c => decidable_of_iff (c.isDigit = false) (by simp [IsLabel, head])
  | none => .isFalse (by simp [IsLabel, head])

theorem IsLabel.ends {label : String} (is : IsLabel label) (rest : List Char) :
    Ends Char.isDigit (label.toList ++ rest) := by
  obtain ⟨c, head, other⟩ := is
  obtain ⟨chars, same⟩ := List.head?_eq_some_iff.mp head
  rw [same]
  exact .cons other _

theorem ends_labelled (labels : List String) (are : ∀ label ∈ labels, IsLabel label)
    {fields : List (String × UInt32)} {rest : List Char} (named : fields.map Prod.fst = labels)
    (ends : Ends Char.isDigit rest) : Ends Char.isDigit (labelled fields ++ rest) := by
  cases fields with
  | nil => exact ends
  | cons field fields =>
    rw [labelled, List.flatMap_cons, List.append_assoc, List.append_assoc]
    exact (are field.1 (named ▸ List.mem_cons_self)).ends _

/-- **Numbers behind the same labels are read in one way only.** -/
theorem labelled_append_inj (labels : List String) (are : ∀ label ∈ labels, IsLabel label)
    {fields fields' : List (String × UInt32)} {rest rest' : List Char}
    (named : fields.map Prod.fst = labels) (named' : fields'.map Prod.fst = labels)
    (ends : Ends Char.isDigit rest) (ends' : Ends Char.isDigit rest')
    (same : labelled fields ++ rest = labelled fields' ++ rest') : fields = fields' ∧ rest = rest' := by
  induction labels generalizing fields fields' with
  | nil =>
    rw [List.map_eq_nil_iff.mp named, List.map_eq_nil_iff.mp named'] at same ⊢
    exact ⟨rfl, same⟩
  | cons label labels ih =>
    obtain ⟨⟨_, n⟩, fields, rfl, rfl, others⟩ := List.map_eq_cons_iff.mp named
    obtain ⟨⟨_, n'⟩, fields', rfl, rfl, others'⟩ := List.map_eq_cons_iff.mp named'
    have behindAre : ∀ label ∈ labels, IsLabel label := fun label member => are label (.tail _ member)
    simp only [labelled, List.flatMap_cons, List.append_assoc, List.append_cancel_left_eq] at same
    obtain ⟨number, behind⟩ := toDigits_append_inj (ends_labelled labels behindAre others ends)
      (ends_labelled labels behindAre others' ends') same
    obtain ⟨rfl, tail⟩ := ih behindAre others others' behind
    exact ⟨by rw [UInt32.toNat_inj.mp number], tail⟩

theorem toList_tagNumber (n : UInt32) : (tagNumber n).toList = Nat.toDigits 10 n.toNat := Nat.toList_repr

theorem ends_splitLetter (strided : Bool) : Ends Char.isDigit (splitLetter strided).toList := by
  cases strided <;> exact .cons (by decide) _

theorem splitLetter_injective : Function.Injective splitLetter := by
  intro a b same
  cases a <;> cases b <;> first | rfl | exact absurd same (by decide)

/-- Numbers that are followed by the letter of the way a range is split. -/
theorem labelled_split_inj (labels : List String) (are : ∀ label ∈ labels, IsLabel label)
    {fields fields' : List (String × UInt32)} {strided strided' : Bool}
    (named : fields.map Prod.fst = labels) (named' : fields'.map Prod.fst = labels)
    (same : labelled fields ++ (splitLetter strided).toList =
      labelled fields' ++ (splitLetter strided').toList) : fields = fields' ∧ strided = strided' := by
  obtain ⟨numbers, letters⟩ := labelled_append_inj labels are named named' (ends_splitLetter strided)
    (ends_splitLetter strided') same
  exact ⟨numbers, splitLetter_injective (String.toList_inj.mp letters)⟩

/-! ### The five kinds of records -/

theorem VectorTuning.toList_tag (p : VectorTuning) : (TunedRecord.tag p).toList =
    labelled [("V", p.simdWidth), ("L", p.localSize), ("G", p.numGroups)] ++
      (splitLetter p.strided).toList := by
  simp [TunedRecord.tag, labelled, toList_tagNumber]

theorem VectorTuning.tag_injective : Function.Injective (TunedRecord.tag (P := VectorTuning)) := by
  intro p q same
  have texts := congrArg String.toList same
  rw [toList_tag, toList_tag] at texts
  obtain ⟨numbers, split⟩ := labelled_split_inj ["V", "L", "G"] (by decide) rfl rfl texts
  cases p
  cases q
  simp_all

theorem MatrixTuning.toList_tag (p : MatrixTuning) : (TunedRecord.tag p).toList =
    labelled [("V", p.simdWidth), ("L", p.localSize0), ("x", p.localSize1), ("G", p.numGroups0),
      ("x", p.numGroups1)] ++ (splitLetter p.strided).toList := by
  simp [TunedRecord.tag, labelled, toList_tagNumber]

theorem MatrixTuning.tag_injective : Function.Injective (TunedRecord.tag (P := MatrixTuning)) := by
  intro p q same
  have texts := congrArg String.toList same
  rw [toList_tag, toList_tag] at texts
  obtain ⟨numbers, split⟩ := labelled_split_inj ["V", "L", "x", "G", "x"] (by decide) rfl rfl texts
  cases p
  cases q
  simp_all

theorem ReductionTuning.toList_tag (p : ReductionTuning) : (TunedRecord.tag p).toList =
    labelled [("V", p.simdWidth), ("L", p.localSize), ("G", p.numGroups)] ++
      (splitLetter p.strided).toList := by
  simp [TunedRecord.tag, labelled, toList_tagNumber]

theorem ReductionTuning.tag_injective :
    Function.Injective (TunedRecord.tag (P := ReductionTuning)) := by
  intro p q same
  have texts := congrArg String.toList same
  rw [toList_tag, toList_tag] at texts
  obtain ⟨numbers, split⟩ := labelled_split_inj ["V", "L", "G"] (by decide) rfl rfl texts
  cases p
  cases q
  simp_all

theorem RowTuning.toList_tag (p : RowTuning) : (TunedRecord.tag p).toList =
    labelled [("V", p.simdWidth), ("M", p.localSize0), ("K", p.localSize1), ("NG0", p.numGroups0)] ++
      [] := by
  simp [TunedRecord.tag, labelled, toList_tagNumber]

theorem RowTuning.tag_injective : Function.Injective (TunedRecord.tag (P := RowTuning)) := by
  intro p q same
  have texts := congrArg String.toList same
  rw [toList_tag, toList_tag] at texts
  obtain ⟨numbers, -⟩ :=
    labelled_append_inj ["V", "M", "K", "NG0"] (by decide) rfl rfl (.nil _) (.nil _) texts
  cases p
  cases q
  simp_all

/-- The marks of the operands that are staged. -/
def stageMarks (left right : Bool) : String := (if left then "A" else "") ++ (if right then "B" else "")

theorem ProductTuning.toList_tag (p : ProductTuning) : (TunedRecord.tag p).toList =
    labelled [("V", p.simdWidth), ("L", p.localSize0), ("x", p.localSize1), ("KL", p.kl), ("M", p.ms),
      ("K", p.ks), ("N", p.ns)] ++ ((stageMarks p.stageLeft p.stageRight).toList ++
    'F' :: (Nat.toDigits 10 p.localFetch0.toNat ++ (labelled [("x", p.localFetch1)] ++ []))) := by
  simp [TunedRecord.tag, labelled, toList_tagNumber, stageMarks]

theorem ends_stageMarks (left right : Bool) (fetch : List Char) :
    Ends Char.isDigit ((stageMarks left right).toList ++ 'F' :: fetch) := by
  cases left <;> cases right <;> exact .cons (by decide) _

/-- The marks are letters that the label behind them does not begin with. -/
theorem stageMarks_append_inj {left right left' right' : Bool} {fetch fetch' : List Char}
    (same : (stageMarks left right).toList ++ 'F' :: fetch =
      (stageMarks left' right').toList ++ 'F' :: fetch') : left = left' ∧ right = right' ∧ fetch = fetch' := by
  cases left <;> cases right <;> cases left' <;> cases right' <;> simp_all [stageMarks]

theorem ProductTuning.tag_injective : Function.Injective (TunedRecord.tag (P := ProductTuning)) := by
  intro p q same
  have texts := congrArg String.toList same
  rw [toList_tag, toList_tag] at texts
  obtain ⟨numbers, behind⟩ := labelled_append_inj ["V", "L", "x", "KL", "M", "K", "N"] (by decide)
    rfl rfl (ends_stageMarks _ _ _) (ends_stageMarks _ _ _) texts
  obtain ⟨left, right, fetch⟩ := stageMarks_append_inj behind
  obtain ⟨first, behind⟩ := toDigits_append_inj (ends_labelled ["x"] (by decide) rfl (.nil _))
    (ends_labelled ["x"] (by decide) rfl (.nil _)) fetch
  obtain ⟨last, -⟩ := labelled_append_inj ["x"] (by decide) rfl rfl (.nil _) (.nil _) behind
  cases p
  cases q
  simp_all [UInt32.toNat_inj]

/-! ### Tables and programs -/

theorem Table.tag_injective : (t : Table) → Function.Injective (TunedRecord.tag (P := t.Record))
  | .vectorStatements => VectorTuning.tag_injective
  | .matrixStatements => MatrixTuning.tag_injective
  | .reduction => ReductionTuning.tag_injective
  | .rowReduction | .transposedRowReduction | .matrixVector => RowTuning.tag_injective
  | .matrixProduct _ _ => ProductTuning.tag_injective

/-- **Tags identify records.** Records of one of the five kinds with the same tag are the same, whether
they are consistent or not. So programs of one kind that carry the same tag are made with the same record:
under its tag, an operation has one program. -/
theorem tag_identifies : Function.Injective (TunedRecord.tag (P := VectorTuning)) ∧
    Function.Injective (TunedRecord.tag (P := MatrixTuning)) ∧
    Function.Injective (TunedRecord.tag (P := ReductionTuning)) ∧
    Function.Injective (TunedRecord.tag (P := RowTuning)) ∧
    Function.Injective (TunedRecord.tag (P := ProductTuning)) ∧
    ∀ (kind : Operation.Kind) (r s : (Table.ofKind kind).Record) (op op' : Operation)
      (program program' : Program), generateWith kind r op = .ok program →
      generateWith kind s op' = .ok program' → program.profile = program'.profile →
      r = s ∧ (op = op' → program = program') := by
  refine ⟨VectorTuning.tag_injective, MatrixTuning.tag_injective, ReductionTuning.tag_injective,
    RowTuning.tag_injective, ProductTuning.tag_injective, ?_⟩
  intro kind r s op op' program program' made made' same
  have cites : program.profile = TunedRecord.tag r := generateWith_cites kind r op program made
  have cites' : program'.profile = TunedRecord.tag s := generateWith_cites kind s op' program' made'
  have record : r = s := (Table.ofKind kind).tag_injective (cites ▸ cites' ▸ same)
  refine ⟨record, fun operation => ?_⟩
  rw [record, operation, made'] at made
  exact (Except.ok.inj made).symm

/-- The global default of the matrix products, as an override would write it. -/
def productDocument : String :=
  "\x7b\"simd_width\":1,\"local_size_0\":8,\"kl\":8,\"local_size_1\":8,\"ms\":4,\"ks\":4,\"ns\":4," ++
  "\"use_lhs_local\":true,\"use_rhs_local\":false,\"local_fetch_0\":8,\"local_fetch_1\":8\x7d"

/-- A record that is read from a document makes a program with the tag of the global default. -/
theorem tag_identifies_rowProducts : ∃ r program program',
    (Json.read? productDocument).bind ProductTuning.ofDatum? = some r ∧
    generateWith (.matrixProduct false true) r rowProducts = .ok program ∧
    generateWith (.matrixProduct false true) Builtin.product rowProducts = .ok program' ∧
    program.profile = "V1L8x8KL8M4K4N4AF8x8" ∧ program'.profile = "V1L8x8KL8M4K4N4AF8x8" ∧
    r = Builtin.product ∧ program = program' := by
  have evaluated : ((Json.read? productDocument).bind ProductTuning.ofDatum?).any (fun r =>
      (generateWith (.matrixProduct false true) r rowProducts).toOption.any fun program =>
        (generateWith (.matrixProduct false true) Builtin.product rowProducts).toOption.any fun program' =>
          decide (program.profile = "V1L8x8KL8M4K4N4AF8x8" ∧
            program'.profile = "V1L8x8KL8M4K4N4AF8x8")) = true := by
    decide +kernel
  obtain ⟨r, read, evaluated⟩ := (Option.any_eq_true _ _).mp evaluated
  obtain ⟨program, made, evaluated⟩ := exists_ok_of_any evaluated
  obtain ⟨program', made', evaluated⟩ := exists_ok_of_any evaluated
  obtain ⟨tagged, tagged'⟩ := of_decide_eq_true evaluated
  obtain ⟨-, -, -, -, -, identifies⟩ := tag_identifies
  obtain ⟨record, programs⟩ := identifies (.matrixProduct false true) r Builtin.product rowProducts
    rowProducts program program' made made' (tagged.trans tagged'.symm)
  exact ⟨r, program, program', read, made, made', tagged, tagged', record, programs rfl⟩

end TunedKernel
