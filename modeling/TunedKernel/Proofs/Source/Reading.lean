/-
**Reading the text of a program.**

The reader takes text apart into rows and a row into words; it knows nothing of how programs are written.

* `Text.rows`, `Text.pieces`, `Text.between?`, `Text.readNumber?` — rows without their indentation, what
  stands between commas, what stands between two texts, and a number.
* `Definition` — what the text of a kernel says of its launch: the shape of the groups, the name, the
  parameters and the shared arrays; `Definition.localBytes?` are the bytes of these.
* `readMemory?`, `readDefinition?` — a shared array from its declaration, and a kernel from its attribute, its
  signature and the rows of its body.
* `readDefinitions?` — the kernels of a program. A row that holds a brace holds nothing else, braces are
  balanced, and outside of the bodies there are only attributes with their signatures, and empty rows.
-/

import Mathlib.Algebra.GroupWithZero.Nat
import Mathlib.Data.List.TakeWhile
import TunedKernel.Device.NumericType
import TunedKernel.Kernel.LocalMemory
import TunedKernel.Kernel.Page
import TunedKernel.Proofs.Source.Words

namespace TunedKernel

namespace Text

/-! ### Rows and pieces -/

/-- What follows the blanks in front. -/
def unindent (cs : List Char) : List Char := cs.dropWhile (· == ' ')

/-- The rows of a text, without their indentation. -/
def rows (source : String) : List (List Char) := (source.toList.splitOn '\n').map unindent

/-- What stands between the commas, without the blanks behind them. -/
def pieces (cs : List Char) : List (List Char) :=
  if cs.isEmpty then [] else (cs.splitOn ',').map unindent

/-- What stands between two texts. -/
def between? (opening closing : String) (cs : List Char) : Option (List Char) :=
  (cs.dropPrefix? opening.toList).bind fun rest => rest.dropSuffix? closing.toList

/-- A number in decimal digits. -/
def readNumber? (cs : List Char) : Option Nat :=
  if cs ≠ [] ∧ cs.all Char.isDigit then some (readDecimal cs) else none

theorem unindent_of_head {cs : List Char} (solid : cs.head? ≠ .some ' ') : unindent cs = cs := by
  cases cs with
  | nil => rfl
  | cons c cs =>
    rw [unindent, List.dropWhile_cons_of_neg]
    simpa using solid

theorem unindent_replicate (n : Nat) (cs : List Char) :
    unindent (List.replicate n ' ' ++ cs) = unindent cs :=
  List.dropWhile_append_of_pos fun c member => by
    rw [List.eq_of_mem_replicate member]
    rfl

/-- A character that is no blank outlasts the indentation. -/
theorem mem_unindent {cs : List Char} {c : Char} (solid : c ≠ ' ') : c ∈ unindent cs ↔ c ∈ cs := by
  refine ⟨fun member => (List.dropWhile_sublist _).subset member, fun member => ?_⟩
  rw [← List.takeWhile_append_dropWhile (p := (· == ' ')) (l := cs)] at member
  refine (List.mem_append.mp member).resolve_left fun blank => solid ?_
  exact beq_iff_eq.mp (List.mem_takeWhile_imp (p := (· == ' ')) blank)

theorem between?_append (opening closing : String) (cs : List Char) :
    between? opening closing (opening.toList ++ (cs ++ closing.toList)) = some cs := by
  rw [between?, List.dropPrefix?_eq_some_iff.mpr ⟨_, rfl, beq_self_eq_true _⟩]
  exact List.dropSuffix?_eq_some_iff.mpr ⟨_, rfl, beq_self_eq_true _⟩

theorem all_isDigit_toString (n : Nat) : (toString n).toList.all Char.isDigit := by
  rw [show (toString n).toList = Nat.toDigits 10 n from Nat.toList_repr, List.all_eq_true]
  exact fun c member => Nat.isDigit_of_mem_toDigits (by decide) (by decide) member

/-- A character that is no digit stands in no number. -/
theorem notMem_toString (n : Nat) {c : Char} (other : c.isDigit = false) :
    c ∉ (toString n).toList := fun member =>
  Bool.false_ne_true (other.symm.trans (List.all_eq_true.mp (all_isDigit_toString n) c member))

theorem readNumber?_toString (n : Nat) : readNumber? (toString n).toList = some n := by
  have digits : (toString n).toList = Nat.toDigits 10 n := Nat.toList_repr
  rw [readNumber?, if_pos ⟨digits ▸ Nat.toDigits_ne_nil, all_isDigit_toString n⟩, digits, readDecimal,
    Nat.ofDigitChars_ten_toDigits]

/-- A text that may stand between commas: it is not empty, has no comma and does not begin with a blank. -/
structure IsPiece (text : String) : Prop where
  nonempty : text.toList ≠ []
  free : ',' ∉ text.toList
  solid : text.toList.head? ≠ some ' '

/-- What is joined by commas is taken apart again. -/
theorem pieces_intercalate {texts : List String} (each : ∀ text ∈ texts, IsPiece text) :
    pieces (", ".intercalate texts).toList = texts.map String.toList := by
  have split (texts : List String) (some : texts ≠ []) (each : ∀ text ∈ texts, IsPiece text) :
      ((", ".intercalate texts).toList.splitOn ',').map unindent = texts.map String.toList := by
    induction texts with
    | nil => exact absurd rfl some
    | cons first rest ih =>
      rw [List.forall_mem_cons] at each
      have alone : (first.toList.splitOn ',').map unindent = [first.toList] := by
        rw [List.splitOn_eq_singleton each.1.free, List.map_singleton, unindent_of_head each.1.solid]
      by_cases last : rest = []
      · rw [last, String.intercalate_singleton, alone]
        rfl
      · rw [String.intercalate_cons_of_ne_nil last, String.toList_append, String.toList_append,
          List.append_assoc, show (", ").toList ++ (", ".intercalate rest).toList =
            ',' :: ' ' :: (", ".intercalate rest).toList from rfl, List.splitOn_append_cons_self,
          List.map_append, alone, List.splitOn_cons_eq_if_modifyHead, if_neg (by decide), List.map_cons,
          ← ih last each.2]
        cases (", ".intercalate rest).toList.splitOn ',' with
        | nil => rfl
        | cons piece pieces => rfl
  unfold pieces
  split
  · next empty =>
    cases texts with
    | nil => rfl
    | cons first rest =>
      rw [List.isEmpty_iff] at empty
      refine absurd ?_ (each first List.mem_cons_self).nonempty
      by_cases last : rest = []
      · rwa [last, String.intercalate_singleton] at empty
      · rw [String.intercalate_cons_of_ne_nil last, String.toList_append, String.toList_append,
          List.append_assoc, List.append_eq_nil_iff] at empty
        exact empty.1
  · next nonempty =>
    refine split texts ?_ each
    rintro rfl
    exact nonempty rfl

/-- The row that a line is written as. -/
def writtenRow (line : Line) : List Char :=
  if line.text = "" then [] else List.replicate (4 * line.depth) ' ' ++ line.text.toList

/-- Lines that are written end to end are a row each, with an empty row behind the last end. -/
theorem splitOn_renderAll {lines : List Line} (single : ∀ line ∈ lines, '\n' ∉ line.text.toList) :
    (Line.renderAll lines).toList.splitOn '\n' = lines.map writtenRow ++ [[]] := by
  have ends (line : Line) : line.render.toList = writtenRow line ++ ['\n'] := by
    unfold Line.render writtenRow
    split
    · rfl
    · rw [String.toList_append, String.toList_append, Line.indent, String.toList_ofList]
      rfl
  have free {line : Line} (single : '\n' ∉ line.text.toList) : '\n' ∉ writtenRow line := by
    unfold writtenRow
    split
    · exact List.not_mem_nil
    · rw [List.mem_append, not_or]
      exact ⟨fun blank => absurd (List.eq_of_mem_replicate blank) (by decide), single⟩
  unfold Line.renderAll
  rw [String.toList_join]
  induction lines with
  | nil => rfl
  | cons line lines ih =>
    rw [List.forall_mem_cons] at single
    rw [List.map_cons, List.flatMap_cons, ends, List.append_assoc, List.singleton_append,
      List.splitOn_append_cons_self, List.splitOn_eq_singleton (free single.1), ih single.2]
    rfl

/-- Lines that are written end to end are read row by row, with an empty row behind the last end. -/
theorem rows_renderAll {lines : List Line} (single : ∀ line ∈ lines, '\n' ∉ line.text.toList) :
    rows (Line.renderAll lines) = lines.map (fun line => unindent line.text.toList) ++ [[]] := by
  have same : unindent ∘ writtenRow = fun line => unindent line.text.toList := by
    funext line
    rw [Function.comp_apply, writtenRow]
    split
    · next empty => rw [empty]; rfl
    · exact unindent_replicate _ _
  rw [rows, splitOn_renderAll single, List.map_append, List.map_map, same]
  rfl

end Text

/-! ### Kernels -/

/-- What the text of a kernel says of its launch. -/
structure Definition where
  groupSize : List Nat
  name : String
  parameters : List String
  /-- The arrays that a group shares. -/
  memories : List LocalMemory

/-- The bytes of the shared arrays: of each, the product of its dimensions times the size of its elements. -/
def Definition.localBytes? (d : Definition) : Option Nat := do
  let bytes ← d.memories.mapM fun memory => do
    return memory.dims.prod * (← NumericType.ofName? memory.element).size
  return bytes.sum

open Text

/-- A shared array: the word for local memory, the type of an element, and the name with the dimensions in
brackets. -/
def readMemory? (row : List Char) : Option LocalMemory := do
  let declared ← between? "__local " ";" row
  let [element, declarator] := declared.splitOn ' ' | none
  let name :: brackets := declarator.splitOn '[' | none
  let dims ← brackets.mapM fun d => (between? "" "]" d).bind readNumber?
  return ⟨String.ofList name, String.ofList element, dims⟩

/-- Whether a row declares a shared array. -/
def declaresMemory (row : List Char) : Bool := "__local ".toList.isPrefixOf row && !row.contains '='

/-- A kernel from its attribute, its signature and the rows of its body. -/
def readDefinition? (shape signature : List Char) (body : List (List Char)) : Option Definition := do
  let sizes ← between? "__kernel __attribute__((reqd_work_group_size(" ")))" shape
  let groupSize ← (pieces sizes).mapM readNumber?
  let [name, parameters] := (← between? "void " ")" signature).splitOn '(' | none
  let memories ← (body.filter declaresMemory).mapM readMemory?
  return ⟨groupSize, String.ofList name, (pieces parameters).map String.ofList, memories⟩

/-- What the row read last belongs to. -/
inductive Region where
  | outside
  /-- A kernel, of which the attribute is read. -/
  | shaped (shape : List Char)
  /-- A kernel, of which the attribute and the signature are read. -/
  | signed (shape signature : List Char)
  /-- The body of a kernel, of which these rows are read; this many blocks are open in it. -/
  | body (shape signature : List Char) (read : List (List Char)) (blocks : Nat)

/-- The kernels that are read from here on. -/
def definitionsFrom : Region → List (List Char) → Option (List Definition)
  | .outside, [] => some []
  | _, [] => none
  | .outside, row :: rest =>
    if row = [] then definitionsFrom .outside rest else definitionsFrom (.shaped row) rest
  | .shaped shape, row :: rest => definitionsFrom (.signed shape row) rest
  | .signed shape signature, row :: rest =>
    if row = ['\x7b'] then definitionsFrom (.body shape signature [] 0) rest else none
  | .body shape signature read blocks, row :: rest =>
    if row = ['\x7b'] then definitionsFrom (.body shape signature (read ++ [row]) (blocks + 1)) rest
    else if row = ['\x7d'] then
      match blocks with
      | 0 => do
        return (← readDefinition? shape signature read) :: (← definitionsFrom .outside rest)
      | blocks + 1 => definitionsFrom (.body shape signature (read ++ [row]) blocks) rest
    else if '\x7b' ∈ row ∨ '\x7d' ∈ row then none
    else definitionsFrom (.body shape signature (read ++ [row]) blocks) rest

/-- The kernels of a program. -/
def readDefinitions? (source : String) : Option (List Definition) :=
  definitionsFrom .outside (rows source)

end TunedKernel
