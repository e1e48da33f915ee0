/-
**Tables of tuned records.**

* `Table` — the ten tables, each with one kind of record: `Table.Record`.
* `Table.name`, `Table.parse?` — the name of a table, read in any case, between blanks, with
  hyphens for underscores.
* `Table.ofKind` — the table that the kernels of one kind take their record from.
-/

import TunedKernel.Operation.Basic
import TunedKernel.Text.Blank
import TunedKernel.Tuning.Records

namespace TunedKernel

open TunedKernel.Text

/-- A table of tuned records. The tables of matrix products are told apart by the transposition of
their left and right operands. -/
inductive Table where
  | vectorStatements
  | matrixStatements
  | reduction
  | rowReduction
  | transposedRowReduction
  | matrixVector
  | matrixProduct (leftTransposed rightTransposed : Bool)
deriving DecidableEq, Repr

namespace Table

/-- Every table, in the order in which they are listed. -/
def all : List Table :=
  [vectorStatements, matrixStatements, reduction, rowReduction, transposedRowReduction,
    matrixVector, matrixProduct false false, matrixProduct false true, matrixProduct true false,
    matrixProduct true true]

theorem mem_all (t : Table) : t ∈ all := by
  rcases t with _ | _ | _ | _ | _ | _ | ⟨_ | _, _ | _⟩ <;> decide

/-- The name of a table. -/
def name : Table → String
  | vectorStatements => "vector_axpy"
  | matrixStatements => "matrix_axpy"
  | reduction => "reduction"
  | rowReduction => "row_wise_reduction"
  | transposedRowReduction => "trans_row_wise_reduction"
  | matrixVector => "matrix_vector"
  | matrixProduct left right =>
    "matrix_product_" ++ Operation.Kind.letter left ++ Operation.Kind.letter right

/-- The table of a name exactly as it is written. -/
def ofName? (s : String) : Option Table := all.find? fun t => t.name == s

/-- A hyphen as the underscore that names are joined with. -/
def joined (c : Char) : Char := if c == '-' then '_' else c

/-- Reads the name of a table. -/
def parse? (s : String) : Option Table :=
  ofName? (String.ofList ((foldCase (trim s)).toList.map joined))

/-- The report of a text that names no table. -/
def unknownMessage (s : String) : String := s!"unknown profile table `{s}`"

/-- The table for kernels of one kind. -/
def ofKind : Operation.Kind → Table
  | .vectorStatements => vectorStatements
  | .matrixStatements => matrixStatements
  | .reduction => reduction
  | .rowReduction false => rowReduction
  | .rowReduction true => transposedRowReduction
  | .matrixVector _ => matrixVector
  | .matrixProduct left right => matrixProduct left right

/-- The kind of record that a table holds. -/
def Record : Table → Type
  | vectorStatements => VectorTuning
  | matrixStatements => MatrixTuning
  | reduction => ReductionTuning
  | rowReduction | transposedRowReduction | matrixVector => RowTuning
  | matrixProduct _ _ => ProductTuning

instance (t : Table) : TunedRecord t.Record :=
  match t with
  | vectorStatements => inferInstanceAs (TunedRecord VectorTuning)
  | matrixStatements => inferInstanceAs (TunedRecord MatrixTuning)
  | reduction => inferInstanceAs (TunedRecord ReductionTuning)
  | rowReduction => inferInstanceAs (TunedRecord RowTuning)
  | transposedRowReduction => inferInstanceAs (TunedRecord RowTuning)
  | matrixVector => inferInstanceAs (TunedRecord RowTuning)
  | matrixProduct _ _ => inferInstanceAs (TunedRecord ProductTuning)

instance (t : Table) : DecidableEq t.Record :=
  match t with
  | vectorStatements => inferInstanceAs (DecidableEq VectorTuning)
  | matrixStatements => inferInstanceAs (DecidableEq MatrixTuning)
  | reduction => inferInstanceAs (DecidableEq ReductionTuning)
  | rowReduction => inferInstanceAs (DecidableEq RowTuning)
  | transposedRowReduction => inferInstanceAs (DecidableEq RowTuning)
  | matrixVector => inferInstanceAs (DecidableEq RowTuning)
  | matrixProduct _ _ => inferInstanceAs (DecidableEq ProductTuning)

instance (p : Table → Prop) [DecidablePred p] : Decidable (∀ t, p t) :=
  decidable_of_iff (∀ t ∈ all, p t) ⟨fun every t => every t (mem_all t), fun every t _ => every t⟩

end Table

end TunedKernel
