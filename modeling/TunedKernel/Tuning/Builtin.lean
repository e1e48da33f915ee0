/-
**The builtin records.**

Every table has one global default for all classes and element types. Records tuned in single
precision exist for NVIDIA's Fermi and AMD's Volcanic Islands GPUs, and the products of a matrix
and a transposed one have a GPU default of their own.
-/

import TunedKernel.Tuning.Store
import TunedKernel.Tuning.Table

namespace TunedKernel

namespace Builtin

/-- The GPUs of a family, in single precision. -/
def gpu (vendor : Vendor) (architecture : Architecture) : Device :=
  ⟨vendor, .gpu, architecture, "", .float⟩

/-- NVIDIA's Fermi GPUs. -/
def fermi : Device := gpu Vendor.nvidia .fermi

/-- AMD's Volcanic Islands GPUs. -/
def volcanicIslands : Device := gpu Vendor.amd .volcanicIslands

/-- The global default of all matrix products. -/
def product : ProductTuning := ⟨1, 8, 8, 8, 4, 4, 4, true, false, 8, 8⟩

/-- A draft of a global default with tuned records besides. -/
def draftOf {P : Type} (base : P) (tuned : List (Device × P)) : Draft P :=
  tuned.foldl (fun draft entry => draft.insert entry.1 entry.2) (Draft.empty.defaults base)

/-- The builtin records of a table. -/
def draft : (t : Table) → Draft t.Record
  | .vectorStatements =>
    draftOf (P := VectorTuning) ⟨1, 128, 128, true⟩
      [(fermi, ⟨1, 1024, 2048, true⟩), (volcanicIslands, ⟨1, 128, 512, false⟩)]
  | .matrixStatements => draftOf (P := MatrixTuning) ⟨1, 8, 8, 8, 8, true⟩ []
  | .reduction => draftOf (P := ReductionTuning) ⟨1, 128, 128, true⟩ []
  | .rowReduction =>
    draftOf (P := RowTuning) ⟨1, 8, 8, 1⟩
      [(fermi, ⟨1, 1, 256, 2048⟩), (volcanicIslands, ⟨1, 2, 128, 256⟩)]
  | .transposedRowReduction =>
    draftOf (P := RowTuning) ⟨1, 8, 8, 1⟩
      [(fermi, ⟨1, 1, 256, 2048⟩), (volcanicIslands, ⟨1, 1, 64, 1024⟩)]
  | .matrixVector => draftOf (P := RowTuning) ⟨1, 32, 32, 1024⟩ []
  | .matrixProduct false false =>
    draftOf (P := ProductTuning) product
      [(fermi, ⟨1, 16, 16, 8, 4, 1, 8, true, true, 16, 8⟩),
        (volcanicIslands, ⟨1, 8, 16, 16, 8, 1, 4, true, true, 16, 8⟩)]
  | .matrixProduct false true =>
    draftOf (P := ProductTuning) product
      [(Device.globalDefault .gpu .float, ⟨1, 8, 8, 8, 4, 4, 4, true, true, 8, 8⟩),
        (fermi, ⟨1, 16, 16, 8, 4, 1, 8, true, true, 32, 4⟩)]
  | .matrixProduct true false =>
    draftOf (P := ProductTuning) product
      [(fermi, ⟨1, 16, 16, 8, 4, 1, 8, true, true, 16, 8⟩),
        (volcanicIslands, ⟨1, 16, 16, 16, 8, 1, 4, true, true, 16, 16⟩)]
  | .matrixProduct true true =>
    draftOf (P := ProductTuning) product
      [(fermi, ⟨1, 16, 16, 16, 4, 1, 8, true, true, 16, 16⟩),
        (volcanicIslands, ⟨1, 16, 16, 16, 4, 1, 8, true, true, 16, 16⟩)]

end Builtin

end TunedKernel
