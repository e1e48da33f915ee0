/-
**Generation.**

* `generateWith` — the program that the kernels of one kind make of an operation, under a record of
  their table.
* `Generator` — the kernels of one kind bound to a record.
* `Database.productStore` — the store for matrix products, by the transposition of their operands.
* `Database.generatorFor` — the generator of a kind for a device, each kind with the store it takes
  its record from.
* `Database.generate` — the program of an operation for a device: its kind decides on the generator
  and the device on the record that this is bound to.
-/

import TunedKernel.Generator.MatrixProduct
import TunedKernel.Generator.MatrixStatements
import TunedKernel.Generator.Reduction
import TunedKernel.Generator.RowReduction
import TunedKernel.Generator.VectorStatements
import TunedKernel.Operation.Classification
import TunedKernel.Tuning.Database

namespace TunedKernel

/-- The program that the kernels of one kind make of an operation. -/
def generateWith (kind : Operation.Kind) (record : (Table.ofKind kind).Record) (op : Operation) :
    Generated Program :=
  match kind, record with
  | .vectorStatements, record => VectorStatements.generate record op
  | .matrixStatements, record => MatrixStatements.generate record op
  | .reduction, record => Reduction.generate record op
  | .rowReduction false, record => RowReduction.generate false record op
  | .rowReduction true, record => RowReduction.generate true record op
  | .matrixVector transposed, record => MatrixVector.generate transposed record op
  | .matrixProduct left right, record => MatrixProduct.generate left right record op

/-! ### Generators -/

/-- The kernels of one kind bound to a record. -/
structure Generator where
  kind : Operation.Kind
  /-- The tag of the record. -/
  profile : String
  /-- The program of an operation. -/
  generate : Operation → Generated Program

/-- The kernels of one kind bound to the best record of a store for a device. -/
def Generator.bind {P : Type} [TunedRecord P] (kind : Operation.Kind)
    (generate : P → Operation → Generated Program) (store : Store P) (device : Device) : Generator :=
  ⟨kind, TunedRecord.tag (store.best device), generate (store.best device)⟩

namespace Database

/-- The store for matrix products with operands so transposed. -/
def productStore (db : Database) : (left right : Bool) → Store ProductTuning
  | false, false => db.store (.matrixProduct false false)
  | false, true => db.store (.matrixProduct false true)
  | true, false => db.store (.matrixProduct true false)
  | true, true => db.store (.matrixProduct true true)

/-- The generator of a kind for a device. -/
def generatorFor (db : Database) (device : Device) : Operation.Kind → Generator
  | .vectorStatements =>
    .bind .vectorStatements VectorStatements.generate (db.store .vectorStatements) device
  | .matrixStatements =>
    .bind .matrixStatements MatrixStatements.generate (db.store .matrixStatements) device
  | .reduction => .bind .reduction Reduction.generate (db.store .reduction) device
  | .rowReduction transposed =>
    let store : Store RowTuning :=
      if transposed then db.store .transposedRowReduction else db.store .rowReduction
    .bind (.rowReduction transposed) (RowReduction.generate transposed) store device
  | .matrixVector transposed =>
    .bind (.matrixVector transposed) (MatrixVector.generate transposed) (db.store .matrixVector)
      device
  | .matrixProduct left right =>
    .bind (.matrixProduct left right) (MatrixProduct.generate left right)
      (db.productStore left right) device

/-- The generator of a kind is bound to the record that its table has for the device. -/
theorem generatorFor_eq (db : Database) (device : Device) (kind : Operation.Kind) :
    db.generatorFor device kind = ⟨kind, TunedRecord.tag (db.recordFor kind device),
      generateWith kind (db.recordFor kind device)⟩ := by
  rcases kind with _ | _ | _ | (_ | _) | _ | ⟨_ | _, _ | _⟩ <;> rfl

/-- The program of an operation for a device, whose element type has to be the operation's. -/
def generate (db : Database) (device : Device) (op : Operation) : Generated Program := do
  require (op.numericType == device.numericType)
    (.numericTypeMismatch op.numericType device.numericType)
  let kind ← accepted op.classify
  (db.generatorFor device kind).generate op

end Database

end TunedKernel
