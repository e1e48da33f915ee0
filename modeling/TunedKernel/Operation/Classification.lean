/-
**Which kernel an operation needs.**

The first statement decides: the leaf it stores into, and the first product of its value.
-/

import TunedKernel.Operation.Refusal

namespace TunedKernel.Operation

/-- The kind of a statement that stores the value of a product into a vector: a plain product with
a right operand multiplies a matrix and a vector, any other folds the rows of the matrix. -/
def rowKind (p : Product) : Except Refusal Kind :=
  match p.matrix? with
  | none => .error (.unclassifiable "a vector target needs a matrix-valued product")
  | some m =>
    if p.isPlain && p.rhs.isSome then .ok (.matrixVector m.transposed)
    else .ok (.rowReduction m.transposed)

/-- The kind of a statement that stores the value of a product into a matrix. -/
def matrixKind (p : Product) : Except Refusal Kind :=
  match p.matrix?, p.rightMatrix? with
  | some lhs, some rhs => .ok (.matrixProduct lhs.transposed rhs.transposed)
  | _, _ => .error (.unclassifiable "a matrix target needs a product of two matrices")

/-- The kind of one statement. -/
def statementKind (s : Statement) : Except Refusal Kind :=
  match s.target, s.value.products with
  | .scalar _, _ :: _ => .ok .reduction
  | .vector _, [] => .ok .vectorStatements
  | .matrix _, [] => .ok .matrixStatements
  | .vector _, p :: _ => rowKind p
  | .matrix _, p :: _ => matrixKind p
  | target, _ => .error (.unclassifiable s!"cannot assign to a {target.role}")

/-- The kind of an operation: that of its first statement. -/
def classify (op : Operation) : Except Refusal Kind :=
  match op.statements with
  | [] => .error .emptyOperation
  | first :: _ => statementKind first

end TunedKernel.Operation
