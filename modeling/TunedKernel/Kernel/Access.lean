/-
**Operands in kernel code.**

* `MatrixOperand.offset` — the position in memory of an element, given by the terms of its row and
  column as the operation reads the matrix.
* `MatrixOperand.element` — the element itself.
* `Scope` — what the code around an expression makes addressable: the index of vector elements, the
  row and column of matrix elements, and the value of the statement's product.
* `Expr.term` — the term of an expression in a scope; an operand that the scope does not address is
  refused.
* `Product.term` — one term of a product before it is folded.
-/

import TunedKernel.Kernel.Term
import TunedKernel.Operation.Refusal

namespace TunedKernel

/-- The position of an element in memory. Row and column are bracketed, so any term may stand for
them. -/
def MatrixOperand.offset (m : MatrixOperand) (row col : Term) : Term :=
  let (r, c) := if m.transposed then (col, row) else (row, col)
  match m.layout with
  | .rowMajor => .paren r * m.internalCols.term + .paren c
  | .columnMajor => .paren r + .paren c * m.internalRows.term

/-- What the code around an expression makes addressable. -/
structure Scope where
  numericType : NumericType
  index : Option Term := none
  /-- The row and column of matrix elements; both have to be there. -/
  row : Option Term := none
  col : Option Term := none
  product : Option Term := none

namespace Scope

/-- A scope that addresses nothing. -/
def bare (type : NumericType) : Scope := { numericType := type }

/-- The same scope with an index of vector elements. -/
def withIndex (scope : Scope) (index : Term) : Scope := { scope with index := some index }

/-- The same scope with a row and column of matrix elements. -/
def withElement (scope : Scope) (row col : Term) : Scope :=
  { scope with row := some row, col := some col }

/-- The same scope with a value for the product. -/
def withProduct (scope : Scope) (product : Term) : Scope :=
  { scope with product := some product }

end Scope

/-- The element of a matrix at a row and column. -/
def MatrixOperand.element (m : MatrixOperand) (row col : Term) : Term :=
  .index (.name m.name) (m.offset row col)

/-- The element of a matrix that a scope addresses. -/
def MatrixOperand.term (m : MatrixOperand) (scope : Scope) : Except Refusal Term :=
  match scope.row, scope.col with
  | some row, some col => .ok (m.element row col)
  | _, _ => .error (.unaddressableOperand m.name "no matrix element is in scope")

/-- The element of a vector that a scope addresses. -/
def VectorOperand.term (v : VectorOperand) (scope : Scope) : Except Refusal Term :=
  match scope.index with
  | some index => .ok (.index (.name v.name) index)
  | none => .error (.unaddressableOperand v.name "no vector element is in scope")

/-- A scalar. -/
def Scalar.term : Scalar → Term
  | .host name => .name name
  | .device name => .index (.name name) (.number 0)
  | .literal value => .verbatim value

/-- The name that a report gives to a product: its first matrix or else vector on the left. -/
def Expr.productLabel (lhs : Expr) : String :=
  ((lhs.firstMatrix?.map MatrixOperand.name).or
    (lhs.firstVector?.map VectorOperand.name)).getD "product"

/-- The value of the statement's product, for the product with this left operand. -/
def Scope.productTerm (scope : Scope) (lhs : Expr) : Except Refusal Term :=
  match scope.product with
  | some term => .ok term
  | none => .error (.unaddressableOperand lhs.productLabel "products cannot be nested")

/-- The term of an expression. -/
def Expr.term (scope : Scope) : Expr → Except Refusal Term
  | .scalar s => .ok s.term
  | .vector v => v.term scope
  | .matrix m => m.term scope
  | .binary op lhs rhs => do
    let left ← lhs.term scope
    let right ← rhs.term scope
    return op.apply left right
  | .unary func operand => do
    let inner ← operand.term scope
    return func.apply inner scope.numericType
  | .fold _ _ lhs => scope.productTerm lhs
  | .product _ _ lhs _ => scope.productTerm lhs

/-- One term of a product before it is folded. -/
def Product.term (scope : Scope) (p : Product) : Except Refusal Term := do
  let left ← p.lhs.term scope
  match p.rhs with
  | some rhs => return p.combine.apply left (← rhs.term scope)
  | none => return left

end TunedKernel
