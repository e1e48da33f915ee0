/-
**Expressions.**

* `Expr` — a tree over scalars, vectors and matrices. A product folds, over the dimension its
  operands share, what an operator makes of their elements; with one operand it folds the elements
  themselves.
* `Product` — a product with its operands, as the generators take it apart.
* `Expr.nodes` — all nodes in pre-order.
* `Expr.products` — the products that stand in no other product, in pre-order.
* `Expr.firstMatrix?`, `Expr.firstVector?` — the first leaf of its kind in pre-order.
* `Expr.role` — what an expression is, in a word.
-/

import TunedKernel.Operation.Operand
import TunedKernel.Operation.Operator

namespace TunedKernel

/-- An expression of an operation. -/
inductive Expr where
  | scalar (operand : Scalar)
  | vector (operand : VectorOperand)
  | matrix (operand : MatrixOperand)
  | binary (op : BinaryOp) (lhs rhs : Expr)
  | unary (func : UnaryFn) (operand : Expr)
  /-- A product with one operand; the combining operator is kept and not used. -/
  | fold (combine : BinaryOp) (reduce : ReduceOp) (lhs : Expr)
  /-- A product of two operands. -/
  | product (combine : BinaryOp) (reduce : ReduceOp) (lhs rhs : Expr)
deriving DecidableEq, Repr

/-- A product taken apart. -/
structure Product where
  lhs : Expr
  rhs : Option Expr
  combine : BinaryOp
  reduce : ReduceOp
deriving DecidableEq, Repr

namespace Expr

/-- All nodes in pre-order: a node, then those of its operands from left to right. -/
def nodes : Expr → List Expr
  | e@(scalar _) | e@(vector _) | e@(matrix _) => [e]
  | e@(binary _ lhs rhs) => e :: (lhs.nodes ++ rhs.nodes)
  | e@(unary _ operand) => e :: operand.nodes
  | e@(fold _ _ lhs) => e :: lhs.nodes
  | e@(product _ _ lhs rhs) => e :: (lhs.nodes ++ rhs.nodes)

/-- The products that stand in no other product, in pre-order. -/
def products : Expr → List Product
  | scalar _ | vector _ | matrix _ => []
  | binary _ lhs rhs => lhs.products ++ rhs.products
  | unary _ operand => operand.products
  | fold combine reduce lhs => [⟨lhs, none, combine, reduce⟩]
  | product combine reduce lhs rhs => [⟨lhs, some rhs, combine, reduce⟩]

/-- The matrix that a leaf is. -/
def matrix? : Expr → Option MatrixOperand
  | matrix m => some m
  | _ => none

/-- The vector that a leaf is. -/
def vector? : Expr → Option VectorOperand
  | vector v => some v
  | _ => none

/-- The first matrix in pre-order. -/
def firstMatrix? (e : Expr) : Option MatrixOperand := e.nodes.findSome? matrix?

/-- The first vector in pre-order. -/
def firstVector? (e : Expr) : Option VectorOperand := e.nodes.findSome? vector?

/-- What an expression is, in a word. -/
def role : Expr → String
  | scalar _ => "scalar"
  | vector _ => "vector"
  | matrix _ => "matrix"
  | binary .. | unary .. => "expression"
  | fold .. | product .. => "product"

/-- The element-wise sum. -/
def add (lhs rhs : Expr) : Expr := binary .add lhs rhs

/-- The element-wise product. -/
def mul (lhs rhs : Expr) : Expr := binary .mul lhs rhs

/-- The sum over the shared dimension of the products of the elements. -/
def contract (lhs rhs : Expr) : Expr := product .mul .add lhs rhs

/-- The elements of an operand folded into one. -/
def reduce (op : ReduceOp) (operand : Expr) : Expr := fold .mul op operand

end Expr

namespace Product

/-- Whether a product is a sum of products. -/
def isPlain (p : Product) : Bool := p.combine == .mul && p.reduce == .add

/-- The first matrix of the left operand. -/
def matrix? (p : Product) : Option MatrixOperand := p.lhs.firstMatrix?

/-- The first matrix of the right operand. -/
def rightMatrix? (p : Product) : Option MatrixOperand := p.rhs.bind Expr.firstMatrix?

/-- The first vector, the left operand before the right one. -/
def vector? (p : Product) : Option VectorOperand :=
  p.lhs.firstVector?.or (p.rhs.bind Expr.firstVector?)

end Product

end TunedKernel
