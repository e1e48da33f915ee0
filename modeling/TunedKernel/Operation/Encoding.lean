/-
**Operations as documents.**

Every part of an operation has a form in a document. All members are written, those with a default
included; an expression is a record whose member `node` says what it is, and a scalar has a member
`storage` besides.

* `Operation.datum` — the form of an operation; `Statement.datum`, `Expr.datum`, `Scalar.datum`,
  `Extent.datum` — of its parts.
-/

import TunedKernel.Data.Datum
import TunedKernel.Operation.Basic

namespace TunedKernel

/-- An extent in a document: a number, or the text of its symbol. -/
def Extent.datum : Extent → Datum
  | .fixed n => Datum.ofNat n.toNat
  | .symbol name => .text name

/-- The members of a scalar. -/
def Scalar.members : Scalar → Members
  | .host name => [("storage", .text "host"), ("name", .text name)]
  | .device name => [("storage", .text "device"), ("name", .text name)]
  | .literal value => [("storage", .text "literal"), ("value", .text value)]

/-- A scalar in a document. -/
def Scalar.datum (s : Scalar) : Datum := .record s.members

/-- The members of a vector. -/
def VectorOperand.members (v : VectorOperand) : Members :=
  [("name", .text v.name), ("size", v.size.datum)]

/-- The members of a matrix. -/
def MatrixOperand.members (m : MatrixOperand) : Members :=
  [("name", .text m.name), ("rows", m.rows.datum), ("cols", m.cols.datum),
    ("internal_rows", m.internalRows.datum), ("internal_cols", m.internalCols.datum),
    ("layout", .text m.layout.name), ("transposed", .flag m.transposed)]

/-- A matrix in a document. -/
def MatrixOperand.datum (m : MatrixOperand) : Datum := .record m.members

/-- An expression in a document. -/
def Expr.datum : Expr → Datum
  | .scalar s => .record (("node", .text "scalar") :: s.members)
  | .vector v => .record (("node", .text "vector") :: v.members)
  | .matrix m => .record (("node", .text "matrix") :: m.members)
  | .binary op lhs rhs =>
    .record [("node", .text "binary"), ("op", .text op.name), ("lhs", lhs.datum),
      ("rhs", rhs.datum)]
  | .unary func operand =>
    .record [("node", .text "unary"), ("func", .text func.name), ("operand", operand.datum)]
  | .fold combine reduce lhs =>
    .record [("node", .text "product"), ("lhs", lhs.datum), ("rhs", .null),
      ("combine", .text combine.name), ("reduce", .text reduce.name)]
  | .product combine reduce lhs rhs =>
    .record [("node", .text "product"), ("lhs", lhs.datum), ("rhs", rhs.datum),
      ("combine", .text combine.name), ("reduce", .text reduce.name)]

/-- A statement in a document. -/
def Statement.datum (s : Statement) : Datum :=
  .record [("target", s.target.datum), ("assign", .text s.assign.name), ("value", s.value.datum)]

/-- An operation in a document. -/
def Operation.datum (op : Operation) : Datum :=
  .record [("numeric_type", .text op.numericType.text),
    ("statements", .list (op.statements.map Statement.datum))]

end TunedKernel
