/-
**Operations from documents.**

Members stand in any order and those that no part asks for are passed over. What may be missing is
the assignment (`assign`), a matrix's storage order (by rows) and transposition (none), and a
product's right operand (none), combining operator (`mul`) and folding operator (`add`).

* `Operation.ofDatum?` — the operation that a document describes; `Expr.ofDatum?`,
  `Scalar.ofDatum?`, `Extent.ofDatum?` — its parts.
* `Operation.skeleton` — a document without the members that operations and statements pass over.
* `Operation.ofJson?` — the operation that a JSON text describes. What is passed over at the outer
  levels may hold anything; the rest has to be intact and nests at most 127 deep.
-/

import TunedKernel.Json.Reader
import TunedKernel.Operation.Basic

namespace TunedKernel

/-- The extent that a value stands for. -/
def Extent.ofDatum? (d : Datum) : Option Extent :=
  match d with
  | .text name => some (.symbol name)
  | d => d.word64?.map .fixed

/-- The scalar that the members of a record describe. -/
def Scalar.ofMembers? (members : Members) : Option Scalar := do
  let storage ← members.read? "storage" Datum.text?
  match storage with
  | "host" => return .host (← members.read? "name" Datum.text?)
  | "device" => return .device (← members.read? "name" Datum.text?)
  | "literal" => return .literal (← members.read? "value" Datum.text?)
  | _ => none

/-- The scalar that a record describes. -/
def Scalar.ofDatum? (d : Datum) : Option Scalar := d.record?.bind Scalar.ofMembers?

/-- The vector that the members of a record describe. -/
def VectorOperand.ofMembers? (members : Members) : Option VectorOperand := do
  return {
    name := ← members.read? "name" Datum.text?
    size := ← members.read? "size" Extent.ofDatum? }

/-- The matrix that the members of a record describe. -/
def MatrixOperand.ofMembers? (members : Members) : Option MatrixOperand := do
  return {
    name := ← members.read? "name" Datum.text?
    rows := ← members.read? "rows" Extent.ofDatum?
    cols := ← members.read? "cols" Extent.ofDatum?
    internalRows := ← members.read? "internal_rows" Extent.ofDatum?
    internalCols := ← members.read? "internal_cols" Extent.ofDatum?
    layout := ← members.readOr? "layout" (fun d => d.text?.bind Layout.ofName?) .rowMajor
    transposed := ← members.readOr? "transposed" Datum.flag? false }

/-! ### Expressions -/

namespace Expr

/-- The operand of a member that has to stand there once; `parts` holds the expressions that the
members describe. -/
def operand? (parts : List (String × Option Expr)) (name : String) : Option Expr :=
  match parts.filter fun part => part.1 == name with
  | [(_, e)] => e
  | _ => none

/-- The right operand of a product, which may be missing or null. -/
def rightOperand? (members : Members) (parts : List (String × Option Expr)) :
    Option (Option Expr) :=
  match members.atMostOne? "rhs" with
  | none => none
  | some none | some (some .null) => some none
  | some (some _) => (operand? parts "rhs").map some

/-- The expression of a record, given the expressions of its members. -/
def ofParts? (members : Members) (parts : List (String × Option Expr)) : Option Expr := do
  let node ← members.read? "node" Datum.text?
  match node with
  | "scalar" => (Scalar.ofMembers? members).map scalar
  | "vector" => (VectorOperand.ofMembers? members).map vector
  | "matrix" => (MatrixOperand.ofMembers? members).map matrix
  | "binary" =>
    return binary (← members.read? "op" fun d => d.text?.bind BinaryOp.ofName?)
      (← operand? parts "lhs") (← operand? parts "rhs")
  | "unary" =>
    return unary (← members.read? "func" fun d => d.text?.bind UnaryFn.ofName?)
      (← operand? parts "operand")
  | "product" =>
    let combine ← members.readOr? "combine" (fun d => d.text?.bind BinaryOp.ofName?) .mul
    let reduce ← members.readOr? "reduce" (fun d => d.text?.bind ReduceOp.ofName?) .add
    let lhs ← operand? parts "lhs"
    match ← rightOperand? members parts with
    | none => return fold combine reduce lhs
    | some rhs => return product combine reduce lhs rhs
  | _ => none

mutual

/-- The expression that a record describes. -/
def ofDatum? : Datum → Option Expr
  | .record members => ofParts? members (partsOf members)
  | _ => none

/-- The expressions that members describe, each with its name. -/
def partsOf : List (String × Datum) → List (String × Option Expr)
  | [] => []
  | (name, value) :: members => (name, ofDatum? value) :: partsOf members

end

end Expr

/-! ### Statements and operations -/

/-- The statement that a record describes. -/
def Statement.ofDatum? (d : Datum) : Option Statement := do
  let members ← d.record?
  return {
    target := ← members.read? "target" Expr.ofDatum?
    assign := ← members.readOr? "assign" (fun d => d.text?.bind AssignOp.ofName?) .assign
    value := ← members.read? "value" Expr.ofDatum? }

namespace Operation

/-- The operation that a record describes. -/
def ofDatum? (d : Datum) : Option Operation := do
  let members ← d.record?
  return {
    numericType := ← members.read? "numeric_type" fun d => d.text?.bind NumericType.ofName?
    statements := ← members.read? "statements" fun d => do
      (← d.list?).mapM Statement.ofDatum? }

/-- The members of a statement that are asked for, where a record stands for a statement. -/
def statementSkeleton (d : Datum) : Datum := d.restrict ["target", "assign", "value"]

/-- A member of an operation, its statements without the members that are passed over. -/
def memberSkeleton (member : String × Datum) : String × Datum :=
  match member with
  | ("statements", .list items) => ("statements", .list (items.map statementSkeleton))
  | member => member

/-- A document without the members that operations and statements pass over. -/
def skeleton (d : Datum) : Datum :=
  match d.restrict ["numeric_type", "statements"] with
  | .record members => .record (members.map memberSkeleton)
  | d => d

/-- How deep the lists and records of a description may nest. -/
def maxDepth : Nat := 127

/-- The operation that a JSON text describes. -/
def ofJson? (source : String) : Option Operation := do
  let d ← Json.read? source
  let d := skeleton d
  if d.intact && d.depth ≤ maxDepth then ofDatum? d else none

end Operation

end TunedKernel
