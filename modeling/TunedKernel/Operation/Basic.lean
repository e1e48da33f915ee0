/-
**Operations.**

An operation is a batch of statements over one element type, each of which stores the value of an
expression into a leaf.

* `Operation.Kind` — which kernel an operation needs, with the transpositions it is written for.
* `Operation.Kind.text`, `Operation.Kind.ofName?` — the name of a kind, and the kind of a name.
-/

import TunedKernel.Device.NumericType
import TunedKernel.Operation.Expr

namespace TunedKernel

/-- Stores a value into a target. -/
structure Statement where
  target : Expr
  assign : AssignOp
  value : Expr
deriving DecidableEq, Repr

/-- A batch of statements that one program carries out. -/
structure Operation where
  numericType : NumericType
  statements : List Statement
deriving DecidableEq, Repr

/-- The kernel that an operation needs. -/
inductive Operation.Kind where
  | vectorStatements
  | matrixStatements
  | reduction
  | rowReduction (transposed : Bool)
  | matrixVector (transposed : Bool)
  | matrixProduct (leftTransposed rightTransposed : Bool)
deriving DecidableEq, Repr

namespace Operation.Kind

/-- Every kind. -/
def all : List Kind :=
  [vectorStatements, matrixStatements, reduction, rowReduction false, rowReduction true,
    matrixVector false, matrixVector true, matrixProduct false false, matrixProduct false true,
    matrixProduct true false, matrixProduct true true]

theorem mem_all (k : Kind) : k ∈ all := by
  rcases k with _ | _ | _ | (_ | _) | (_ | _) | ⟨_ | _, _ | _⟩ <;> decide

/-- The letter of a transposition. -/
def letter (transposed : Bool) : String := if transposed then "t" else "n"

/-- The name of a kind, its words joined by hyphens. -/
def text : Kind → String
  | vectorStatements => "vector-axpy"
  | matrixStatements => "matrix-axpy"
  | reduction => "reduction"
  | rowReduction false => "row-wise-reduction"
  | rowReduction true => "transposed-row-wise-reduction"
  | matrixVector false => "matrix-vector"
  | matrixVector true => "transposed-matrix-vector"
  | matrixProduct left right => "matrix-product-" ++ letter left ++ letter right

/-- The name of a kind as an identifier, its words joined by underscores. -/
def identifier (k : Kind) : String :=
  String.ofList (k.text.toList.map fun c => if c == '-' then '_' else c)

/-- The kind of a name. -/
def ofName? (s : String) : Option Kind := all.find? fun k => k.text == s

end Operation.Kind

end TunedKernel
