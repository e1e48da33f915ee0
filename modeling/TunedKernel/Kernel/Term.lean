/-
**Terms of kernel code.**

A term is the tree of a kernel-language expression. Brackets are part of the tree, so that printing
decides nothing: `text` writes every node in one way, and two trees that differ in their brackets
are written differently.

* `Term` — names, numbers, questions to the runtime about the work-item, operators, calls,
  subscripts, lanes of a vector and casts.
* `Term.text` — a term as it is written.
* `BinaryOp.apply`, `UnaryFn.apply`, `ReduceOp.combine` — the terms that the operators of an
  operation make of their operands.
* `NumericType.lowest`, `NumericType.highest`, `ReduceOp.neutral` — the limits of an element type,
  and the value that a folding operator starts from.
* `Extent.term` — an extent in kernel code.
-/

import TunedKernel.Device.NumericType
import TunedKernel.Operation.Operand
import TunedKernel.Operation.Operator
import TunedKernel.Text.Numeral

namespace TunedKernel

open TunedKernel.Text

/-- A question to the runtime about the work-item, along one dimension. -/
inductive Query where
  | globalId
  | localId
  | groupId
  | globalSize
  | localSize
deriving DecidableEq, Repr

/-- The function that answers a question. -/
def Query.function : Query → String
  | globalId => "get_global_id"
  | localId => "get_local_id"
  | groupId => "get_group_id"
  | globalSize => "get_global_size"
  | localSize => "get_local_size"

/-- An operator between two terms. -/
inductive TermOp where
  | add
  | sub
  | mul
  | div
  | mod
  | less
  | equal
  | both
deriving DecidableEq, Repr

/-- The sign of an operator. -/
def TermOp.sign : TermOp → String
  | add => "+"
  | sub => "-"
  | mul => "*"
  | div => "/"
  | mod => "%"
  | less => "<"
  | equal => "=="
  | both => "&&"

/-- A term of kernel code. -/
inductive Term where
  /-- Text put in as it stands. -/
  | verbatim (text : String)
  | name (identifier : String)
  | number (n : Nat)
  /-- A number with the mark of an unsigned constant. -/
  | count (n : Nat)
  | query (question : Query) (dimension : Nat)
  | binary (op : TermOp) (lhs rhs : Term)
  | negate (operand : Term)
  | paren (inner : Term)
  | call (function : String) (argument : Term)
  | call₂ (function : String) (first second : Term)
  | index (base subscript : Term)
  /-- One lane of a vector value. -/
  | lane (base : Term) (n : Nat)
  | cast (type : String) (operand : Term)
deriving DecidableEq, Repr

namespace Term

/-- The selector of a lane of a vector value. -/
def component (n : Nat) : String := "s" ++ String.ofList (hexNumeral n)

/-- A term as it is written. -/
def text : Term → String
  | verbatim s => s
  | name identifier => identifier
  | number n => toString n
  | count n => toString n ++ "u"
  | query question dimension => question.function ++ "(" ++ toString dimension ++ ")"
  | binary op lhs rhs => lhs.text ++ " " ++ op.sign ++ " " ++ rhs.text
  | negate operand => "-" ++ operand.text
  | paren inner => "(" ++ inner.text ++ ")"
  | call function argument => function ++ "(" ++ argument.text ++ ")"
  | call₂ function first second => function ++ "(" ++ first.text ++ ", " ++ second.text ++ ")"
  | index base subscript => base.text ++ "[" ++ subscript.text ++ "]"
  | lane base n => base.text ++ "." ++ component n
  | cast type operand => "(" ++ type ++ ")(" ++ operand.text ++ ")"

/-- An element of an array with several subscripts. -/
def element (array : Term) (subscripts : List Term) : Term := subscripts.foldl index array

instance : Add Term := ⟨binary .add⟩

instance : Sub Term := ⟨binary .sub⟩

instance : Mul Term := ⟨binary .mul⟩

instance : Div Term := ⟨binary .div⟩

instance : Mod Term := ⟨binary .mod⟩

end Term

/-- An extent in kernel code. -/
def Extent.term : Extent → Term
  | .fixed n => .count n.toNat
  | .symbol name => .name name

theorem Extent.text_term (e : Extent) : e.term.text = e.text := by cases e <;> rfl

/-! ### Operators -/

/-- An operator between two operands: a sum, difference, product or quotient in brackets, or a call
of a function. -/
def BinaryOp.apply (op : BinaryOp) (lhs rhs : Term) : Term :=
  match op with
  | .add => .paren (lhs + rhs)
  | .sub => .paren (lhs - rhs)
  | .mul => .paren (lhs * rhs)
  | .div => .paren (lhs / rhs)
  | .max => .call₂ "max" lhs rhs
  | .min => .call₂ "min" lhs rhs

/-- A function of an operand; the absolute value of a floating-point number has a name of its
own. -/
def UnaryFn.apply (func : UnaryFn) (operand : Term) (type : NumericType) : Term :=
  match func with
  | .neg => .paren (.negate operand)
  | .abs => .call (if type.isFloat then "fabs" else "abs") operand
  | .sqrt => .call "sqrt" operand
  | .exp => .call "exp" operand
  | .log => .call "log" operand

/-- An accumulated value with a further one. -/
def ReduceOp.combine (op : ReduceOp) (accumulated value : Term) : Term :=
  match op with
  | .add => accumulated + value
  | .mul => accumulated * value
  | .max => .call₂ "max" accumulated value
  | .min => .call₂ "min" accumulated value

/-- The smallest value of an element type. -/
def NumericType.lowest : NumericType → Term
  | .int => .name "INT_MIN"
  | .uint | .ulong => .number 0
  | .long => .name "LONG_MIN"
  | .float | .double => .negate (.name "INFINITY")

/-- The largest value of an element type. -/
def NumericType.highest : NumericType → Term
  | .int => .name "INT_MAX"
  | .uint => .name "UINT_MAX"
  | .long => .name "LONG_MAX"
  | .ulong => .name "ULONG_MAX"
  | .float | .double => .name "INFINITY"

/-- The value that a folding operator starts from. -/
def ReduceOp.neutral (op : ReduceOp) (type : NumericType) : Term :=
  match op with
  | .add => .number 0
  | .mul => .number 1
  | .max => type.lowest
  | .min => type.highest

end TunedKernel
