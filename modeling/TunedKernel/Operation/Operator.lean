/-
**Operators of an operation.**

* `BinaryOp`, `UnaryFn` — element-wise operators and functions.
* `ReduceOp` — operators that fold many values into one.
* `AssignOp` — how a statement stores into its target; `token` is its sign in kernel code.

Each has the names it goes by in a document: `name` writes one, `ofName?` reads it exactly.
-/

namespace TunedKernel

/-- An element-wise operator of two operands. -/
inductive BinaryOp where
  | add
  | sub
  | mul
  | div
  | max
  | min
deriving DecidableEq, Repr

namespace BinaryOp

def all : List BinaryOp := [add, sub, mul, div, max, min]

/-- The name of an operator. -/
def name : BinaryOp → String
  | add => "add"
  | sub => "sub"
  | mul => "mul"
  | div => "div"
  | max => "max"
  | min => "min"

/-- The operator of a name. -/
def ofName? (s : String) : Option BinaryOp := all.find? fun op => op.name == s

theorem ofName?_name (op : BinaryOp) : ofName? op.name = some op := by cases op <;> decide

end BinaryOp

/-- An element-wise function of one operand. -/
inductive UnaryFn where
  | neg
  | abs
  | sqrt
  | exp
  | log
deriving DecidableEq, Repr

namespace UnaryFn

def all : List UnaryFn := [neg, abs, sqrt, exp, log]

/-- The name of a function. -/
def name : UnaryFn → String
  | neg => "neg"
  | abs => "abs"
  | sqrt => "sqrt"
  | exp => "exp"
  | log => "log"

/-- The function of a name. -/
def ofName? (s : String) : Option UnaryFn := all.find? fun f => f.name == s

theorem ofName?_name (f : UnaryFn) : ofName? f.name = some f := by cases f <;> decide

end UnaryFn

/-- An operator that folds the terms of a product into one value. -/
inductive ReduceOp where
  | add
  | mul
  | max
  | min
deriving DecidableEq, Repr

namespace ReduceOp

def all : List ReduceOp := [add, mul, max, min]

/-- The name of an operator. -/
def name : ReduceOp → String
  | add => "add"
  | mul => "mul"
  | max => "max"
  | min => "min"

/-- The operator of a name. -/
def ofName? (s : String) : Option ReduceOp := all.find? fun op => op.name == s

theorem ofName?_name (op : ReduceOp) : ofName? op.name = some op := by cases op <;> decide

end ReduceOp

/-- How a statement stores into its target. -/
inductive AssignOp where
  | assign
  | addAssign
  | subAssign
deriving DecidableEq, Repr

namespace AssignOp

def all : List AssignOp := [assign, addAssign, subAssign]

/-- The name of a way to store. -/
def name : AssignOp → String
  | assign => "assign"
  | addAssign => "add_assign"
  | subAssign => "sub_assign"

/-- The way to store that a name stands for. -/
def ofName? (s : String) : Option AssignOp := all.find? fun op => op.name == s

theorem ofName?_name (op : AssignOp) : ofName? op.name = some op := by cases op <;> decide

/-- Its sign in kernel code. -/
def token : AssignOp → String
  | assign => "="
  | addAssign => "+="
  | subAssign => "-="

end AssignOp

end TunedKernel
