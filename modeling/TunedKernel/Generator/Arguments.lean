/-
**The arguments of a kernel.**

The operands of an operation become arguments in the order of their first use, all targets before
all values; the symbols of their extents follow, in the same order. A name has one role only.

* `Role` — what a name stands for.
* `Signature` — the arguments bound so far, and the symbols met so far.
* `collectArguments` — the arguments of an operation.
* `pushBuffer` — a further buffer at the end, under a name that is not taken.
-/

import TunedKernel.Kernel.Program

namespace TunedKernel

/-- What a name stands for. -/
inductive Role where
  | hostScalar
  | deviceScalar
  | vector
  | matrix
  | size
deriving DecidableEq, Repr

/-- The arguments bound so far, each with its role, and the symbols met so far. -/
structure Signature where
  bound : List (Role × Argument)
  symbols : List String
deriving DecidableEq, Repr

namespace Signature

/-- Nothing bound yet. -/
def empty : Signature := ⟨[], []⟩

/-- Binds a name to a role. A name that has this role already stays as it is; one with another role
is refused. -/
def bind (signature : Signature) (role : Role) (name : String) (kind : Argument.Kind) :
    Except Refusal Signature :=
  match signature.bound.find? fun entry => entry.2.name == name with
  | none => .ok { signature with bound := signature.bound ++ [(role, ⟨name, kind⟩)] }
  | some (taken, _) => if taken = role then .ok signature else .error (.conflictingOperand name)

/-- Notes the symbol of an extent. -/
def meet (signature : Signature) (extent : Extent) : Signature :=
  match extent.symbol? with
  | none => signature
  | some name =>
    if signature.symbols.contains name then signature
    else { signature with symbols := signature.symbols ++ [name] }

/-- Binds what one node of an expression names. Scalars and matrices are elements of the type given
first, vectors of the one given second. -/
def leaf (scalar packed : String) (signature : Signature) (node : Expr) :
    Except Refusal Signature :=
  match node with
  | .scalar (.host name) => signature.bind .hostScalar name (.value scalar)
  | .scalar (.device name) => signature.bind .deviceScalar name (.buffer scalar)
  | .vector v => (signature.meet v.size).bind .vector v.name (.buffer packed)
  | .matrix m =>
    ([m.rows, m.cols, m.internalRows, m.internalCols].foldl meet signature).bind .matrix m.name
      (.buffer scalar)
  | _ => .ok signature

/-- Binds the symbols met, after everything else. -/
def finish (signature : Signature) : Except Refusal (List Argument) := do
  let signature ← signature.symbols.foldlM
    (fun signature name => signature.bind .size name .size) signature
  return signature.bound.map Prod.snd

end Signature

/-- The nodes of all targets, and then those of all values. -/
def Operation.nodes (op : Operation) : List Expr :=
  op.statements.flatMap (fun s => s.target.nodes) ++ op.statements.flatMap fun s => s.value.nodes

/-- The arguments of an operation. Vectors are passed in elements of the width given, as long as
there is such a type. -/
def collectArguments (op : Operation) (width : Nat) : Except Refusal (List Argument) := do
  let scalar := op.numericType.text
  let packed := (op.numericType.vectorName? width).getD scalar
  let signature ← op.nodes.foldlM (Signature.leaf scalar packed) Signature.empty
  signature.finish

/-- Arguments with a buffer after them, whose name must not be taken. -/
def pushBuffer (arguments : List Argument) (name element : String) :
    Except Refusal (List Argument) :=
  if arguments.any fun a => a.name == name then .error (.conflictingOperand name)
  else .ok (arguments ++ [⟨name, .buffer element⟩])

end TunedKernel
