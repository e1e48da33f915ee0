/-
**What generators require of an operation.**

* `Generated` — the answer of a generator: a value, a refusal or an overflow.
* `requireStatements`, `requireScalarWidth`, `requirePacked` — an operation has statements; a record
  asks for the scalar width, or for a width that kernel code has.
* `theProduct`, `forbidProducts` — a value has one product, or none.
* `agree` — all statements have the same shape.
* `packedBound` — the bound of a loop over elements read several at a time.
* `Statement.storeStep` — the step that carries out a statement.
-/

import TunedKernel.Fault
import TunedKernel.Kernel.Access
import TunedKernel.Kernel.Code

namespace TunedKernel

/-- The answer of a generator. -/
abbrev Generated (α : Type) : Type := Except (Fault Refusal) α

/-- An answer that can only be refused. -/
def accepted {α : Type} (answer : Except Refusal α) : Generated α := answer.mapError .refused

theorem accepted_eq_ok_iff {α : Type} {answer : Except Refusal α} {a : α} :
    accepted answer = .ok a ↔ answer = .ok a := by
  cases answer with
  | error refusal => exact ⟨nofun, nofun⟩
  | ok found =>
    constructor
    · intro ok
      cases ok
      rfl
    · intro ok
      cases ok
      rfl

/-- Refuses an operation without statements. -/
def requireStatements (op : Operation) : Generated Unit :=
  require (!op.statements.isEmpty) .emptyOperation

/-- Refuses a record that reads more than one element at a time. -/
def requireScalarWidth (kind : Operation.Kind) (width : Nat) : Generated Unit :=
  require (width == 1) (.unsupportedVectorization kind width)

/-- Refuses a record of a width that kernel code has no vectors of. -/
def requirePacked (kind : Operation.Kind) (width : Nat) : Generated Unit :=
  require (NumericType.isVectorWidth width) (.unsupportedVectorization kind width)

/-- What a target is, in words that tell scalars apart. -/
def targetRole : Expr → String
  | .scalar (.host _) => "host scalar"
  | .scalar (.device _) => "device scalar"
  | .scalar (.literal _) => "literal"
  | e => e.role

/-- Refuses the target of a statement. -/
def wrongTarget {α : Type} (kind : Operation.Kind) (position : Nat) (expected : String)
    (target : Expr) : Generated α :=
  refuse (.targetRole kind position expected (targetRole target))

/-- The product of a value that has exactly one. -/
def theProduct (kind : Operation.Kind) (position : Nat) (s : Statement) : Generated Product :=
  match s.value.products with
  | [p] => .ok p
  | found => refuse (.productCount kind position found.length)

/-- Refuses a value with products. -/
def forbidProducts (kind : Operation.Kind) (position : Nat) (s : Statement) : Generated Unit :=
  require s.value.products.isEmpty (.unexpectedProduct kind position)

/-- The shape of the first statement joined with that of a further one, which has to be the same. -/
def agree {α : Type} [DecidableEq α] (describe : α → α → String) (shape : Option α) (next : α) :
    Generated (Option α) :=
  match shape with
  | none => .ok (some next)
  | some first =>
    if first = next then .ok shape else refuse (.inconsistentBatch (describe first next))

/-- The bound of a loop over an extent whose elements are read `width` at a time. A constant extent
has to be a multiple of the width; a symbolic one is trusted to be. -/
def packedBound (kind : Operation.Kind) (extent : Extent) (width : Nat) : Generated Term :=
  if width = 1 then .ok extent.term
  else
    match extent with
    | .fixed n =>
      if n.toNat % width = 0 then .ok (.count (n.toNat / width))
      else refuse (.extentNotMultiple kind n.toNat width)
    | .symbol name => .ok (.paren (.name name / .count width))

/-- The step that carries out a statement in a scope. -/
def Statement.storeStep (scope : Scope) (s : Statement) : Generated Step := do
  let target ← accepted (s.target.term scope)
  let value ← accepted (s.value.term scope)
  return .store target s.assign value

end TunedKernel
