/-
**Refusals: operations that no kernel is generated for.**

* `Refusal` — the reasons, with what the report needs to name them.
* `Refusal.diagnostic` — the report.
-/

import TunedKernel.Diagnostic
import TunedKernel.Operation.Basic

namespace TunedKernel

/-- Why no kernel is generated. Statements are numbered from zero. -/
inductive Refusal where
  | emptyOperation
  | unclassifiable (reason : String)
  | numericTypeMismatch (operation device : NumericType)
  | targetRole (kind : Operation.Kind) (statement : Nat) (expected found : String)
  | productCount (kind : Operation.Kind) (statement found : Nat)
  | unexpectedProduct (kind : Operation.Kind) (statement : Nat)
  | productShape (kind : Operation.Kind) (statement : Nat) (reason : String)
  | unaddressableOperand (name reason : String)
  | conflictingOperand (name : String)
  | inconsistentBatch (subject : String)
  | unsupportedVectorization (kind : Operation.Kind) (width : Nat)
  | extentNotMultiple (kind : Operation.Kind) (extent width : Nat)
  | exceedsLimits (entry reason : String)
deriving DecidableEq, Repr

namespace Refusal

/-- The code of a refusal. -/
def code : Refusal → String
  | emptyOperation => "generate::empty_operation"
  | unclassifiable _ => "generate::unclassifiable"
  | numericTypeMismatch .. => "generate::numeric_type_mismatch"
  | targetRole .. => "generate::target_role"
  | productCount .. => "generate::product_count"
  | unexpectedProduct .. => "generate::unexpected_product"
  | productShape .. => "generate::product_shape"
  | unaddressableOperand .. => "generate::unaddressable_operand"
  | conflictingOperand _ => "generate::conflicting_operand"
  | inconsistentBatch _ => "generate::inconsistent_batch"
  | unsupportedVectorization .. => "generate::unsupported_vectorization"
  | extentNotMultiple .. => "generate::extent_not_multiple"
  | exceedsLimits .. => "generate::device_limits"

/-- The text of a refusal. -/
def message : Refusal → String
  | emptyOperation => "Operation has no statements"
  | unclassifiable reason => s!"Cannot classify operation: {reason}"
  | numericTypeMismatch operation device =>
    s!"Operation element type `{operation.text}` differs from device descriptor type " ++
      s!"`{device.text}`"
  | targetRole kind statement expected found =>
    s!"Statement {statement}: {kind.text} kernels assign to a {expected}, found a {found}"
  | productCount _ statement found =>
    s!"Statement {statement}: expected exactly one product, found {found}"
  | unexpectedProduct kind statement =>
    s!"Statement {statement}: {kind.text} kernels cannot evaluate a product"
  | productShape kind statement reason =>
    s!"Statement {statement}: product operands do not fit a {kind.text} kernel: {reason}"
  | unaddressableOperand name reason => s!"Operand `{name}` cannot be addressed here: {reason}"
  | conflictingOperand name => s!"Operand `{name}` is used with conflicting roles"
  | inconsistentBatch subject => s!"Batched statements disagree on {subject}"
  | unsupportedVectorization kind width =>
    s!"Vectorization width {width} is not supported by {kind.text} kernels"
  | extentNotMultiple kind extent width =>
    s!"Extent {extent} is not a multiple of the vectorization width {width} of {kind.text} kernels"
  | exceedsLimits entry reason => s!"Kernel `{entry}` exceeds device limits: {reason}"

/-- What to do about a refusal. -/
def help? : Refusal → Option String
  | numericTypeMismatch .. => some "resolve the profile with the operation's element type"
  | productCount .. => some "split the statement so each one carries a single product"
  | conflictingOperand _ =>
    some "every name must refer to one scalar, vector, matrix or size"
  | inconsistentBatch _ =>
    some "generate statements with different shapes as separate operations"
  | extentNotMultiple .. =>
    some "pad the operands or pick a profile with a width that divides the extent"
  | exceedsLimits .. =>
    some "register a profile with a smaller work-group or tile for this device"
  | _ => none

/-- The report of a refusal. -/
def diagnostic (r : Refusal) : Diagnostic := ⟨r.code, r.message, r.help?⟩

end Refusal

end TunedKernel
