/-
**The five kinds of tuned records.**

* `VectorTuning` — element-wise vector statements: one dimension of groups.
* `MatrixTuning` — element-wise matrix statements: two dimensions of groups.
* `ReductionTuning` — reductions to scalars: one dimension of groups, two passes.
* `RowTuning` — reductions of rows: dimension 0 spans the results, dimension 1 splits a row.
* `ProductTuning` — matrix products by tiles; `tileRows` and `tileCols` are the extents of the
  result tile of a group, formed in 32 bits.

The tag of each kind is a letter for every setting with its number. Statements that share a record
also share the letter of the way their range is split: `S` by strides, `C` in chunks.
-/

import TunedKernel.Tuning.Record

namespace TunedKernel

/-- The letter of the way a range is split among the workers. -/
def splitLetter (strided : Bool) : String := if strided then "S" else "C"

/-- A number as it stands in a tag. -/
def tagNumber (n : UInt32) : String := toString n.toNat

/-! ### Vector statements -/

/-- How element-wise vector statements are run. -/
structure VectorTuning where
  simdWidth : UInt32
  localSize : UInt32
  numGroups : UInt32
  /-- Workers stride over the range instead of walking one chunk each. -/
  strided : Bool
deriving DecidableEq, Repr

namespace VectorTuning

/-- The record of a document. -/
def ofDatum? (d : Datum) : Option VectorTuning := do
  let members ← readSettings ["simd_width", "local_size_0", "num_groups", "strided"] d
  return {
    simdWidth := ← members.read? "simd_width" Datum.word32?
    localSize := ← members.read? "local_size_0" Datum.word32?
    numGroups := ← members.read? "num_groups" Datum.word32?
    strided := ← members.read? "strided" Datum.flag? }

/-- The width is one of kernel code's and no size is zero. -/
def check (p : VectorTuning) : Except (Fault Flaw) Unit := do
  checkWidth p.simdWidth
  checkPositive [("local_size_0", p.localSize), ("num_groups", p.numGroups)]

instance : TunedRecord VectorTuning where
  title := "VectorAxpyParams"
  settings p := [("simd_width", .number p.simdWidth), ("local_size_0", .number p.localSize),
    ("num_groups", .number p.numGroups), ("strided", .switch p.strided)]
  tag p := "V" ++ tagNumber p.simdWidth ++ "L" ++ tagNumber p.localSize ++ "G" ++
    tagNumber p.numGroups ++ splitLetter p.strided
  check := check
  ofDatum? := ofDatum?

end VectorTuning

/-! ### Matrix statements -/

/-- How element-wise matrix statements are run. -/
structure MatrixTuning where
  simdWidth : UInt32
  localSize0 : UInt32
  localSize1 : UInt32
  numGroups0 : UInt32
  numGroups1 : UInt32
  /-- Workers stride over the ranges instead of walking one chunk each. -/
  strided : Bool
deriving DecidableEq, Repr

namespace MatrixTuning

/-- The record of a document. -/
def ofDatum? (d : Datum) : Option MatrixTuning := do
  let members ← readSettings
    ["simd_width", "local_size_0", "local_size_1", "num_groups_0", "num_groups_1", "strided"] d
  return {
    simdWidth := ← members.read? "simd_width" Datum.word32?
    localSize0 := ← members.read? "local_size_0" Datum.word32?
    localSize1 := ← members.read? "local_size_1" Datum.word32?
    numGroups0 := ← members.read? "num_groups_0" Datum.word32?
    numGroups1 := ← members.read? "num_groups_1" Datum.word32?
    strided := ← members.read? "strided" Datum.flag? }

/-- The width is one of kernel code's and no size is zero. -/
def check (p : MatrixTuning) : Except (Fault Flaw) Unit := do
  checkWidth p.simdWidth
  checkPositive [("local_size_0", p.localSize0), ("local_size_1", p.localSize1),
    ("num_groups_0", p.numGroups0), ("num_groups_1", p.numGroups1)]

instance : TunedRecord MatrixTuning where
  title := "MatrixAxpyParams"
  settings p := [("simd_width", .number p.simdWidth), ("local_size_0", .number p.localSize0),
    ("local_size_1", .number p.localSize1), ("num_groups_0", .number p.numGroups0),
    ("num_groups_1", .number p.numGroups1), ("strided", .switch p.strided)]
  tag p := "V" ++ tagNumber p.simdWidth ++ "L" ++ tagNumber p.localSize0 ++ "x" ++
    tagNumber p.localSize1 ++ "G" ++ tagNumber p.numGroups0 ++ "x" ++ tagNumber p.numGroups1 ++
    splitLetter p.strided
  check := check
  ofDatum? := ofDatum?

end MatrixTuning

/-! ### Reductions -/

/-- How reductions to scalars are run. -/
structure ReductionTuning where
  simdWidth : UInt32
  localSize : UInt32
  numGroups : UInt32
  /-- Workers stride over the range instead of walking one chunk each. -/
  strided : Bool
deriving DecidableEq, Repr

namespace ReductionTuning

/-- The record of a document. -/
def ofDatum? (d : Datum) : Option ReductionTuning := do
  let members ← readSettings ["simd_width", "local_size_0", "num_groups", "strided"] d
  return {
    simdWidth := ← members.read? "simd_width" Datum.word32?
    localSize := ← members.read? "local_size_0" Datum.word32?
    numGroups := ← members.read? "num_groups" Datum.word32?
    strided := ← members.read? "strided" Datum.flag? }

/-- The width is one of kernel code's and no size is zero. -/
def check (p : ReductionTuning) : Except (Fault Flaw) Unit := do
  checkWidth p.simdWidth
  checkPositive [("local_size_0", p.localSize), ("num_groups", p.numGroups)]

instance : TunedRecord ReductionTuning where
  title := "ReductionParams"
  settings p := [("simd_width", .number p.simdWidth), ("local_size_0", .number p.localSize),
    ("num_groups", .number p.numGroups), ("strided", .switch p.strided)]
  tag p := "V" ++ tagNumber p.simdWidth ++ "L" ++ tagNumber p.localSize ++ "G" ++
    tagNumber p.numGroups ++ splitLetter p.strided
  check := check
  ofDatum? := ofDatum?

end ReductionTuning

/-! ### Reductions of rows -/

/-- How reductions of rows and matrix-vector products are run. -/
structure RowTuning where
  simdWidth : UInt32
  /-- Workers along the results. -/
  localSize0 : UInt32
  /-- Workers that share a row. -/
  localSize1 : UInt32
  numGroups0 : UInt32
deriving DecidableEq, Repr

namespace RowTuning

/-- The record of a document. -/
def ofDatum? (d : Datum) : Option RowTuning := do
  let members ← readSettings ["simd_width", "local_size_0", "local_size_1", "num_groups_0"] d
  return {
    simdWidth := ← members.read? "simd_width" Datum.word32?
    localSize0 := ← members.read? "local_size_0" Datum.word32?
    localSize1 := ← members.read? "local_size_1" Datum.word32?
    numGroups0 := ← members.read? "num_groups_0" Datum.word32? }

/-- The width is one of kernel code's and no size is zero. -/
def check (p : RowTuning) : Except (Fault Flaw) Unit := do
  checkWidth p.simdWidth
  checkPositive [("local_size_0", p.localSize0), ("local_size_1", p.localSize1),
    ("num_groups_0", p.numGroups0)]

instance : TunedRecord RowTuning where
  title := "RowWiseParams"
  settings p := [("simd_width", .number p.simdWidth), ("local_size_0", .number p.localSize0),
    ("local_size_1", .number p.localSize1), ("num_groups_0", .number p.numGroups0)]
  tag p := "V" ++ tagNumber p.simdWidth ++ "M" ++ tagNumber p.localSize0 ++ "K" ++
    tagNumber p.localSize1 ++ "NG0" ++ tagNumber p.numGroups0
  check := check
  ofDatum? := ofDatum?

end RowTuning

/-! ### Matrix products -/

/-- How matrix products are run. A group owns a tile of the result and walks the shared dimension
by `kl`; each of its workers owns a block of `ms` by `ns` elements and advances by `ks`. -/
structure ProductTuning where
  simdWidth : UInt32
  localSize0 : UInt32
  kl : UInt32
  localSize1 : UInt32
  ms : UInt32
  ks : UInt32
  ns : UInt32
  /-- Tiles of the left operand are staged in local memory. -/
  stageLeft : Bool
  /-- Tiles of the right operand are staged in local memory. -/
  stageRight : Bool
  localFetch0 : UInt32
  localFetch1 : UInt32
deriving DecidableEq, Repr

namespace ProductTuning

/-- Whether any operand is staged in local memory. -/
def staged (p : ProductTuning) : Bool := p.stageLeft || p.stageRight

/-- The rows of the result tile of a group. -/
def tileRows {ε : Type} (p : ProductTuning) : Except (Fault ε) Nat :=
  Word.bits32.mul p.localSize0.toNat p.ms.toNat

/-- The columns of the result tile of a group. -/
def tileCols {ε : Type} (p : ProductTuning) : Except (Fault ε) Nat :=
  Word.bits32.mul p.localSize1.toNat p.ns.toNat

/-- The record of a document. -/
def ofDatum? (d : Datum) : Option ProductTuning := do
  let members ← readSettings ["simd_width", "local_size_0", "kl", "local_size_1", "ms", "ks", "ns",
    "use_lhs_local", "use_rhs_local", "local_fetch_0", "local_fetch_1"] d
  return {
    simdWidth := ← members.read? "simd_width" Datum.word32?
    localSize0 := ← members.read? "local_size_0" Datum.word32?
    kl := ← members.read? "kl" Datum.word32?
    localSize1 := ← members.read? "local_size_1" Datum.word32?
    ms := ← members.read? "ms" Datum.word32?
    ks := ← members.read? "ks" Datum.word32?
    ns := ← members.read? "ns" Datum.word32?
    stageLeft := ← members.read? "use_lhs_local" Datum.flag?
    stageRight := ← members.read? "use_rhs_local" Datum.flag?
    localFetch0 := ← members.read? "local_fetch_0" Datum.word32?
    localFetch1 := ← members.read? "local_fetch_1" Datum.word32? }

/-- The width is one of kernel code's, no size is zero, the step divides the depth of a tile, and
the fetch shape of a staged operand has as many workers as the group. Both numbers of workers are
formed in 32 bits, the group's even when nothing is staged. -/
def check (p : ProductTuning) : Except (Fault Flaw) Unit := do
  checkWidth p.simdWidth
  checkPositive [("local_size_0", p.localSize0), ("local_size_1", p.localSize1), ("kl", p.kl),
    ("ms", p.ms), ("ks", p.ks), ("ns", p.ns), ("local_fetch_0", p.localFetch0),
    ("local_fetch_1", p.localFetch1)]
  require (p.kl.toNat % p.ks.toNat = 0) (.step p.ks p.kl)
  let workers ← Word.bits32.mul p.localSize0.toNat p.localSize1.toNat
  if p.staged then
    let fetched ← Word.bits32.mul p.localFetch0.toNat p.localFetch1.toNat
    require (fetched = workers) (.fetch p.localFetch0 p.localFetch1 workers)

instance : TunedRecord ProductTuning where
  title := "MatrixProductParams"
  settings p := [("simd_width", .number p.simdWidth), ("local_size_0", .number p.localSize0),
    ("kl", .number p.kl), ("local_size_1", .number p.localSize1), ("ms", .number p.ms),
    ("ks", .number p.ks), ("ns", .number p.ns), ("use_lhs_local", .switch p.stageLeft),
    ("use_rhs_local", .switch p.stageRight), ("local_fetch_0", .number p.localFetch0),
    ("local_fetch_1", .number p.localFetch1)]
  tag p := "V" ++ tagNumber p.simdWidth ++ "L" ++ tagNumber p.localSize0 ++ "x" ++
    tagNumber p.localSize1 ++ "KL" ++ tagNumber p.kl ++ "M" ++ tagNumber p.ms ++ "K" ++
    tagNumber p.ks ++ "N" ++ tagNumber p.ns ++ (if p.stageLeft then "A" else "") ++
    (if p.stageRight then "B" else "") ++ "F" ++ tagNumber p.localFetch0 ++ "x" ++
    tagNumber p.localFetch1
  check := check
  ofDatum? := ofDatum?

end ProductTuning

end TunedKernel
