/-
**The names that generated kernels bind.**

* `Expr.names`, `Operation.names` — the names of the operands and of the sizes of an operation;
  `collectArguments_names` — the arguments of a kernel have these names.
* `localNames` — the names that the kernels of a kind bind, under a record and for so many statements.
* `Program.Binds`, `generateWith_binds` — the kernels of every kind bind these names and no others.
* `generateWith_operands` — the arguments of the kernels of every kind.
-/

import TunedKernel.Generator.Basic
import TunedKernel.Proofs.MatrixProduct.Stages
import TunedKernel.Proofs.MatrixStatements.Accesses
import TunedKernel.Proofs.Reduction.Worker
import TunedKernel.Proofs.RowReduction.Worker
import TunedKernel.Proofs.VectorStatements.Accesses

namespace TunedKernel

/-! ### Names of arguments -/

/-- The name of a node, and the symbols of its extents. -/
def Expr.names (node : Expr) : List String :=
  (node.role?.map Prod.snd).toList ++ node.extents.filterMap Extent.symbol?

/-- The names of the operands and of the sizes of an operation. -/
def Operation.names (op : Operation) : List String := op.nodes.flatMap Expr.names

theorem Operation.mem_names_iff {op : Operation} {x : String} : x ∈ op.names ↔ ∃ role, op.Uses role x := by
  simp only [names, List.mem_flatMap, Expr.names, List.mem_append, Option.mem_toList, Option.map_eq_some_iff,
    List.mem_filterMap, Extent.symbol?_eq_some_iff, exists_eq_right, Prod.exists, Uses]
  constructor
  · rintro ⟨node, member, ⟨role, named⟩ | size⟩
    · exact ⟨role, node, member, Or.inl named⟩
    · exact ⟨.size, node, member, Or.inr ⟨rfl, size⟩⟩
  · rintro ⟨role, node, member, named | ⟨-, size⟩⟩
    · exact ⟨node, member, Or.inl ⟨role, named⟩⟩
    · exact ⟨node, member, Or.inr size⟩

/-- **The arguments of an operation have the names of its operands and sizes.** -/
theorem collectArguments_names {op : Operation} {width : Nat} {arguments : List Argument}
    (ok : collectArguments op width = .ok arguments) {x : String} :
    x ∈ arguments.map Argument.name ↔ x ∈ op.names := by
  rw [Operation.mem_names_iff, List.mem_map]
  constructor
  · rintro ⟨a, member, rfl⟩
    obtain ⟨role, uses, -⟩ := (mem_collectArguments ok).mp member
    exact ⟨role, uses⟩
  · rintro ⟨role, uses⟩
    exact ⟨⟨x, _⟩, (mem_collectArguments ok).mpr ⟨role, uses, rfl⟩, rfl⟩

/-! ### Names that code binds -/

/-- The names that a walk over a range binds, in the way that the range is split. -/
def splitNames (strided : Bool) (counter : String) : List String :=
  counter :: if strided then [] else ["_chunk", "_start", "_stop"].map (counter ++ ·)

/-- A word with the number of a statement behind it, for every statement. -/
def numberedNames (word : String) (count : Nat) : List String :=
  (List.range count).map fun n => word ++ toString n

theorem Walk.mem_splitNames {strided : Bool} {counter : String} {dimension : Nat} {bound : Term}
    {body : Code} {x : String} : x ∈ ((split strided counter dimension bound).around body).binders ↔
      x ∈ splitNames strided counter ∨ x ∈ body.binders := by
  have declared : x ∈ (split strided counter dimension bound).declared ∨ x = counter ↔
      x ∈ splitNames strided counter := by
    rw [splitNames, List.mem_cons, Or.comm]
    cases strided <;> rfl
  rw [Walk.mem_binders_split, ← or_assoc, declared]

theorem Numbered.mem_numberedNames {statements : List Statement} {folded : List Folded}
    (numbered : Numbered statements folded) {word x : String} :
    x ∈ folded.map (fun f => word ++ toString f.position) ↔
      x ∈ numberedNames word statements.length := by
  rw [numberedNames, ← numbered.length_eq, ← numbered.positions_eq, List.map_map]
  rfl

/-- A program whose kernels have the operands and sizes of an operation as arguments, and bind the names
given. No further argument has such a name. -/
structure Program.Binds (program : Program) (op : Operation) (names : List String) : Prop where
  passed : ∀ kernel ∈ program.kernels, ∀ x ∈ op.names, x ∈ kernel.arguments.map Argument.name
  further : ∀ kernel ∈ program.kernels, ∀ x ∈ kernel.arguments.map Argument.name,
    x ∈ op.names ∨ x ∉ names
  bound : ∀ x, x ∈ names ↔ ∃ kernel ∈ program.kernels, x ∈ kernel.body.binders

/-- A program of a single kernel that takes the arguments of the operation. -/
theorem Program.Binds.single {program : Program} {op : Operation} {names : List String} {width : Nat}
    {operands : List Argument} {kernel : Kernel} (collected : collectArguments op width = .ok operands)
    (kernels : program.kernels = [kernel]) (arguments : kernel.arguments = operands)
    (bound : ∀ x, x ∈ names ↔ x ∈ kernel.body.binders) : program.Binds op names where
  passed kernel' member x named := by
    rw [kernels] at member
    obtain rfl := List.mem_singleton.mp member
    exact arguments ▸ (collectArguments_names collected).mpr named
  further kernel' member x named := by
    rw [kernels] at member
    obtain rfl := List.mem_singleton.mp member
    exact Or.inl ((collectArguments_names collected).mp (arguments ▸ named))
  bound x := by
    rw [bound, kernels]
    simp

variable {op : Operation} {program : Program}

/-! ### Element-wise statements -/

/-- The names that a kernel of vector statements binds. -/
def VectorStatements.localNames (p : VectorTuning) : List String := splitNames p.strided "i"

theorem VectorStatements.generate_binds {p : VectorTuning} (ok : generate p op = .ok program) :
    program.Binds op (localNames p) := by
  obtain ⟨k, operands, kernel, accepted, collected, kernels, arguments, -, -, code⟩ := generate_eq_ok ok
  obtain rfl := accepted.record
  refine .single collected kernels arguments fun x => ?_
  rw [code, Parts.body, Walk.mem_splitNames, accepted.binders_stores]
  simp [localNames]

/-- The names that a kernel of matrix statements binds. -/
def MatrixStatements.localNames (p : MatrixTuning) : List String :=
  splitNames p.strided "row" ++ splitNames p.strided "col"

theorem MatrixStatements.generate_binds {p : MatrixTuning} (ok : generate p op = .ok program) :
    program.Binds op (localNames p) := by
  obtain ⟨k, operands, kernel, accepted, collected, kernels, arguments, -, -, code⟩ := generate_eq_ok ok
  obtain rfl := accepted.record
  refine .single collected kernels arguments fun x => ?_
  rw [code, Parts.body, Parts.rowWalk, Walk.mem_splitNames, Parts.colWalk, Walk.mem_splitNames,
    accepted.binders_stores]
  simp [localNames]

/-! ### Reductions -/

/-- The names that the kernels of a reduction bind. -/
def Reduction.localNames (p : ReductionTuning) (count : Nat) : List String :=
  numberedNames "buf" count ++ "lid" :: splitNames p.strided "i" ++ numberedNames "sum" count ++
    if 1 < p.simdWidth.toNat then numberedNames "acc" count else []

namespace Reduction

/-- The scratch buffer has a name of its own. -/
theorem scratch_notMem_localNames {p : ReductionTuning} {count : Nat} :
    scratch ∉ localNames p count := by
  have other {c : Char} {word : String} (first : initial word = some c) (apart : c ≠ 't') :
      scratch ∉ numberedNames word count := by
    intro member
    obtain ⟨n, -, same⟩ := List.mem_map.mp member
    have letter := initial_append first (toString n)
    rw [same] at letter
    exact apart (Option.some.inj letter).symm
  have walk : scratch ∉ splitNames p.strided "i" := by
    cases p.strided <;> decide
  have packed : scratch ∉ if 1 < p.simdWidth.toNat then numberedNames "acc" count else [] := by
    split
    · exact other (c := 'a') (by decide) (by decide)
    · exact List.not_mem_nil
  simp only [localNames, List.mem_append, List.mem_cons, not_or]
  exact ⟨⟨⟨other (c := 'b') (by decide) (by decide), by decide, walk⟩,
    other (c := 's') (by decide) (by decide)⟩, packed⟩

variable {k : Parts}

/-- What the two kernels bind together. -/
theorem mem_localNames (accepted : Accepted op k.record k) {x : String} :
    x ∈ localNames k.record op.statements.length ↔
      x ∈ k.partialBody.binders ∨ x ∈ k.finalBody.binders := by
  have sums : x ∈ k.folded.map Folded.sumName ↔ x ∈ numberedNames "sum" op.statements.length :=
    accepted.numbered.mem_numberedNames
  have buffers : x ∈ k.folded.map (fun f => (k.buffer f).name) ↔
      x ∈ numberedNames "buf" op.statements.length := accepted.numbered.mem_numberedNames
  have begun : x ∈ k.folded.map (accumulatorName k.width) ↔
      1 < k.width ∧ x ∈ numberedNames "acc" op.statements.length ∨
        ¬ 1 < k.width ∧ x ∈ numberedNames "sum" op.statements.length := by
    by_cases wide : 1 < k.width
    · rw [← accepted.numbered.mem_numberedNames, show accumulatorName k.width =
        fun f => "acc" ++ toString f.position from funext fun f => if_pos wide]
      simp only [wide, true_and, not_true, false_and, or_false]
    · rw [show accumulatorName k.width = Folded.sumName from funext fun f => if_neg wide, sums]
      simp only [wide, false_and, not_false_iff, true_and, false_or]
  have lanes (bound : x ∈ (Code.ofSteps (k.folded.flatMap (foldLanes k.type k.width))).binders) :
      x ∈ numberedNames "sum" op.statements.length := by
    rw [binders_ofSteps_flatMap] at bound
    obtain ⟨f, member, named⟩ := List.mem_flatMap.mp bound
    exact sums.mp (mem_binders_foldLanes named ▸ List.mem_map_of_mem member)
  have walk : x ∈ k.walk.declared ∨ x = "i" ↔ x ∈ splitNames k.record.strided "i" := by
    rw [splitNames, List.mem_cons, Or.comm, Parts.walk]
    cases k.record.strided <;> rfl
  have gathered : x ∈ k.gather.binders ↔ x ∈ k.folded.map (accumulatorName k.width) ∨
      x ∈ splitNames k.record.strided "i" ∨
        x ∈ (Code.ofSteps (k.folded.flatMap (foldLanes k.type k.width))).binders := by
    rw [mem_binders_gather, ← walk, or_assoc]
  have counter (regathered : x = "i") : x ∈ splitNames k.record.strided "i" :=
    regathered ▸ List.mem_cons_self
  rw [mem_binders_partialBody accepted, mem_binders_finalBody accepted, gathered,
    mem_binders_regather, begun, buffers, sums]
  simp only [localNames, List.mem_append, List.mem_cons, List.mem_ite_nil_right,
    show k.record.simdWidth.toNat = k.width from rfl]
  constructor
  · rintro (((buffer | rfl | split) | sum) | wide)
    · exact Or.inl (Or.inl buffer)
    · exact Or.inl (Or.inr (Or.inl rfl))
    · exact Or.inl (Or.inr (Or.inr (Or.inr (Or.inl split))))
    · exact Or.inr (Or.inr (Or.inr (Or.inl sum)))
    · exact Or.inl (Or.inr (Or.inr (Or.inl (Or.inl wide))))
  · rintro ((buffer | rfl | (wide | ⟨-, sum⟩) | split | folded) | buffer | rfl | sum | last)
    · exact Or.inl (Or.inl (Or.inl buffer))
    · exact Or.inl (Or.inl (Or.inr (Or.inl rfl)))
    · exact Or.inr wide
    · exact Or.inl (Or.inr sum)
    · exact Or.inl (Or.inl (Or.inr (Or.inr split)))
    · exact Or.inl (Or.inr (lanes folded))
    · exact Or.inl (Or.inl (Or.inl buffer))
    · exact Or.inl (Or.inl (Or.inr (Or.inl rfl)))
    · exact Or.inl (Or.inr sum)
    · exact Or.inl (Or.inl (Or.inr (Or.inr (counter last))))

theorem generate_binds {p : ReductionTuning} (ok : generate p op = .ok program) :
    program.Binds op (localNames p op.statements.length) := by
  obtain ⟨k, operands, first, second, accepted, collected, -, kernels, both, -, -, code, code'⟩ :=
    generate_eq_ok ok
  obtain rfl := accepted.record
  rw [← kernels] at both
  refine ⟨fun kernel member x named => ?_, fun kernel member x named => ?_, fun x => ?_⟩
  · rw [(both kernel member).1, List.map_append]
    exact List.mem_append_left _ ((collectArguments_names collected).mpr named)
  · rw [(both kernel member).1, List.map_append] at named
    rcases List.mem_append.mp named with operand | temp
    · exact Or.inl ((collectArguments_names collected).mp operand)
    · obtain rfl := List.mem_singleton.mp temp
      exact Or.inr scratch_notMem_localNames
  · rw [mem_localNames accepted, kernels, ← code, ← code']
    simp

end Reduction

/-! ### Reductions of rows -/

/-- The names that a kernel that folds rows binds. -/
def RowReduction.localNames (transposed : Bool) (count : Nat) : List String :=
  numberedNames "buf" count ++ ["lid0", "lid1"] ++
    (if transposed then ["c_base", "c", "r"] else ["r_base", "r", "c"]) ++ numberedNames "sum" count

theorem RowReduction.generateFor_binds {kind : Operation.Kind} {transposed : Bool} {demand : Demand}
    {p : RowTuning} (ok : generateFor kind transposed demand p op = .ok program) :
    program.Binds op (localNames transposed op.statements.length) := by
  obtain ⟨k, operands, kernel, turned, accepted, collected, kernels, arguments, -, -, code⟩ :=
    generateFor_eq_ok ok
  obtain rfl := accepted.record
  refine .single collected kernels arguments fun x => ?_
  have sums : x ∈ numberedNames "sum" op.statements.length ↔ ∃ f ∈ k.folded, x = f.sumName := by
    rw [← accepted.numbered.mem_numberedNames, List.mem_map]
    exact exists_congr fun f => and_congr_right fun _ => eq_comm
  have buffers : x ∈ k.folded.map (fun f => (f.buffer k.type k.dims).name) ↔
      x ∈ numberedNames "buf" op.statements.length := accepted.numbered.mem_numberedNames
  have counters : [k.outer ++ "_base", k.outer, k.inner] =
      if transposed then ["c_base", "c", "r"] else ["r_base", "r", "c"] := by
    rw [Parts.outer, Parts.inner, turned]
    cases transposed <;> rfl
  rw [code, mem_binders_body accepted, buffers, Parts.Active, counters, ← sums]
  simp only [localNames, List.mem_append]
  tauto

/-! ### Matrix products -/

/-- The names that a kernel of matrix products binds. -/
def MatrixProduct.localNames (p : ProductTuning) : List String :=
  (if p.stageLeft then ["lA"] else []) ++ (if p.stageRight then ["lB"] else []) ++
    ["lid0", "lid1", "gm", "gn", "rC", "rA", "rB"] ++
    (if p.staged then ["flat", "fid0", "fid1", "a", "b"] else []) ++
    ["k0", "k", "kk", "m", "n", "row", "col"]

theorem MatrixProduct.generate_binds {left right : Bool} {p : ProductTuning}
    (ok : generate left right p op = .ok program) : program.Binds op (localNames p) := by
  obtain ⟨problem, target, operands, store, kernel, accepted, collected, stored, kernels, arguments, -,
    -, code⟩ := generate_eq_ok ok
  refine .single collected kernels arguments fun x => ?_
  have free : store.binder? = none :=
    Statement.binder?_storeStep stored (Or.inr ⟨target, accepted.stores⟩)
  have staged : x ∈ ["flat", "fid0", "fid1", "a", "b"] ↔ x ∈ ["flat", "fid0", "fid1"] ∨
      x ∈ ["a", "b"] := List.mem_append (s := ["flat", "fid0", "fid1"])
  rw [code, mem_binders_body free, mem_binders_prologue, Active]
  simp only [localNames, List.mem_append, List.mem_ite_nil_right, staged, List.mem_singleton]
  tauto

/-! ### Kernels of every kind -/

/-- The names that the kernels of one kind bind, for so many statements. -/
def localNames (kind : Operation.Kind) (record : (Table.ofKind kind).Record) (count : Nat) :
    List String :=
  match kind, record with
  | .vectorStatements, p => VectorStatements.localNames p
  | .matrixStatements, p => MatrixStatements.localNames p
  | .reduction, p => Reduction.localNames p count
  | .rowReduction transposed, _ | .matrixVector transposed, _ =>
    RowReduction.localNames transposed count
  | .matrixProduct _ _, p => MatrixProduct.localNames p

/-- **The kernels of every kind bind their local names**, and no others. -/
theorem generateWith_binds {kind : Operation.Kind} {record : (Table.ofKind kind).Record}
    (generated : generateWith kind record op = .ok program) :
    program.Binds op (localNames kind record op.statements.length) := by
  match kind, record with
  | .vectorStatements, p => exact VectorStatements.generate_binds generated
  | .matrixStatements, p => exact MatrixStatements.generate_binds generated
  | .reduction, p => exact Reduction.generate_binds generated
  | .rowReduction false, p => exact RowReduction.generateFor_binds generated
  | .rowReduction true, p => exact RowReduction.generateFor_binds generated
  | .matrixVector transposed, p => exact RowReduction.generateFor_binds generated
  | .matrixProduct left right, p => exact MatrixProduct.generate_binds generated

/-- The scratch buffer that the kernels of a kind pass besides the operands. -/
def scratchArguments (kind : Operation.Kind) (type : NumericType) : List Argument :=
  if kind = .reduction then [⟨Reduction.scratch, .buffer type.text⟩] else []

/-- **The arguments of every kernel** are those collected from the operation, and for a reduction the
scratch buffer behind them, whose name is none of theirs. -/
theorem generateWith_operands {kind : Operation.Kind} {record : (Table.ofKind kind).Record}
    (generated : generateWith kind record op = .ok program) :
    program.kernels ≠ [] ∧ ∃ width operands, collectArguments op width = .ok operands ∧
      (∀ a ∈ scratchArguments kind op.numericType, ∀ b ∈ operands, b.name ≠ a.name) ∧
      ∀ kernel ∈ program.kernels, kernel.arguments = operands ++ scratchArguments kind op.numericType := by
  have single {width : Nat} {operands : List Argument} {kernel : Kernel} (other : kind ≠ .reduction)
      (collected : collectArguments op width = .ok operands) (kernels : program.kernels = [kernel])
      (arguments : kernel.arguments = operands) :
      program.kernels ≠ [] ∧ ∃ width operands, collectArguments op width = .ok operands ∧
        (∀ a ∈ scratchArguments kind op.numericType, ∀ b ∈ operands, b.name ≠ a.name) ∧
        ∀ kernel ∈ program.kernels,
          kernel.arguments = operands ++ scratchArguments kind op.numericType := by
    rw [scratchArguments, if_neg other, kernels]
    refine ⟨List.cons_ne_nil _ _, width, operands, collected, nofun, List.forall_mem_singleton.mpr ?_⟩
    rw [arguments, List.append_nil]
  match kind, record with
  | .vectorStatements, p =>
    obtain ⟨_, _, _, -, collected, kernels, arguments, -⟩ := VectorStatements.generate_eq_ok generated
    exact single nofun collected kernels arguments
  | .matrixStatements, p =>
    obtain ⟨_, _, _, -, collected, kernels, arguments, -⟩ := MatrixStatements.generate_eq_ok generated
    exact single nofun collected kernels arguments
  | .reduction, p =>
    obtain ⟨_, operands, _, _, -, collected, fresh, kernels, both, -⟩ :=
      Reduction.generate_eq_ok generated
    rw [kernels]
    exact ⟨List.cons_ne_nil _ _, _, operands, collected, List.forall_mem_singleton.mpr fresh,
      fun kernel member => (both kernel member).1⟩
  | .rowReduction false, p | .rowReduction true, p | .matrixVector transposed, p =>
    obtain ⟨_, _, _, -, -, collected, kernels, arguments, -⟩ :=
      RowReduction.generateFor_eq_ok generated
    exact single nofun collected kernels arguments
  | .matrixProduct left right, p =>
    obtain ⟨_, _, _, _, _, -, collected, -, kernels, arguments, -⟩ :=
      MatrixProduct.generate_eq_ok generated
    exact single nofun collected kernels arguments

end TunedKernel
