/-
**What a program says of its launch agrees with its text.**

* `MatrixProduct.Tiling.bytes_eq_ok` — the bytes of the local tiles, if they fit their word.
* `Code.memories_eq_nil` — code without arrays shares none; `generateWith_metered` — the local memory of every
  kernel of every kind is that of the shared arrays that its code declares.
* `generateWith_legible` — the kernels of every kind can be read from their text.
* `Program.checkLimits_eq_ok` — when a program is not too large for a device.
* `generateWith_described` — the text of a program is read as definitions that agree with its kernels one by one
  and in order.
-/

import TunedKernel.Proofs.Generation.Overflows
import TunedKernel.Proofs.Generation.Resolved
import TunedKernel.Proofs.MatrixProduct.Accesses
import TunedKernel.Proofs.Reduction.Accesses
import TunedKernel.Proofs.RowReduction.Accesses
import TunedKernel.Proofs.Source.Definitions

namespace TunedKernel

open TunedKernel.Text

/-- The bytes of the local tiles in use. -/
theorem MatrixProduct.Tiling.bytes_eq_ok {t : Tiling} {type : NumericType} {n : Nat}
    (ok : t.bytes type = .ok n) :
    n = (t.memories.map fun memory => memory.dims.prod * type.size).sum := by
  have go (memories : List LocalMemory) (start : Nat) (ok : memories.foldlM (fun total (m : LocalMemory) => do
      Word.bits64.add (ε := Refusal) total (← m.bytes type.size)) start = .ok n) :
      n = start + (memories.map fun memory => memory.dims.prod * type.size).sum := by
    induction memories generalizing start with
    | nil =>
      cases ok
      rfl
    | cons memory memories ih =>
      obtain ⟨next, added, ok⟩ := bind_eq_ok_iff.mp ok
      obtain ⟨size, counted, added⟩ := bind_eq_ok_iff.mp added
      obtain rfl := (Word.add_eq_ok_iff.mp added).2
      rw [ih _ ok, LocalMemory.bytes_eq_ok counted, List.map_cons, List.sum_cons, Nat.add_assoc]
  rw [go t.memories 0 ok, Nat.zero_add]

/-! ### Shared arrays -/

namespace Code

theorem memories_ofSteps (steps : List Step) :
    (ofSteps steps).memories = steps.filterMap Step.memory? := by
  induction steps with
  | nil => rfl
  | cons s steps ih =>
    show s.memory?.toList ++ (ofSteps steps).memories = _
    rw [ih, List.filterMap_cons]
    cases s.memory? <;> rfl

/-- Code that declares no array shares none. -/
theorem memories_eq_nil {code : Code} (none : code.arrays = []) : code.memories = [] := by
  induction code with
  | done => rfl
  | step s rest ih =>
    obtain ⟨here, later⟩ := List.append_eq_nil_iff.mp none
    rw [memories, ih later, List.append_nil]
    cases s with
    | declareLocal memory => cases here
    | declare | declareArray | store | barrier => rfl
  | loop l body rest inner ih | guarded condition body rest inner ih =>
    obtain ⟨here, later⟩ := List.append_eq_nil_iff.mp none
    rw [memories, inner here, ih later]
    rfl

/-- Code that shares the arrays of its first part, if it declares no others. -/
theorem memories_append_of_arrays {first second : Code}
    (same : (first ++ second).arrays = first.arrays) : (first ++ second).memories = first.memories := by
  rw [arrays_append, List.append_right_eq_self] at same
  rw [memories_append, memories_eq_nil same, List.append_nil]

end Code

/-- The buffers of a batch. -/
theorem Folded.memories_declareLocals (folded : List Folded) (type : NumericType) (dims : List Nat) :
    (Code.ofSteps (folded.map fun f => Step.declareLocal (f.buffer type dims))).memories =
      folded.map fun f => f.buffer type dims := by
  rw [Code.memories_ofSteps, List.filterMap_map]
  exact List.filterMap_eq_map ▸ rfl

/-- The local memory of a kernel is that of the arrays that its code shares, all of elements of one type. -/
structure Kernel.Metered (kernel : Kernel) (type : NumericType) : Prop where
  bytes : kernel.localMemBytes =
    (kernel.body.memories.map fun memory => memory.dims.prod * type.size).sum
  elements : ∀ memory ∈ kernel.body.memories, memory.element = type.text

/-- A kernel that shares the buffers of a batch. -/
theorem Kernel.Metered.of_batch {kernel : Kernel} {type : NumericType} {dims : List Nat}
    {folded : List Folded} (shared : kernel.body.memories = folded.map fun f => f.buffer type dims)
    (bytes : kernel.localMemBytes = folded.length * (dims.prod * type.size)) : kernel.Metered type where
  bytes := by
    rw [bytes, shared, List.map_map]
    simp [Function.comp_def, Folded.buffer]
  elements memory member := by
    rw [shared] at member
    obtain ⟨f, -, rfl⟩ := List.mem_map.mp member
    rfl

/-- A kernel without arrays. -/
theorem Kernel.Metered.of_none {kernel : Kernel} {type : NumericType} (none : kernel.body.arrays = [])
    (bytes : kernel.localMemBytes = 0) : kernel.Metered type where
  bytes := by rw [bytes, Code.memories_eq_nil none]; rfl
  elements := by rw [Code.memories_eq_nil none]; nofun

variable {op : Operation} {program : Program}

/-! ### Kernels of every kind -/

/-- Statements declare no array. -/
theorem Statement.array?_storeStep {s : Statement} {scope : Scope} {store : Step}
    (ok : s.storeStep scope = .ok store) : store.array? = none := by
  obtain ⟨target, value, -, -, rfl⟩ := storeStep_eq_ok ok
  rfl

/-- Nor do they one after another. -/
theorem Statement.arrays_stores {statements : List Statement} {scope : Scope} {store : Statement → Step}
    (stores : ∀ s ∈ statements, s.storeStep scope = .ok (store s)) :
    (Code.ofSteps (statements.map store)).arrays = [] := by
  refine Code.arrays_ofSteps_nil fun step inside => ?_
  obtain ⟨s, statement, rfl⟩ := List.mem_map.mp inside
  exact array?_storeStep (stores s statement)

/-- The kernel of vector statements has no arrays. -/
theorem VectorStatements.arrays_body {p : VectorTuning} {k : Parts} (accepted : Accepted op p k) :
    k.body.arrays = [] :=
  (Walk.arrays_around_split ..).trans (Statement.arrays_stores accepted.stores)

/-- Nor has that of matrix statements. -/
theorem MatrixStatements.arrays_body {p : MatrixTuning} {k : Parts} (accepted : Accepted op p k) :
    k.body.arrays = [] :=
  (Walk.arrays_around_split ..).trans ((Walk.arrays_around_split ..).trans
    (Statement.arrays_stores accepted.stores))

/-- The name and the local memory of a kernel of vector statements. -/
theorem VectorStatements.generate_needs {p : VectorTuning} (ok : generate p op = .ok program) :
    ∀ kernel ∈ program.kernels, kernel.name = kind.identifier ∧ kernel.localMemBytes = 0 := by
  obtain ⟨size, -, ok⟩ := bind_eq_ok_iff.mp ok
  obtain ⟨_, -, ok⟩ := bind_eq_ok_iff.mp ok
  obtain ⟨arguments, -, ok⟩ := bind_eq_ok_iff.mp ok
  obtain ⟨bound, -, ok⟩ := bind_eq_ok_iff.mp ok
  obtain ⟨stores, -, ok⟩ := bind_eq_ok_iff.mp ok
  cases ok
  exact List.forall_mem_singleton.mpr ⟨rfl, rfl⟩

/-- The name and the local memory of a kernel of matrix statements. -/
theorem MatrixStatements.generate_needs {p : MatrixTuning} (ok : generate p op = .ok program) :
    ∀ kernel ∈ program.kernels, kernel.name = kind.identifier ∧ kernel.localMemBytes = 0 := by
  obtain ⟨_, -, ok⟩ := bind_eq_ok_iff.mp ok
  obtain ⟨_, -, ok⟩ := bind_eq_ok_iff.mp ok
  obtain ⟨⟨rows, cols⟩, -, ok⟩ := bind_eq_ok_iff.mp ok
  obtain ⟨arguments, -, ok⟩ := bind_eq_ok_iff.mp ok
  obtain ⟨stores, -, ok⟩ := bind_eq_ok_iff.mp ok
  cases ok
  exact List.forall_mem_singleton.mpr ⟨rfl, rfl⟩

/-- The names and the local memory of the kernels of a reduction. -/
theorem Reduction.generate_needs {p : ReductionTuning} (ok : generate p op = .ok program) :
    ∀ kernel ∈ program.kernels, isWord kernel.name ∧
      kernel.localMemBytes = op.statements.length * (p.localSize.toNat * op.numericType.size) := by
  obtain ⟨operands, first, second, -, kernels⟩ := exists_kernels ok
  rw [kernels]
  have words : isWord "reduction_partial" = true ∧ isWord "reduction_final" = true := by decide
  exact List.forall_mem_cons.mpr ⟨⟨words.1, rfl⟩, List.forall_mem_singleton.mpr ⟨words.2, rfl⟩⟩

/-- The name and the local memory of a kernel that folds rows. -/
theorem RowReduction.generateFor_needs {kind : Operation.Kind} {transposed : Bool} {demand : Demand}
    {p : RowTuning} (ok : generateFor kind transposed demand p op = .ok program) :
    ∀ kernel ∈ program.kernels, kernel.name = kind.identifier ∧
      kernel.localMemBytes = op.statements.length *
        (p.localSize0.toNat * (p.localSize1.toNat + 1) * op.numericType.size) := by
  obtain ⟨arguments, body, -, kernels⟩ := exists_kernels ok
  rw [kernels]
  exact List.forall_mem_singleton.mpr ⟨rfl, rfl⟩

/-- The name and the local memory of a kernel of matrix products. -/
theorem MatrixProduct.generate_needs {left right : Bool} {p : ProductTuning}
    (ok : generate left right p op = .ok program) :
    ∀ kernel ∈ program.kernels, kernel.name = (Operation.Kind.matrixProduct left right).identifier ∧
      kernel.localMemBytes = ((Tiling.of p op.numericType).memories.map fun memory =>
        memory.dims.prod * op.numericType.size).sum := by
  obtain ⟨_, -, ok⟩ := bind_eq_ok_iff.mp ok
  obtain ⟨_, -, ok⟩ := bind_eq_ok_iff.mp ok
  obtain ⟨problem, -, ok⟩ := bind_eq_ok_iff.mp ok
  obtain ⟨⟨ml, nl⟩, tile, ok⟩ := bind_eq_ok_iff.mp ok
  obtain ⟨arguments, -, ok⟩ := bind_eq_ok_iff.mp ok
  obtain ⟨t, sizes, ok⟩ := bind_eq_ok_iff.mp ok
  obtain ⟨bytes, summed, ok⟩ := bind_eq_ok_iff.mp ok
  obtain ⟨code, -, ok⟩ := bind_eq_ok_iff.mp ok
  cases ok
  obtain ⟨_, rowCount, tile⟩ := bind_eq_ok_iff.mp tile
  obtain ⟨_, colCount, tile⟩ := bind_eq_ok_iff.mp tile
  cases tile
  obtain ⟨_, leftRow, sizes⟩ := bind_eq_ok_iff.mp sizes
  obtain ⟨_, rightRow, sizes⟩ := bind_eq_ok_iff.mp sizes
  cases sizes
  obtain rfl := (Word.mul_eq_ok_iff.mp rowCount).2
  obtain rfl := (Word.mul_eq_ok_iff.mp colCount).2
  obtain rfl := (Word.add_eq_ok_iff.mp leftRow).2
  obtain rfl := (Word.add_eq_ok_iff.mp rightRow).2
  exact List.forall_mem_singleton.mpr ⟨rfl, Tiling.bytes_eq_ok summed⟩

/-- The buffers that the kernels of a reduction share. -/
theorem Reduction.memories_around {p : ReductionTuning} {k : Parts} (accepted : Accepted op p k)
    {fold : Code} {last : Folded → Step} (folds : fold.arrays = [])
    (lasts : ∀ f ∈ k.folded, (last f).array? = none) :
    (k.around fold last).memories = k.folded.map k.buffer := by
  have arrays := arrays_around (accepted.record ▸ accepted) folds lasts
  have declared := Folded.memories_declareLocals k.folded k.type [k.lanes]
  rw [Parts.around, prologue, Code.ofSteps_append, Code.append_assoc] at arrays ⊢
  rw [Code.memories_append_of_arrays, declared]
  · rfl
  · rw [arrays, Folded.arrays_declareLocals]
    rfl

/-- The buffers that a kernel that folds rows shares. -/
theorem RowReduction.memories_body {p : RowTuning} {k : Parts} (accepted : Accepted op p k) :
    k.body.memories = k.folded.map fun f => f.buffer k.type k.dims := by
  have arrays := arrays_body (accepted.record ▸ accepted)
  have declared := Folded.memories_declareLocals k.folded k.type k.dims
  have first : k.body = Code.ofSteps (k.folded.map fun f => .declareLocal (f.buffer k.type k.dims)) ++
      (Code.join [Code.ofSteps [.declare .index "lid0" (.query .localId 0),
        .declare .index "lid1" (.query .localId 1)]] ++
          (Walk.uniform k.outer 0 k.rows.term).around k.trip) := Code.append_assoc _ _ _
  rw [first] at arrays ⊢
  rw [Code.memories_append_of_arrays, declared]
  rw [arrays, Folded.arrays_declareLocals]

/-- The tiles that a kernel of matrix products shares. -/
theorem MatrixProduct.memories_body {p : ProductTuning} {problem : Problem} {store : Step}
    {type : NumericType} (stored : problem.statement.storeStep (resultScope type) = .ok store) :
    (body (.of p type) type problem store).memories = (Tiling.of p type).memories := by
  have tiles : ((Tiling.of p type).memories.map Step.declareLocal).filterMap Step.memory? =
      (Tiling.of p type).memories := by
    rw [List.filterMap_map]
    exact List.filterMap_some
  have prologued : (prologue (.of p type) type).memories = (Tiling.of p type).memories := by
    rw [prologue, Code.memories_ofSteps, List.filterMap_append, List.filterMap_append,
      List.filterMap_append, tiles]
    cases staged : (Tiling.of p type).record.staged
    · rw [if_neg Bool.false_ne_true]
      simp [Step.memory?]
    · rw [if_pos rfl]
      simp [Step.memory?]
  have finished : (finish (Tiling.of p type).record store).memories = [] := by
    obtain ⟨_, _, -, -, rfl⟩ := Statement.storeStep_eq_ok stored
    rfl
  have advanced : ((Walk.stepped "k0" problem.lhs.logicalCols.term
      (Tiling.of p type).record.kl.toNat).around (tileCode (.of p type) problem)).memories = [] :=
    Code.memories_eq_nil (by rw [Walk.arrays_around_plain rfl rfl, arrays_tileCode])
  show (_ ++ (_ ++ (_ ++ (_ ++ Code.done)))).memories = _
  rw [Code.append_done, Code.memories_append, Code.memories_append, Code.memories_append, prologued,
    advanced, finished]
  exact List.append_nil _

/-- **The local memory of every kernel** is that of the arrays that its code shares. -/
theorem generateWith_metered {kind : Operation.Kind} {record : (Table.ofKind kind).Record}
    (generated : generateWith kind record op = .ok program) :
    ∀ kernel ∈ program.kernels, kernel.Metered op.numericType := by
  have rows {kind : Operation.Kind} {transposed : Bool} {demand : RowReduction.Demand} {p : RowTuning}
      (generated : RowReduction.generateFor kind transposed demand p op = .ok program) :
      ∀ kernel ∈ program.kernels, kernel.Metered op.numericType := by
    intro kernel member
    have bytes := (RowReduction.generateFor_needs generated kernel member).2
    obtain ⟨k, _, _, -, accepted, -, kernels, -, -, -, code⟩ :=
      RowReduction.generateFor_eq_ok generated
    obtain rfl := List.mem_singleton.mp (kernels ▸ member)
    have count := accepted.numbered.length_eq
    have shared : kernel.body.memories = k.folded.map fun f => f.buffer op.numericType k.dims := by
      rw [code, RowReduction.memories_body accepted, accepted.type]
    refine .of_batch shared ?_
    rw [bytes, count, RowReduction.Parts.dims, accepted.record, List.prod_pair]
  intro kernel member
  match kind, record with
  | .vectorStatements, p =>
    have bytes := (VectorStatements.generate_needs generated kernel member).2
    obtain ⟨k, _, _, accepted, -, kernels, -, -, -, code⟩ :=
      VectorStatements.generate_eq_ok generated
    obtain rfl := List.mem_singleton.mp (kernels ▸ member)
    exact .of_none (code ▸ VectorStatements.arrays_body accepted) bytes
  | .matrixStatements, p =>
    have bytes := (MatrixStatements.generate_needs generated kernel member).2
    obtain ⟨k, _, _, accepted, -, kernels, -, -, -, code⟩ :=
      MatrixStatements.generate_eq_ok generated
    obtain rfl := List.mem_singleton.mp (kernels ▸ member)
    exact .of_none (code ▸ MatrixStatements.arrays_body accepted) bytes
  | .reduction, p =>
    have bytes := (Reduction.generate_needs generated kernel member).2
    obtain ⟨k, _, _, _, accepted, -, -, kernels, -, -, -, first, second⟩ :=
      Reduction.generate_eq_ok generated
    have count := accepted.numbered.length_eq
    have shared : kernel.body.memories = k.folded.map fun f => f.buffer op.numericType [p.localSize.toNat] := by
      rw [kernels] at member
      simp only [List.mem_cons, List.not_mem_nil, or_false] at member
      rcases member with rfl | rfl
      · rw [first, Reduction.Parts.partialBody, Reduction.memories_around accepted
          Reduction.arrays_gather fun _ _ => rfl, ← accepted.type, ← accepted.record]
        rfl
      · rw [second, Reduction.Parts.finalBody, Reduction.memories_around accepted
          Reduction.arrays_regather fun f inside => Statement.array?_storeStep (accepted.stores f inside),
          ← accepted.type, ← accepted.record]
        rfl
    refine .of_batch shared ?_
    rw [bytes, count, List.prod_singleton]
  | .rowReduction false, p | .rowReduction true, p | .matrixVector transposed, p =>
    exact rows generated kernel member
  | .matrixProduct left right, p =>
    have bytes := (MatrixProduct.generate_needs generated kernel member).2
    obtain ⟨problem, target, _, store, _, -, -, stored, kernels, -, -, -, code⟩ :=
      MatrixProduct.generate_eq_ok generated
    obtain rfl := List.mem_singleton.mp (kernels ▸ member)
    have shared : kernel.body.memories = (MatrixProduct.Tiling.of p op.numericType).memories :=
      code ▸ MatrixProduct.memories_body stored
    refine ⟨shared ▸ bytes, fun memory inside => ?_⟩
    rw [shared, MatrixProduct.Tiling.memories] at inside
    rcases List.mem_append.mp inside with inside | inside
    all_goals
      split at inside
      · rw [List.mem_singleton.mp inside]
        rfl
      · cases inside

/-! ### Names and arguments -/

theorem Operation.Kind.isWord_identifier (kind : Operation.Kind) : isWord kind.identifier := by
  cases kind with
  | vectorStatements | matrixStatements | reduction => decide +kernel
  | rowReduction transposed | matrixVector transposed => cases transposed <;> decide +kernel
  | matrixProduct left right => cases left <;> cases right <;> decide +kernel

/-- The names of the kernels of every kind are identifiers. -/
theorem generateWith_names {kind : Operation.Kind} {record : (Table.ofKind kind).Record}
    (generated : generateWith kind record op = .ok program) :
    ∀ kernel ∈ program.kernels, isWord kernel.name := by
  have word {kind : Operation.Kind} {kernel : Kernel} (is : kernel.name = kind.identifier) :
      isWord kernel.name := is ▸ kind.isWord_identifier
  intro kernel member
  match kind, record with
  | .vectorStatements, p => exact word (VectorStatements.generate_needs generated kernel member).1
  | .matrixStatements, p => exact word (MatrixStatements.generate_needs generated kernel member).1
  | .reduction, p => exact (Reduction.generate_needs generated kernel member).1
  | .rowReduction false, p | .rowReduction true, p | .matrixVector transposed, p =>
    exact word (RowReduction.generateFor_needs generated kernel member).1
  | .matrixProduct left right, p => exact word (MatrixProduct.generate_needs generated kernel member).1

/-- The arguments of an operation are passed in the way of a role. -/
theorem collectArguments_kind {width : Nat} {arguments : List Argument}
    (ok : collectArguments op width = .ok arguments) : ∀ a ∈ arguments, ∃ role : Role,
      a.kind = role.kind op.numericType.text
        ((op.numericType.vectorName? width).getD op.numericType.text) := by
  intro a member
  obtain ⟨role, -, kind⟩ := (mem_collectArguments ok).mp member
  exact ⟨role, kind⟩

theorem NumericType.isWord_vectorName (type : NumericType) (width : Nat) :
    isWord ((type.vectorName? width).getD type.text) := by
  unfold vectorName?
  split
  · exact type.isWord_text
  · split
    · exact isWord_append_toString type.isWord_text width
    · exact type.isWord_text

/-- The types of the arguments of the kernels of every kind are words. -/
theorem generateWith_typed {kind : Operation.Kind} {record : (Table.ofKind kind).Record}
    (generated : generateWith kind record op = .ok program) :
    ∀ kernel ∈ program.kernels, ∀ a ∈ kernel.arguments, ∀ type,
      a.kind = .buffer type ∨ a.kind = .value type → isWord type := by
  obtain ⟨-, width, operands, collected, -, arguments⟩ := generateWith_operands generated
  intro kernel member a passed type is
  rw [arguments kernel member] at passed
  rcases List.mem_append.mp passed with operand | scratch
  · obtain ⟨role, way⟩ := collectArguments_kind collected a operand
    have scalar := op.numericType.isWord_text
    have packed := op.numericType.isWord_vectorName width
    rw [way] at is
    cases role with
    | hostScalar =>
      rcases is with is | is <;> cases is
      exact scalar
    | deviceScalar | matrix =>
      rcases is with is | is <;> cases is
      exact scalar
    | vector =>
      rcases is with is | is <;> cases is
      exact packed
    | size => rcases is with is | is <;> cases is
  · unfold scratchArguments at scratch
    split at scratch
    · rw [List.mem_singleton.mp scratch] at is
      rcases is with is | is <;> cases is
      exact op.numericType.isWord_text
    · cases scratch

/-- The names of these arguments are those of the operation, and that of the scratch buffer. -/
theorem generateWith_passes {kind : Operation.Kind} {record : (Table.ofKind kind).Record}
    (generated : generateWith kind record op = .ok program) :
    ∀ kernel ∈ program.kernels, ∀ a ∈ kernel.arguments, a.name ∈ op.names ∨ a.name = Reduction.scratch := by
  obtain ⟨-, width, operands, collected, -, arguments⟩ := generateWith_operands generated
  intro kernel member a passed
  rw [arguments kernel member] at passed
  rcases List.mem_append.mp passed with operand | scratch
  · exact Or.inl ((collectArguments_names collected).mp (List.mem_map_of_mem operand))
  · unfold scratchArguments at scratch
    split at scratch
    · exact Or.inr (List.mem_singleton.mp scratch ▸ rfl)
    · cases scratch

/-- **The kernels of every kind can be read from their text.** -/
theorem generateWith_legible {kind : Operation.Kind} {record : (Table.ofKind kind).Record}
    (spelled : op.Spelled) (generated : generateWith kind record op = .ok program) :
    ∀ kernel ∈ program.kernels, kernel.Legible := by
  intro kernel member
  refine ⟨generateWith_names generated kernel member,
    fun a passed => ⟨?_, generateWith_typed generated kernel member a passed⟩,
    _, generateWith_scoped spelled generated kernel member⟩
  rcases generateWith_passes generated kernel member a passed with operand | scratch
  · exact spelled.names _ operand
  · rw [scratch]
    decide

/-! ### Limits -/

/-- A kernel is not too large for a device if its groups and its local memory are not. -/
theorem Kernel.checkLimits_eq_ok {kernel : Kernel} {limits : Limits} {u : Unit} :
    kernel.checkLimits limits = .ok u ↔ kernel.geometry.workers ≤ limits.maxWorkGroupSize.toNat ∧
      kernel.localMemBytes ≤ limits.localMemBytes.toNat := by
  unfold checkLimits
  by_cases wide : limits.maxWorkGroupSize.toNat < kernel.geometry.workers
  · rw [if_pos wide]
    exact ⟨nofun, fun ⟨fits, _⟩ => absurd wide (Nat.not_lt.mpr fits)⟩
  · rw [if_neg wide]
    by_cases large : limits.localMemBytes.toNat < kernel.localMemBytes
    · rw [if_pos large]
      exact ⟨nofun, fun ⟨_, fits⟩ => absurd large (Nat.not_lt.mpr fits)⟩
    · rw [if_neg large]
      exact ⟨fun _ => ⟨Nat.not_lt.mp wide, Nat.not_lt.mp large⟩, fun _ => rfl⟩

/-- A program is not too large for a device if none of its kernels is. -/
theorem Program.checkLimits_eq_ok {limits : Limits} {u : Unit} :
    program.checkLimits limits = .ok u ↔ ∀ kernel ∈ program.kernels,
      kernel.geometry.workers ≤ limits.maxWorkGroupSize.toNat ∧
        kernel.localMemBytes ≤ limits.localMemBytes.toNat := by
  unfold checkLimits
  induction program.kernels with
  | nil => exact ⟨fun _ => nofun, fun _ => rfl⟩
  | cons kernel kernels ih =>
    rw [List.forall_mem_cons, ← ih, ← Kernel.checkLimits_eq_ok (u := ())]
    constructor
    · intro ok
      obtain ⟨_, first, rest⟩ := bind_eq_ok_iff.mp ok
      exact ⟨first, rest⟩
    · intro ok
      exact bind_eq_ok_iff.mpr ⟨(), ok.1, ok.2⟩

/-! ### What the text says -/

/-- What is read from the text of a kernel is what the kernel says of its launch. -/
structure Kernel.Matches (kernel : Kernel) (d : Definition) : Prop where
  name : d.name = kernel.name
  parameters : d.parameters = kernel.arguments.map Argument.declaration
  groupSize : d.groupSize = kernel.geometry.localSizes.toList
  localBytes : d.localBytes? = some kernel.localMemBytes

/-- What is read from the text of a metered kernel. -/
theorem Kernel.Metered.matches {kernel : Kernel} {type : NumericType} (metered : kernel.Metered type) :
    kernel.Matches kernel.definition where
  name := rfl
  parameters := rfl
  groupSize := rfl
  localBytes := by
    obtain ⟨bytes, elements⟩ := metered
    rw [bytes]
    have known : NumericType.ofName? type.text = some type := by cases type <;> decide
    have each (memories : List LocalMemory) (elements : ∀ memory ∈ memories, memory.element = type.text) :
        memories.mapM (fun memory => do
          return memory.dims.prod * (← NumericType.ofName? memory.element).size) =
        some (memories.map fun memory => memory.dims.prod * type.size) := by
      induction memories with
      | nil => rfl
      | cons memory memories ih =>
        rw [List.forall_mem_cons] at elements
        rw [List.mapM_cons, elements.1, known, ih elements.2]
        rfl
    unfold Definition.localBytes? definition
    rw [each _ elements]
    rfl

/-- The scratch buffer of a program: both kernels of a reduction take it, with a slot for every statement and
group, as their only argument of its name; the other kernels take only what the operation names. -/
def Program.Scratch (program : Program) (op : Operation) (kind : Operation.Kind)
    (record : (Table.ofKind kind).Record) : Prop :=
  match kind, record with
  | .reduction, p => program.kernels.length = 2 ∧ ∀ kernel ∈ program.kernels,
      kernel.scratchElements = op.statements.length * p.numGroups.toNat ∧
        kernel.arguments.filter (fun a => a.name == "temp") = [⟨"temp", .buffer op.numericType.text⟩]
  | _, _ => ∀ kernel ∈ program.kernels, kernel.scratchElements = 0 ∧
      ∀ a ∈ kernel.arguments, a.name ∈ op.names

/-- **The scratch buffer of the kernels of every kind.** -/
theorem generateWith_scratch {kind : Operation.Kind} {record : (Table.ofKind kind).Record}
    (generated : generateWith kind record op = .ok program) : program.Scratch op kind record := by
  have single {width : Nat} {operands : List Argument} {kernel : Kernel}
      (collected : collectArguments op width = .ok operands) (kernels : program.kernels = [kernel])
      (arguments : kernel.arguments = operands) (scratch : kernel.scratchElements = 0) :
      ∀ kernel ∈ program.kernels, kernel.scratchElements = 0 ∧ ∀ a ∈ kernel.arguments, a.name ∈ op.names := by
    rw [kernels, List.forall_mem_singleton]
    refine ⟨scratch, fun a member => (collectArguments_names collected).mp ?_⟩
    exact List.mem_map_of_mem (arguments ▸ member)
  match kind, record with
  | .vectorStatements, p =>
    obtain ⟨_, _, _, -, collected, kernels, arguments, scratch, -⟩ :=
      VectorStatements.generate_eq_ok generated
    exact single collected kernels arguments scratch
  | .matrixStatements, p =>
    obtain ⟨_, _, _, -, collected, kernels, arguments, scratch, -⟩ :=
      MatrixStatements.generate_eq_ok generated
    exact single collected kernels arguments scratch
  | .reduction, p =>
    obtain ⟨k, operands, first, second, accepted, -, fresh, kernels, both, -⟩ :=
      Reduction.generate_eq_ok generated
    have count := accepted.numbered.length_eq
    refine ⟨by rw [kernels]; rfl, fun kernel member => ?_⟩
    obtain ⟨arguments, scratch⟩ := both kernel (kernels ▸ member)
    refine ⟨by rw [scratch, count, ← accepted.record]; rfl, ?_⟩
    have none : operands.filter (fun a => a.name == "temp") = [] :=
      List.filter_eq_nil_iff.mpr fun a inside same => fresh a inside (beq_iff_eq.mp same)
    rw [arguments, List.filter_append, none]
    rfl
  | .rowReduction false, p | .rowReduction true, p | .matrixVector transposed, p =>
    obtain ⟨_, _, _, -, -, collected, kernels, arguments, scratch, -⟩ :=
      RowReduction.generateFor_eq_ok generated
    exact single collected kernels arguments scratch
  | .matrixProduct left right, p =>
    obtain ⟨_, _, _, _, _, -, collected, -, kernels, arguments, scratch, -⟩ :=
      MatrixProduct.generate_eq_ok generated
    exact single collected kernels arguments scratch

/-- **What a program says of its launch agrees with its text.** Where the names of operands and sizes are
identifiers and the literals are numerals, the text is read as one definition for each kernel, in order: of the
kernel's name, its parameters as they are declared, the shape of its groups, and shared arrays that have the bytes
of its local memory. A program is not too large for a device if what is read is not. The scratch buffer is that of
a reduction. -/
theorem generateWith_described {kind : Operation.Kind} {record : (Table.ofKind kind).Record}
    (spelled : op.Spelled) (generated : generateWith kind record op = .ok program) :
    (∃ definitions, readDefinitions? program.source = some definitions ∧
      List.Forall₂ Kernel.Matches program.kernels definitions ∧
      ∀ limits, program.checkLimits limits = .ok () ↔ ∀ d ∈ definitions,
        d.groupSize.prod ≤ limits.maxWorkGroupSize.toNat ∧
          ∃ bytes, d.localBytes? = some bytes ∧ bytes ≤ limits.localMemBytes.toNat) ∧
    program.Scratch op kind record := by
  have agrees : ∀ kernel ∈ program.kernels, kernel.Matches kernel.definition := fun kernel member =>
    (generateWith_metered generated kernel member).matches
  refine ⟨⟨program.kernels.map Kernel.definition,
    Program.readDefinitions?_source (generateWith_legible spelled generated), ?_, fun limits => ?_⟩,
    generateWith_scratch generated⟩
  · rw [List.forall₂_map_right_iff, List.forall₂_same]
    exact agrees
  · rw [Program.checkLimits_eq_ok, List.forall_mem_map]
    refine forall₂_congr fun kernel member => ?_
    obtain ⟨-, -, size, bytes⟩ := agrees kernel member
    have workers : kernel.definition.groupSize.prod = kernel.geometry.workers := by
      rw [size]
      simp [Triple.toList, Geometry.workers, Nat.mul_assoc]
    rw [workers, bytes]
    simp

/-- The text of the small batch is read as the definitions of its two kernels. -/
theorem generateWith_described_smallBatch : ∃ program,
    Reduction.smallBatch.Spelled ∧
      generateWith .reduction Reduction.smallRecord Reduction.smallBatch = .ok program ∧
      (∃ definitions, readDefinitions? program.source = some definitions ∧
        List.Forall₂ Kernel.Matches program.kernels definitions) ∧
      program.kernels.length = 2 := by
  obtain ⟨program, generated, -⟩ := Reduction.exists_smallProgram
  replace generated : generateWith .reduction Reduction.smallRecord Reduction.smallBatch =
    .ok program := generated
  obtain ⟨⟨definitions, read, agree, -⟩, two, -⟩ :=
    generateWith_described Reduction.spelled_smallBatch generated
  exact ⟨program, Reduction.spelled_smallBatch, generated, ⟨definitions, read, agree⟩, two⟩

end TunedKernel
