/-
**The arrays of a kernel.**

* `Code.arrays`, `Kernel.arrays` — the arrays that code declares, and those that a kernel uses besides its
  operands, with their dimensions.
* `Code.arrays_ofSteps_nil`, `Walk.arrays_around_split`, `Tree.arrays_code` — most code declares none;
  `Folded.arrays_declareLocals` — a batch declares a buffer for each of its statements.
* `Kernel.Serves` — a kernel whose arguments hold those of an operation. None of the arrays that its code
  declares has the name of an operand (`Serves.foreign`).
-/

import TunedKernel.Generator.Reduction
import TunedKernel.Proofs.Batch.Nodes
import TunedKernel.Proofs.Batch.Variables
import TunedKernel.Proofs.Execution.Split

namespace TunedKernel

/-! ### Arrays of code -/

/-- The array that a step declares, with its dimensions. -/
def Step.array? : Step → Option (String × List Nat)
  | declareLocal memory => some (memory.name, memory.dims)
  | declareArray _ name dims => some (name, dims)
  | declare _ _ _ | store _ _ _ | barrier => none

/-- The arrays that code declares, with their dimensions. -/
def Code.arrays : Code → List (String × List Nat)
  | done => []
  | step s rest => s.array?.toList ++ rest.arrays
  | loop _ body rest | guarded _ body rest => body.arrays ++ rest.arrays

namespace Code

@[simp] theorem arrays_append (first second : Code) :
    (first ++ second).arrays = first.arrays ++ second.arrays := by
  induction first with
  | done => rfl
  | step s rest ih => simp [arrays, ih]
  | loop l body rest _ ih => simp [arrays, ih]
  | guarded condition body rest _ ih => simp [arrays, ih]

@[simp] theorem arrays_ofLoop (l : Loop) (body : Code) : (ofLoop l body).arrays = body.arrays :=
  List.append_nil _

@[simp] theorem arrays_ofGuard (condition : Term) (body : Code) :
    (ofGuard condition body).arrays = body.arrays := List.append_nil _

theorem arrays_join (pieces : List Code) : (join pieces).arrays = pieces.flatMap arrays := by
  induction pieces with
  | nil => rfl
  | cons piece pieces ih =>
    show (piece ++ join pieces).arrays = _
    rw [arrays_append, ih]
    rfl

theorem arrays_ofSteps (steps : List Step) :
    (ofSteps steps).arrays = steps.flatMap fun s => s.array?.toList := by
  induction steps with
  | nil => rfl
  | cons s steps ih => exact congrArg (s.array?.toList ++ ·) ih

theorem arrays_ofSteps_nil {steps : List Step} (none : ∀ s ∈ steps, s.array? = none) :
    (ofSteps steps).arrays = [] := by
  rw [arrays_ofSteps, List.flatMap_eq_nil_iff]
  intro s member
  rw [none s member]
  rfl

/-- Arrays are bound where they are declared. -/
theorem binders_of_arrays {code : Code} {array : String × List Nat} (member : array ∈ code.arrays) :
    array.1 ∈ code.binders := by
  induction code with
  | done => cases member
  | step s rest ih =>
    refine List.mem_append.mpr ((List.mem_append.mp member).imp (fun here => ?_) ih)
    cases s with
    | declareLocal memory =>
      cases List.mem_singleton.mp here
      exact List.mem_singleton_self _
    | declareArray type name dims =>
      cases List.mem_singleton.mp here
      exact List.mem_singleton_self _
    | declare | store | barrier => cases here
  | loop l body rest inner ih =>
    exact List.mem_cons_of_mem _ (List.mem_append.mpr ((List.mem_append.mp member).imp inner ih))
  | guarded condition body rest inner ih =>
    exact List.mem_append.mpr ((List.mem_append.mp member).imp inner ih)

end Code

/-- The declarations of a walk are indices. -/
@[simp] theorem Walk.arrays_around_split (strided : Bool) (counter : String) (dimension : Nat)
    (bound : Term) (body : Code) :
    ((split strided counter dimension bound).around body).arrays = body.arrays := by
  cases strided <;> exact List.append_nil _

@[simp] theorem Walk.arrays_around_uniform (counter : String) (dimension : Nat) (bound : Term)
    (body : Code) : ((uniform counter dimension bound).around body).arrays = body.arrays :=
  List.append_nil _

/-- A walk without declarations declares no array. -/
theorem Walk.arrays_around_plain {walk : Walk} (before : walk.before = []) (inside : walk.inside = [])
    (body : Code) : (walk.around body).arrays = body.arrays := by
  rw [around_plain before inside, Code.arrays_ofLoop]

/-- The code that folds buffers declares none. -/
theorem Tree.arrays_code {ε : Type} {bs : Buffers} {before : List Term} {lane : Term} {extent : Nat}
    {code : Code} (ok : Tree.code (ε := ε) bs before lane extent = .ok code) : code.arrays = [] := by
  obtain ⟨found, -, ok⟩ := bind_eq_ok_iff.mp ok
  cases ok
  rw [stages, Code.arrays_join, List.flatMap_map, List.flatMap_eq_nil_iff]
  intro stride _
  show (Code.ofGuard (active lane extent stride) _).arrays = []
  rw [Code.arrays_ofGuard]
  refine Code.arrays_ofSteps_nil fun s member => ?_
  obtain ⟨b, -, rfl⟩ := List.mem_map.mp member
  rfl

/-- **A batch declares a buffer for each of its statements.** -/
theorem Folded.arrays_declareLocals (folded : List Folded) (type : NumericType) (dims : List Nat) :
    (Code.ofSteps (folded.map fun f => Step.declareLocal (f.buffer type dims))).arrays =
      folded.map fun f => ((f.buffer type dims).name, dims) := by
  rw [Code.arrays_ofSteps, List.flatMap_map]
  exact List.map_eq_flatMap.symm

/-! ### Arrays and operands of a kernel -/

/-- The arrays that a kernel uses besides its operands, with their dimensions: those that its code
declares, and the scratch buffer. -/
def Kernel.arrays (kernel : Kernel) : List (String × List Nat) :=
  kernel.body.arrays ++
    if kernel.scratchElements = 0 then [] else [(Reduction.scratch, [kernel.scratchElements])]

/-- The arguments of a kernel hold those of an operation, and its names and sizes are in order. -/
structure Kernel.Serves (kernel : Kernel) (op : Operation) (width : Nat) (operands : List Argument)
    (bindings : Bindings) : Prop where
  collected : collectArguments op width = .ok operands
  keeps : ∀ name a, findArgument operands name = some a → findArgument kernel.arguments name = some a
  proper : kernel.Proper
  sized : kernel.Sized bindings

namespace Kernel.Serves

variable {α : Type} {kernel : Kernel} {op : Operation} {width : Nat} {operands : List Argument}
  {bindings : Bindings}

/-- The extents of the operation keep their sizes. -/
theorem known (serves : kernel.Serves op width operands bindings) {host : String → α} {names : Names α}
    (same : (kernel.names host bindings).Same kernel.body.binders names) {node : Expr}
    (member : node ∈ op.nodes) : ∀ x ∈ node.extents, x.Known bindings names := fun _ inside =>
  (Kernel.known_extent serves.collected serves.keeps serves.sized member inside).mono
    (serves.proper.kept same)

/-- The code declares no array with the name of an operand. -/
theorem foreign (serves : kernel.Serves op width operands bindings) {leaf : Expr}
    (member : leaf ∈ op.nodes) {point : Point} {x : String} {n : Nat}
    (stored : leaf.place? bindings point = some (.global x n)) (dims : List Nat) :
    (x, dims) ∉ kernel.body.arrays := by
  obtain ⟨role, named⟩ := Expr.role?_of_place? stored
  have found := (collectArguments_find serves.collected member).1 role x named
  have free := (serves.proper _ (List.mem_of_find?_eq_some (serves.keeps _ _ found))).2
  exact fun declared => free (Code.binders_of_arrays declared)

end Kernel.Serves

end TunedKernel
