/-
**Kernels whose groups meet at barriers.**

* `Kernel.Synchronizes` — in every launch the workers of a group go past the same barriers, and between two
  of them no worker uses a slot of local memory that another one stores into.
* `Kernel.Synchronizes.of_leads` — it is enough that every group is led through the code.
* `Kernel.synchronizes_of_free` — so it is with code without barriers that shares nothing.
* `Kernel.Takes.foreign`, `Kernel.Takes.foreign_product`, `Kernel.Takes.foreign_statement` — operands are none
  of the arrays that the code shares.
* `Kernel.Takes.leads_of_counts` — code that counts leads a worker to its end.
-/

import TunedKernel.Proofs.Batch.Sharing
import TunedKernel.Proofs.Generation.Halting
import TunedKernel.Proofs.Generation.Metadata

namespace TunedKernel

variable {kernel : Kernel} {bindings : Bindings} {shape : Shape}

/-- Shared arrays are bound where they are declared. -/
theorem Code.mem_binders_of_memories {code : Code} {memory : LocalMemory}
    (member : memory ∈ code.memories) : memory.name ∈ code.binders := by
  induction code with
  | done => cases member
  | step s rest ih =>
    refine List.mem_append.mpr ((List.mem_append.mp member).imp (fun here => ?_) ih)
    cases s with
    | declareLocal memory' =>
      cases List.mem_singleton.mp here
      exact List.mem_singleton_self _
    | declare | declareArray | store | barrier => cases here
  | loop l body rest inner ih =>
    exact List.mem_cons_of_mem _ (List.mem_append.mpr ((List.mem_append.mp member).imp inner ih))
  | guarded condition body rest inner ih =>
    exact List.mem_append.mpr ((List.mem_append.mp member).imp inner ih)

/-- The names of the arrays that a group shares. -/
def Kernel.shared (kernel : Kernel) : List String := kernel.body.memories.map LocalMemory.name

/-- **The workers of a group meet at barriers**, in every launch, counting in words: wherever one of them has
come to, the others can go past the same barriers; and once two of them have gone past the same barriers,
neither uses next a slot of local memory that the other one stores into next. -/
structure Kernel.Synchronizes (kernel : Kernel) (bindings : Bindings) : Prop where
  together : ∀ shape, kernel.geometry.shape? bindings = some shape →
    ∀ (g : shape.Group) (l l' : shape.Lane) barriers t,
      (kernel.start (fun _ => ()) bindings).Crosses (shape.worker g l) barriers t →
      ∃ t', (kernel.start (fun _ => ()) bindings).Crosses (shape.worker g l') barriers t'
  apart : ∀ shape, kernel.geometry.shape? bindings = some shape →
    ∀ (g : shape.Group) (l l' : shape.Lane), l ≠ l' → ∀ barriers t t',
      (kernel.start (fun _ => ()) bindings).Crosses (shape.worker g l) barriers t →
      (kernel.start (fun _ => ()) bindings).Crosses (shape.worker g l') barriers t' →
      ∀ slot, slot.1 ∈ kernel.shared → t.Stores (shape.worker g l) slot →
        ¬ t'.Uses (shape.worker g l') slot

/-- Extents are uniform. -/
theorem Extent.uniform_term {x : Extent} {sizes : List String} (indexes : x.term.Indexes sizes) :
    x.term.Uniform sizes := by
  cases x with
  | fixed n => trivial
  | symbol name => exact indexes

/-- Each stage that folds local memory begins with a barrier, and goes on under a condition. -/
theorem Tree.convergent_code {ε : Type} {bs : Buffers} {before : List Term} {lane : Term} {extent : Nat}
    {code : Code} {sizes : List String} (ok : Tree.code (ε := ε) bs before lane extent = .ok code) :
    code.Convergent sizes := by
  obtain ⟨found, -, ok⟩ := bind_eq_ok_iff.mp ok
  cases ok
  refine .join fun piece member => ?_
  obtain ⟨stride, -, rfl⟩ := List.mem_map.mp member
  refine ⟨fun inside => ?_, trivial⟩
  rw [Code.steps_ofSteps] at inside
  obtain ⟨b, -, same⟩ := List.mem_map.mp inside
  cases same

/-- A group of a kernel, with the arrays that it shares. -/
def Kernel.team (kernel : Kernel) (g : shape.Group) : Team shape := ⟨g, kernel.shared⟩

/-- **It is enough that every group is led through the code.** -/
theorem Kernel.Synchronizes.of_leads (shaped : kernel.geometry.shape? bindings = some shape)
    (use : shape.Group → Use shape) (begins : ∀ g, (use g).Apart)
    (leads : ∀ g, (kernel.team g).Leads kernel.body (use g) (fun _ => kernel.given bindings)
      fun _ _ => True) : kernel.Synchronizes bindings where
  together shape' shaped' g l l' barriers t crosses := by
    cases shaped.symm.trans shaped'
    exact (leads g).meets.together crosses
  apart shape' shaped' g l l' other barriers t t' crosses crosses' slot shared stores := by
    cases shaped.symm.trans shaped'
    exact (leads g).meets.apart (begins g) other crosses crosses' shared stores

/-- **Code without barriers that shares nothing.** -/
theorem Kernel.synchronizes_of_free (free : .barrier ∉ kernel.body.steps) (none : kernel.shared = []) :
    kernel.Synchronizes bindings where
  together shape shaped g l l' barriers t crosses := by
    obtain rfl := crosses.eq_nil fun f member => List.mem_singleton.mp member ▸ free
    exact ⟨_, .refl _⟩
  apart shape shaped g l l' other barriers t t' crosses crosses' slot member := by
    rw [none] at member
    cases member

namespace Kernel.Takes

variable {op : Operation} (takes : kernel.Takes op bindings)

include takes

/-- The names of operands are none of the arrays that the code shares. -/
theorem foreign {a : Access} (named : a.OfLeaf op.nodes) : a.array ∉ kernel.shared := by
  obtain ⟨leaf, node, role, named⟩ := named
  obtain ⟨width, operands, collected, keeps⟩ := takes.operands
  have argument := List.mem_of_find?_eq_some
    (keeps _ _ ((collectArguments_find collected node).1 role a.array named))
  intro shared
  obtain ⟨memory, inside, name⟩ := List.mem_map.mp shared
  exact takes.hygienic _ argument (name ▸ Code.mem_binders_of_memories inside)

/-- The leaves of a product are operands. -/
theorem foreign_product {folded : List Folded} (numbered : Numbered op.statements folded) {f : Folded}
    (member : f ∈ folded) {a : Access} (named : a.OfLeaf f.product.leaves) : a.array ∉ kernel.shared :=
  takes.foreign (named.mono fun _ => Operation.mem_nodes_product (numbered.mem_statements member)
    (numbered.products f member ▸ List.mem_cons_self))

/-- Those that a statement has outside of it are operands as well. -/
theorem foreign_statement {folded : List Folded} (numbered : Numbered op.statements folded) {f : Folded}
    (member : f ∈ folded) {a : Access}
    (named : a.OfLeaf (f.statement.target.leaves ++ f.statement.value.leaves)) : a.array ∉ kernel.shared :=
  takes.foreign (named.mono fun _ => Operation.mem_nodes_statement (numbered.mem_statements member))

/-- The sizes keep their values while the code binds its names. -/
theorem agree {names : Names Unit} (same : (kernel.given bindings).Same kernel.body.binders names) :
    ∀ x ∈ kernel.sizes, names x = kernel.given bindings x :=
  fun x member => same x (takes.free x member)

/-- A piece of the code that counts and suits the stint of a worker leads it to the end of the piece. -/
theorem leads_of_counts {q : Stint} {code : Code} {names : Names Unit} {scope : List String}
    (positive : q.worker.Positive)
    (counts : code.Counts q.worker (kernel.given bindings) kernel.sizes scope) (suits : q.Suits code)
    (piece : ∀ x ∈ code.binders, x ∈ kernel.body.binders)
    (same : (kernel.given bindings).Same kernel.body.binders names) (indexed : names.Indexed scope) :
    q.Leads code names fun names' => names'.Indexed scope :=
  .of_counts counts suits positive takes.indexed
    (fun x member bound => takes.free x member (piece x bound)) (takes.agree same) indexed

end Kernel.Takes

end TunedKernel
