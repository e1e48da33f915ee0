/-
**What a group does in a reduction, from barrier to barrier.**

* `around_leads` — a group of either kernel folds what its workers fold, and the first worker finishes.
* `partial_leads` — a group of the first kernel leaves its values in the scratch buffer.
* `final_leads` — the group of the second kernel carries out the statements.
-/

import TunedKernel.Proofs.Reduction.Worker

namespace TunedKernel.Reduction

variable {α : Type} {r : Reading α} {op : Operation} {k : Parts} {body : Code} {names₀ : Names α}
  {groups : Nat} {g : (launch k.record groups).Group}

/-! ### A group of either kernel -/

theorem prologue_leads (setting : Setting r op k body names₀) {q : Station α}
    {l : (launch k.record groups).Lane} (worker : q.worker = (launch k.record groups).worker g l)
    (sub : ∀ x ∈ (prologue k.type [k.lanes] k.folded).binders, x ∈ body.binders) {m : Memory α} :
    q.Leads (prologue k.type [k.lanes] k.folded) names₀ m fun names' m' =>
      m' = m ∧ Named k body names₀ l.1 names' := by
  have leads : q.Leads (prologue k.type [k.lanes] k.folded) names₀ m fun names' m' => m' = m ∧
      names' "lid" = some (.index l.1) ∧
      ∀ f ∈ k.folded, names' (k.buffer f).name = some (.sharedArray [k.lanes]) := by
    rw [prologue, Code.ofSteps_append]
    refine .append ((Folded.declareLocals_lead setting.accepted.numbered.nodup).weaken ?_)
    rintro names' _ - ⟨rfl, declared⟩
    have number : (Term.query .localId 0).number? q.worker names' = some l.1 := by
      rw [worker]
      rfl
    refine .declareIndex number (.done ⟨rfl, Names.bind_self .., fun f member => ?_⟩)
    have other : (k.buffer f).name ≠ "lid" := by
      refine ne_of_initial ?_
      rw [Parts.buffer, f.initial_buffer]
      decide
    exact (Names.bind_of_ne other).trans (declared f member)
  refine leads.weaken ?_
  rintro names' m' same ⟨kept, lid, arrays⟩
  exact ⟨kept, same.mono sub, lid, arrays⟩

/-- The statements with the values of their products. -/
def entries (k : Parts) (values : Folded → α) : List (Statement.Entry α) :=
  k.folded.map fun f => ⟨f.statement, k.store f, values f⟩

/-- The memory after the statements were carried out, given the values of their products. -/
def carried (r : Reading α) (k : Parts) (values : Folded → α) : Memory α :=
  Statement.carryAll r {} (entries k values)

/-- What the statements use: the targets, and all other buffers but the scratch buffer. -/
def places (k : Parts) : Set Place :=
  {place | ∃ x n, place = .global x n ∧ x ≠ scratch ∧ (x ∈ k.targets → n = 0)}

end TunedKernel.Reduction
