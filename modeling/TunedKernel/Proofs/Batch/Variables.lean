/-
**The variables and buffers of a batch.**

* `initial` — the first letter of a name, which tells the variables, the buffers and the other names of
  a kernel apart; `append_toString_injective` tells those of one kind apart.
* `Folded.publish_leads` — every worker hands the values of its variables to the group.
* `Folded.tree_leads` — the group folds them, for every statement into the first slot of a row.
-/

import TunedKernel.Proofs.Batch.Acceptance
import TunedKernel.Proofs.Execution.Tree

namespace TunedKernel

variable {α : Type}

/-! ### Names -/

/-- The first letter of a name. -/
def initial (s : String) : Option Char := s.toList.head?

theorem initial_append {stem : String} {c : Char} (first : initial stem = some c) (tail : String) :
    initial (stem ++ tail) = some c := by
  unfold initial at first ⊢
  rw [String.toList_append, List.head?_append, first]
  rfl

theorem ne_of_initial {s t : String} (differ : initial s ≠ initial t) : s ≠ t :=
  fun same => differ (congrArg initial same)

/-- Numbers behind a stem are told apart. -/
theorem append_toString_injective (stem : String) :
    Function.Injective fun n : Nat => stem ++ toString n := by
  intro n n' same
  have digits := congrArg String.toList ((String.append_right_inj stem).mp same)
  rw [show (toString n).toList = Nat.toDigits 10 n from Nat.toList_repr,
    show (toString n').toList = Nat.toDigits 10 n' from Nat.toList_repr] at digits
  rw [← Nat.ofDigitChars_ten_toDigits (n := n), digits, Nat.ofDigitChars_ten_toDigits]

namespace Folded

theorem initial_sumName (f : Folded) : initial f.sumName = some 's' :=
  initial_append (by decide) _

theorem initial_buffer (f : Folded) (type : NumericType) (dims : List Nat) :
    initial (f.buffer type dims).name = some 'b' :=
  initial_append (by decide) _

variable {folded : List Folded} {type : NumericType} {dims : List Nat}

theorem nodup_sumName (numbers : (folded.map position).Nodup) : (folded.map sumName).Nodup := by
  refine numbers.of_map.map_on fun f member f' member' same => ?_
  exact List.inj_on_of_nodup_map numbers member member' (append_toString_injective "sum" same)

variable (type dims) in
theorem nodup_buffer (numbers : (folded.map position).Nodup) :
    (folded.map fun f => (f.buffer type dims).name).Nodup := by
  refine numbers.of_map.map_on fun f member f' member' same => ?_
  exact List.inj_on_of_nodup_map numbers member member' (append_toString_injective "buf" same)

/-- The statement of a buffer. -/
theorem find?_buffer (numbers : (folded.map position).Nodup) {f : Folded} (member : f ∈ folded) :
    folded.find? (fun f' => (f'.buffer type dims).name == (f.buffer type dims).name) = some f := by
  have found : (folded.find? fun f' =>
      (f'.buffer type dims).name == (f.buffer type dims).name).isSome :=
    List.find?_isSome.mpr ⟨f, member, beq_self_eq_true _⟩
  obtain ⟨f', some⟩ := Option.isSome_iff_exists.mp found
  rw [some, List.inj_on_of_nodup_map (nodup_buffer type dims numbers)
    (List.mem_of_find?_eq_some some) member (beq_iff_eq.mp (List.find?_some some :))]

/-! ### The group -/

variable {shape : Shape} {footing : Footing shape} {e : Elements α} {g : shape.Group}
  {layout : Tree.Layout shape} {before : List Term} {lane : Term} {extent : Nat}

theorem binders_declareLocals : (Code.ofSteps (folded.map fun f =>
    Step.declareLocal (f.buffer type dims))).binders =
      folded.map fun f => (f.buffer type dims).name := by
  rw [Code.binders_ofSteps, List.flatMap_map]
  exact List.map_eq_flatMap.symm

/-- **The buffers of a batch are arrays of the group.** -/
theorem declareLocals_lead (numbers : (folded.map position).Nodup) {q : Station α}
    {names : Names α} {m : Memory α} :
    q.Leads (Code.ofSteps (folded.map fun f => Step.declareLocal (f.buffer type dims))) names m
      fun names' m' => m' = m ∧
        ∀ f ∈ folded, names' (f.buffer type dims).name = some (.sharedArray dims) := by
  refine Station.Leads.each (fun before names' m' => m' = m ∧
    ∀ f : Folded, f ∈ before → names' (f.buffer type dims).name = some (.sharedArray dims))
    ⟨rfl, fun f none => absurd none List.not_mem_nil⟩ ?_
  rintro before f rest all names' _ ⟨rfl, declared⟩
  refine .declareLocal (.done ⟨rfl, fun f' member => ?_⟩)
  rcases List.mem_append.mp member with earlier | last
  · have other := key_ne_of_nodup (nodup_buffer type dims numbers) all earlier
    exact (Names.bind_of_ne other).trans (declared f' earlier)
  · obtain rfl := List.mem_singleton.mp last
    exact Names.bind_self ..

theorem binders_publish : (Code.ofSteps (folded.map fun f =>
    f.publish (f.buffer type dims) (before ++ [lane]))).binders = [] :=
  Code.binders_stores fun f _ => Tree.access_ne_name (f.buffer type dims) before lane

/-- **A worker hands the values of its variables to the group.** -/
theorem publish_leads (numbers : (folded.map position).Nodup) {l : shape.Lane} {names : Names α}
    {m : Memory α} {x : Folded → Nat → α}
    (finds : Tree.Finds layout (trees type dims folded) before lane extent g l names)
    (below : layout.slot l < extent)
    (bound : ∀ f ∈ folded, names f.sumName = some (.value (x f))) :
    ((footing.phase g layout.publishing).station e g l).Leads
      (Code.ofSteps (folded.map fun f => f.publish (f.buffer type dims) (before ++ [lane]))) names m
      fun names' m' => names' = names ∧
        (∀ f ∈ folded, (m' (.shared g.triple (f.buffer type dims).name (layout.own l))).value =
          x f 0) ∧
        ∀ p, (∀ array, p ≠ .shared g.triple array (layout.own l)) → m' p = m p := by
  have places : (folded.map fun f =>
      Place.shared g.triple (f.buffer type dims).name (layout.own l)).Nodup := by
    refine numbers.of_map.map_on fun f member f' member' same => ?_
    exact List.inj_on_of_nodup_map (nodup_buffer type dims numbers) member
      member' (Place.shared.inj same).2.1
  have own (f : Folded) (member : f ∈ folded) :
      ((footing.phase g layout.publishing).station e g l).At names
        ((f.buffer type dims).access (before ++ [lane]))
        (.shared g.triple (f.buffer type dims).name (layout.own l)) :=
    finds.at rfl (List.mem_map_of_mem member) finds.slot below
  refine (Station.Leads.storeEach _ _
    (fun f _ => Tree.access_ne_name (f.buffer type dims) before lane) own
    (fun f _ => ⟨⟨rfl, rfl⟩, rfl, rfl⟩) places
    fun f member m' _ _ => .name (bound f member)).weaken ?_
  rintro names' m' - ⟨kept, stored, others⟩
  exact ⟨kept, stored, fun p outside => others p fun f _ => outside (f.buffer type dims).name⟩

/-- **The group folds what its workers have handed over**, for every statement into the first slot of a
row. -/
theorem tree_leads {ε : Type} {code : Code} (numbers : (folded.map position).Nodup)
    (ok : Tree.code (ε := ε) (trees type dims folded) before lane extent = .ok code)
    (positive : 0 < extent) (separate : footing.Separate) (full : layout.Full extent)
    (lawful : ∀ f ∈ folded, e.Lawful type f.product.reduce) {k : Memory α}
    {x : Folded → List Nat → Nat → α} {here : Stage shape α}
    (finds : ∀ l, Tree.Finds layout (trees type dims folded) before lane extent g l (here.names l))
    (view : footing.Shows g layout.publishing k here)
    (values : ∀ l, ∀ f ∈ folded,
      (here.seen l (.shared g.triple (f.buffer type dims).name (layout.own l))).value =
        x f (layout.row l) (layout.slot l)) :
    Stage.Leads e g (footing.reads g) (footing.writes g) code here fun next =>
      next.names = here.names ∧
      (∃ use, footing.Shows g use k next ∧ ∀ l, layout.slot l = 0 → ∀ f ∈ folded,
        ((f.buffer type dims).name, layout.own l) ∈ use.reads l) ∧
      ∀ l, layout.slot l = 0 → ∀ f ∈ folded,
        (next.seen l (.shared g.triple (f.buffer type dims).name (layout.own l))).value =
          e.fold type f.product.reduce ((List.range extent).map (x f (layout.row l))) := by
  have distinct : ((trees type dims folded).map fun b => b.1.name).Nodup := by
    rw [trees, List.map_map]
    exact nodup_buffer type dims numbers
  have laws : ∀ b ∈ trees type dims folded, e.Lawful type b.2 := by
    intro b member
    obtain ⟨f, inside, rfl⟩ := List.mem_map.mp member
    exact lawful f inside
  -- What belongs to a buffer is read off its statement.
  have content {f : Folded} (member : f ∈ folded) (row : List Nat) (j : Nat) :
      ((folded.find? fun f' => (f'.buffer type dims).name == (f.buffer type dims).name).elim
        (e.number 0) fun f' => x f' row j) = x f row j := by
    rw [find?_buffer numbers member]
    rfl
  refine (Tree.code_leads (x := fun b row j => (folded.find? fun f' =>
    (f'.buffer type dims).name == b.1.name).elim (e.number 0) fun f' => x f' row j) ok positive
    separate full distinct laws finds view fun l b member => ?_).weaken ?_
  · obtain ⟨f, inside, rfl⟩ := List.mem_map.mp member
    exact (values l f inside).trans (content inside ..).symm
  · rintro next - ⟨names, ⟨use, view', reads⟩, folds⟩
    refine ⟨names, ⟨use, view', fun l first f member => ?_⟩, fun l first f member => ?_⟩
    · exact reads l first _ (List.mem_map_of_mem member)
    · refine (folds l first _ (List.mem_map_of_mem member)).trans ?_
      refine congrArg _ (List.map_congr_left fun j _ => ?_)
      exact content member ..

end Folded

end TunedKernel
