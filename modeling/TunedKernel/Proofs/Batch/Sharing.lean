/-
**What the code that batches share does with local memory.**

* `Expr.accesses_named`, `Product.accesses_named`, `Statement.accesses_named` — under any names, products and
  statements access operands of the operation, and what the product of a statement stands for.
* `Stint.confines_access` — an access to a slot, whose subscripts are formed in words, is to no other one.
* `Tree.Locates` — a worker knows its slot. `Tree.stage_leads_team`, `Tree.code_leads_team` — the group folds
  the slots: each stage begins with a barrier, and the first slots are their workers' own in the end.
* `Folded.publish_leads_stint` — a worker hands its values over into its own slots.
-/

import TunedKernel.Proofs.Batch.Accesses
import TunedKernel.Proofs.Execution.Meeting

namespace TunedKernel

/-! ### Operands -/

/-- What stands for an index in a scope is a variable. -/
structure Scope.Plain (scope : Scope) : Prop where
  index : ∀ t, scope.index = some t → ∃ x, t = .name x
  row : ∀ t, scope.row = some t → ∃ x, t = .name x
  col : ∀ t, scope.col = some t → ∃ x, t = .name x

/-- Names that stand for sizes all over give a plain scope a point. -/
theorem Scope.Plain.exists_at {scope : Scope} (plain : scope.Plain) :
    ∃ (w : Worker) (names : Names Unit) (bindings : Bindings) (point : Point),
      scope.At w names point ∧ ∀ extent : Extent, extent.Known bindings names := by
  let w : Worker := ⟨⟨1, 1, 1⟩, ⟨1, 1, 1⟩, ⟨0, 0, 0⟩, ⟨0, 0, 0⟩⟩
  let names : Names Unit := fun x => some (.index ((Extent.symbol x).size fun _ => none))
  have zero (x : String) : (Term.name x).number? w names = some 0 := rfl
  refine ⟨w, names, fun _ => none, {}, ⟨?_, ?_, ?_⟩, fun extent => ?_⟩
  · intro t found
    obtain ⟨x, rfl⟩ := plain.index t found
    exact zero x
  · intro t found
    obtain ⟨x, rfl⟩ := plain.row t found
    exact zero x
  · intro t found
    obtain ⟨x, rfl⟩ := plain.col t found
    exact zero x
  · cases extent with
    | fixed n => trivial
    | symbol name => rfl

/-- An access to an array with the name of a leaf. -/
def Access.OfLeaf (leaves : List Expr) (a : Access) : Prop :=
  ∃ leaf ∈ leaves, ∃ role, leaf.role? = some (role, a.array)

theorem Access.OfLeaf.mono {leaves more : List Expr} {a : Access} (named : a.OfLeaf leaves)
    (sub : leaves ⊆ more) : a.OfLeaf more := by
  obtain ⟨leaf, member, role, named⟩ := named
  exact ⟨leaf, sub member, role, named⟩

/-- **The term of an expression accesses its leaves**, and what its product stands for. -/
theorem Expr.accesses_named {scope : Scope} (plain : scope.Plain) {x : Expr} {t : Term} {a : Access}
    (ok : x.term scope = .ok t) (member : a ∈ t.accesses) :
    a.OfLeaf x.leaves ∨ ∃ p, scope.product = some p ∧ a ∈ p.accesses := by
  obtain ⟨w, names, bindings, point, at', known⟩ := plain.exists_at
  have sizes : ∀ leaf ∈ x.leaves, ∀ extent ∈ leaf.extents, extent.Known bindings names :=
    fun _ _ extent _ => known extent
  refine (accesses_term at' ok sizes member).imp_left ?_
  rintro ⟨leaf, inside, buffer, n, t, stored, rfl, -⟩
  obtain ⟨role, named⟩ := role?_of_place? stored
  exact ⟨leaf, inside, role, named⟩

/-- The term of a product accesses its leaves. -/
theorem Product.accesses_named {scope : Scope} (plain : scope.Plain) (bare : scope.product = none)
    {p : Product} {t : Term} (ok : p.term scope = .ok t) : ∀ a ∈ t.accesses, a.OfLeaf p.leaves := by
  have operand {x : Expr} {t : Term} (sub : x.leaves ⊆ p.leaves) (ok : x.term scope = .ok t) (a : Access)
      (member : a ∈ t.accesses) : a.OfLeaf p.leaves := by
    rcases Expr.accesses_named plain ok member with named | ⟨_, none, -⟩
    · exact named.mono sub
    · cases bare.symm.trans none
  obtain ⟨left, first, ok⟩ := bind_eq_ok_iff.mp ok
  have lhs := operand (fun _ => List.mem_append_left _) first
  cases right : p.rhs with
  | none =>
    rw [right] at ok
    cases ok
    exact lhs
  | some rhs =>
    rw [right] at ok
    obtain ⟨t', second, ok⟩ := bind_eq_ok_iff.mp ok
    cases ok
    intro a member
    rw [Term.accesses_apply] at member
    refine (List.mem_append.mp member).elim (lhs a) (operand (fun leaf inside => ?_) second a)
    refine List.mem_append_right _ ?_
    rw [right]
    exact inside

/-- The step of a statement accesses its leaves, and what its product stands for. -/
theorem Statement.accesses_named {scope : Scope} (plain : scope.Plain) {s : Statement} {store : Step}
    (ok : s.storeStep scope = .ok store) : ∀ a ∈ store.accesses,
      a.OfLeaf (s.target.leaves ++ s.value.leaves) ∨ ∃ p, scope.product = some p ∧ a ∈ p.accesses := by
  obtain ⟨target, value, first, second, rfl⟩ := storeStep_eq_ok ok
  intro a member
  refine (List.mem_append.mp member).elim (fun left => ?_) fun right => ?_
  · exact (Expr.accesses_named plain first left).imp_left fun named =>
      named.mono fun _ => List.mem_append_left _
  · exact (Expr.accesses_named plain second right).imp_left fun named =>
      named.mono fun _ => List.mem_append_right _

/-- The step of a statement that stores into an operand is allowed, if the operands are none of the arrays of
the group, and what its product stands for may be read. -/
theorem Statement.allows_storeStep {q : Stint} {names : Names Unit} {scope : Scope} (plain : scope.Plain)
    {s : Statement} {store : Step} (ok : s.storeStep scope = .ok store)
    (target : s.target.term scope = s.target.term { scope with product := none })
    (foreign : ∀ a : Access, a.OfLeaf (s.target.leaves ++ s.value.leaves) → a.array ∉ q.arrays)
    (product : ∀ p, scope.product = some p → ∀ a ∈ p.accesses, q.Confines q.reads names a) :
    store ≠ .barrier ∧ store.wrapped? q.worker names = some names ∧ q.Allows names store := by
  have read := accesses_named plain ok
  obtain ⟨t, value, first, -, rfl⟩ := storeStep_eq_ok ok
  refine ⟨nofun, rfl, fun a member => ?_, fun a member => ?_⟩
  · have bare : Scope.Plain { scope with product := none } := ⟨plain.index, plain.row, plain.col⟩
    rcases Expr.accesses_named bare (target.symm.trans first) member with named | ⟨_, none, -⟩
    · exact Stint.confines_of_notMem (foreign a (named.mono fun _ => List.mem_append_left _))
    · cases none
  · rcases read a member with named | ⟨p, is, inside⟩
    · exact Stint.confines_of_notMem (foreign a named)
    · exact product p is a inside

/-! ### Slots -/

section

variable {w : Worker} {names : Names Unit} {subscripts : List Term} {ns : List Nat} {t : Term} {n : Nat}

/-- Subscripts that are formed in words make no accesses themselves. -/
theorem Term.flatMap_accesses_words
    (values : subscripts.mapM (fun s => s.word? w names) = some ns) : subscripts.flatMap accesses = [] := by
  induction subscripts generalizing ns with
  | nil => rfl
  | cons s rest ih =>
    rw [List.mapM_cons] at values
    obtain ⟨n, first, values⟩ := Option.bind_eq_some_iff.mp values
    obtain ⟨ns', further, -⟩ := Option.bind_eq_some_iff.mp values
    obtain ⟨_, number, -⟩ := Option.map_eq_some_iff.mp first
    rw [List.flatMap_cons, accesses_of_unsigned? number, ih further]
    rfl

theorem Term.mapM_words_append (values : subscripts.mapM (fun s => s.word? w names) = some ns)
    (last : t.word? w names = some n) :
    (subscripts ++ [t]).mapM (fun s => s.word? w names) = some (ns ++ [n]) := by
  rw [List.mapM_append, values, List.mapM_cons, last]
  rfl

/-- An access to a slot of an array is to no other one. -/
theorem Stint.confines_access {q : Stint} {slots : Set (String × List Nat)} (memory : LocalMemory)
    (values : subscripts.mapM (fun s => s.word? q.worker names) = some ns)
    (inside : (memory.name, ns) ∈ slots) :
    ∀ a ∈ (memory.access subscripts).accesses, q.Confines slots names a := by
  intro a member
  rw [LocalMemory.access, Term.accesses, Term.accessesBefore_element, Term.flatMap_accesses_words values,
    List.append_nil, List.append_nil, Term.accessesBefore] at member
  split at member
  · cases member
  · obtain rfl := List.mem_singleton.mp member
    rintro ⟨array, slot⟩ - ⟨rfl, only⟩
    obtain rfl : ns = slot := only ns values
    exact inside

end

namespace Tree

variable {shape : Shape} {layout : Layout shape} {bs : Buffers} {before : List Term} {lane : Term}
  {extent stride : Nat} {names : Names Unit} {w : Worker} {l : shape.Lane}

/-- The names of a worker lead it to its slot, counting in words. -/
structure Locates (layout : Layout shape) (before : List Term) (lane : Term) (w : Worker) (l : shape.Lane)
    (names : Names Unit) : Prop where
  row : before.mapM (fun s => s.word? w names) = some (layout.row l)
  slot : lane.unsigned? w names = some (.bits32, layout.slot l)

namespace Locates

/-- Its own slot. -/
theorem own (locates : Locates layout before lane w l names) :
    (before ++ [lane]).mapM (fun s => s.word? w names) = some (layout.own l) :=
  Term.mapM_words_append locates.row (by rw [Term.word?, locates.slot]; rfl)

/-- The sum of a slot and a stride does not wrap. -/
theorem further (locates : Locates layout before lane w l names) (below : layout.slot l < stride)
    (small : stride < 2 ^ 31) :
    ∃ word, (lane + .number stride).unsigned? w names = some (word, layout.slot l + stride) := by
  have sum : layout.slot l + stride < Word.bits32.limit := by
    show _ < 2 ^ 32
    omega
  refine ⟨.bits32, ?_⟩
  show Term.unsigned? w names (.binary .add lane (.number stride)) = _
  rw [Term.unsigned?, locates.slot, Term.unsigned?, Word.ofConstant, if_pos small]
  exact congrArg (fun n => some (Word.bits32, n)) (Nat.mod_eq_of_lt sum)

/-- A worker that takes part in a stage has its slot below the stride. -/
theorem active (locates : Locates layout before lane w l names) (extent stride : Nat) :
    ∃ holds, (active lane extent stride).decides? w names = some holds ∧
      (holds = true → layout.slot l < stride) := by
  have below : (Term.binary .less lane (.number stride)).decides? w names =
      some (decide (layout.slot l < stride)) := by
    rw [Term.decides?, locates.slot]
    rfl
  unfold Tree.active
  dsimp only
  split
  · exact ⟨_, below, of_decide_eq_true⟩
  · obtain ⟨a, sum⟩ : ∃ a, (lane + Term.number stride).unsigned? w names = some a := by
      show ∃ a, Term.unsigned? w names (.binary .add lane (.number stride)) = some a
      rw [Term.unsigned?, locates.slot, Term.unsigned?]
      exact ⟨_, rfl⟩
    refine ⟨decide (layout.slot l < stride) && decide (a.2 < extent), ?_, fun holds =>
      of_decide_eq_true (Bool.and_eq_true_iff.mp holds).1⟩
    rw [Term.decides?, below, Term.decides?, sum]
    rfl

end Locates

/-- **A worker that takes part in a stage** uses its own slot and the one further on. -/
theorem folds_stint {q : Team shape} (locates : Locates layout before lane (q.worker l) l names)
    (below : layout.slot l < stride) (small : stride < 2 ^ 31) :
    (q.stint (layout.folding stride) l).Leads (Code.ofSteps (bs.map (fold before lane stride))) names
      fun names' => names' = names := by
  obtain ⟨word, further⟩ := locates.further below small
  have next : (before ++ [lane + .number stride]).mapM (fun s => s.word? (q.worker l) names) =
      some (layout.row l ++ [layout.slot l + stride]) :=
    Term.mapM_words_append locates.row (by rw [Term.word?, further]; rfl)
  refine .each fun s member => ?_
  obtain ⟨b, -, rfl⟩ := List.mem_map.mp member
  let stint := q.stint (layout.folding stride) l
  have own : ∀ a ∈ (b.1.access (before ++ [lane])).accesses, stint.Confines stint.reads names a :=
    Stint.confines_access b.1 locates.own ⟨below, Or.inl rfl⟩
  have other : ∀ a ∈ (b.1.access (before ++ [lane + .number stride])).accesses,
      stint.Confines stint.reads names a := Stint.confines_access b.1 next ⟨below, Or.inr rfl⟩
  refine ⟨nofun, rfl, Stint.confines_access b.1 locates.own ⟨below, rfl⟩, fun a member => ?_⟩
  rw [fold, Step.accesses, Term.accesses_combine] at member
  rcases List.mem_append.mp member with here | member
  · exact own a here
  · exact (List.mem_append.mp member).elim (own a) (other a)

/-- **A stage begins with a barrier**, and from there on the slots are used for it. -/
theorem stage_leads_team {q : Team shape} (full : layout.Full extent) {use : Use shape}
    {names : shape.Lane → Names Unit}
    (locates : ∀ l, Locates layout before lane (q.worker l) l (names l)) (small : stride < 2 ^ 31) :
    q.Leads (stage bs before lane extent stride) use names fun use' names' =>
      use' = layout.folding stride ∧ names' = names := by
  show q.Leads (Code.ofSteps [.barrier] ++ Code.ofGuard _ _) _ _ _
  refine .append ((Team.Leads.barrier (full.folding_apart stride)).weaken ?_)
  rintro use' names' - ⟨rfl, rfl⟩
  have each (l : shape.Lane) : (q.stint (layout.folding stride) l).Leads
      (Code.ofGuard (active lane extent stride) (Code.ofSteps (bs.map (fold before lane stride))))
      (names' l) fun names'' => names'' = names' l := by
    obtain ⟨holds, decided, below⟩ := (locates l).active extent stride
    refine .guarded decided (fun takes => folds_stint (locates l) (below takes) small) (fun _ => rfl) ?_
    rintro names'' - rfl
    exact .done rfl
  refine (Team.Leads.work each).weaken ?_
  rintro use' names'' - ⟨rfl, same⟩
  exact ⟨rfl, funext same⟩

/-- The strides are positive, and their sums with slots below them fit 32 bits. -/
theorem strides_small {ε : Type} {found : List Nat} (ok : strides (ε := ε) extent = .ok found) :
    ∀ stride ∈ found, 0 < stride ∧ stride < 2 ^ 31 := by
  obtain ⟨k, power, rfl⟩ := strides_eq_ok ok
  have fits : 2 ^ k < 2 ^ 32 := by
    unfold strides at ok
    dsimp only at ok
    split at ok
    · next fits => exact power ▸ fits
    · cases ok
  intro stride member
  obtain ⟨i, inside, rfl⟩ := List.mem_map.mp (List.mem_reverse.mp member)
  have below := List.mem_range.mp inside
  have most := (Nat.pow_lt_pow_iff_right (a := 2) (by decide)).mp fits
  exact ⟨Nat.two_pow_pos i, Nat.pow_lt_pow_right (by decide) (by omega)⟩

/-- **The group folds its slots**, and the workers of the first slots have these to themselves in the end. -/
theorem code_leads_team {ε : Type} {q : Team shape} {code : Code}
    (ok : Tree.code (ε := ε) bs before lane extent = .ok code) (full : layout.Full extent)
    {use : Use shape} {names : shape.Lane → Names Unit}
    (locates : ∀ l, Locates layout before lane (q.worker l) l (names l))
    (reads : ∀ l, layout.slot l = 0 → ∀ array, (array, layout.own l) ∈ use.reads l) :
    q.Leads code use names fun use' names' => names' = names ∧
      ∀ l, layout.slot l = 0 → ∀ array, (array, layout.own l) ∈ use'.reads l := by
  obtain ⟨found, strided, ok⟩ := bind_eq_ok_iff.mp ok
  cases ok
  have small := strides_small strided
  clear strided ok
  induction found generalizing use with
  | nil => exact .done ⟨rfl, reads⟩
  | cons stride rest ih =>
    obtain ⟨⟨positive, fits⟩, small⟩ := List.forall_mem_cons.mp small
    show q.Leads (stage bs before lane extent stride ++ stages bs before lane extent rest) _ _ _
    refine .append ((stage_leads_team full locates fits).weaken ?_)
    rintro use' names' - ⟨rfl, rfl⟩
    have first (l : shape.Lane) (zero : layout.slot l = 0) (array : String) :
        (array, layout.own l) ∈ (layout.folding stride).reads l := ⟨zero ▸ positive, Or.inl rfl⟩
    exact ih first small

end Tree

namespace Folded

variable {q : Stint} {f : Folded}

/-- A variable starts from a constant. -/
theorem fits_declareSum (type : NumericType) : q.Fits (f.declareSum type) := by
  refine Or.inr ⟨nofun, fun _ => .of_notMem fun a member => ?_⟩
  rw [declareSum, Step.accesses, Term.accesses_neutral] at member
  cases member

/-- Taking a value into a variable accesses what the value does. -/
theorem fits_accumulate {x : String} {value : Term} (away : ∀ a ∈ value.accesses, a.array ∉ q.arrays) :
    q.Fits (f.accumulate (.name x) value) := by
  refine Or.inr ⟨nofun, fun _ => .of_notMem fun a member => away a ?_⟩
  rw [accumulate, Step.accesses, Term.accesses_combine] at member
  exact member

end Folded

/-- **A worker hands its values over into its own slots.** -/
theorem Folded.publish_leads_stint {shape : Shape} {layout : Tree.Layout shape} {q : Team shape}
    {folded : List Folded} {type : NumericType} {dims : List Nat} {before : List Term} {lane : Term}
    {l : shape.Lane} {names : Names Unit}
    (locates : Tree.Locates layout before lane (q.worker l) l names) :
    (q.stint layout.publishing l).Leads
      (Code.ofSteps (folded.map fun f => f.publish (f.buffer type dims) (before ++ [lane]))) names
      fun names' => names' = names := by
  refine .each fun s member => ?_
  obtain ⟨f, -, rfl⟩ := List.mem_map.mp member
  let stint := q.stint layout.publishing l
  have own : ∀ a ∈ ((f.buffer type dims).access (before ++ [lane])).accesses,
      stint.Confines stint.reads names a := Stint.confines_access (f.buffer type dims) locates.own rfl
  refine ⟨nofun, rfl, own, fun a member => own a ?_⟩
  exact (List.mem_append.mp member).resolve_right List.not_mem_nil

end TunedKernel
