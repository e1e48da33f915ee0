/-
**A step for each item of a list.**

A batch carries its statements side by side: it declares a variable for each of them, takes further
values into each of them, and stores each of them.

* `Station.Leads.eachMany`, `Leads.each` — an invariant on the items so far that the steps of every
  item carry on, or its only step.
* `Leads.declareEach`, `Leads.assignEach` — a variable for each item, declared or assigned to.
* `Leads.foldEach` — a loop that folds a value into each variable on every trip.
* `Leads.storeEach` — a store for each item, into a place of its own.
-/

import TunedKernel.Proofs.Execution.Operands

namespace TunedKernel

variable {α β : Type} {items : List β}

/-- The key of an item is not that of an earlier one. -/
theorem key_ne_of_nodup {γ : Type} {key : β → γ} (distinct : (items.map key).Nodup)
    {before rest : List β} {item other : β} (all : items = before ++ item :: rest)
    (earlier : other ∈ before) : key other ≠ key item := by
  rw [all, List.map_append, List.map_cons, List.nodup_append] at distinct
  exact distinct.2.2 _ (List.mem_map_of_mem earlier) _ List.mem_cons_self

/-- The item that comes next is not among the earlier ones. -/
theorem notMem_of_nodup {γ : Type} {key : β → γ} (distinct : (items.map key).Nodup)
    {before rest : List β} {item : β} (all : items = before ++ item :: rest) : item ∉ before :=
  fun earlier => key_ne_of_nodup distinct all earlier rfl

theorem Code.binders_declares {type : ValueType} {name : β → String} {value : β → Term} :
    (ofSteps (items.map fun b => .declare type (name b) (value b))).binders = items.map name := by
  rw [binders_ofSteps, List.flatMap_map]
  exact List.map_eq_flatMap.symm

theorem Code.binders_assigns {op : AssignOp} {name : β → String} {value : β → Term} :
    (ofSteps (items.map fun b => .store (.name (name b)) op (value b))).binders =
      items.map name := by
  rw [binders_ofSteps, List.flatMap_map]
  exact List.map_eq_flatMap.symm

theorem Code.binders_stores {op : AssignOp} {target value : β → Term}
    (access : ∀ b ∈ items, ∀ name, target b ≠ .name name) :
    (ofSteps (items.map fun b => .store (target b) op (value b))).binders = [] := by
  refine binders_ofSteps_nil fun s member => ?_
  obtain ⟨b, inside, rfl⟩ := List.mem_map.mp member
  exact Step.binder?_store (access b inside)

namespace Station.Leads

variable {q : Station α} {names : Names α} {m : Memory α}

/-- **Steps for each item of a list.** An invariant on the items so far that the steps of every item
carry on holds of all of them at the end. -/
theorem eachMany {f : β → List Step}
    (invariant : List β → Names α → Memory α → Prop) (start : invariant [] names m)
    (next : ∀ before item rest, items = before ++ item :: rest → ∀ names' m',
      invariant before names' m' →
      q.Leads (Code.ofSteps (f item)) names' m' (invariant (before ++ [item]))) :
    q.Leads (Code.ofSteps (items.flatMap f)) names m (invariant items) := by
  suffices general : ∀ rest before names' m', items = before ++ rest → invariant before names' m' →
      q.Leads (Code.ofSteps (rest.flatMap f)) names' m' (invariant items) from
    general items [] names m rfl start
  intro rest
  induction rest with
  | nil =>
    intro before names' m' all holds
    rw [List.append_nil] at all
    exact done (all ▸ holds)
  | cons item rest ih =>
    intro before names' m' all holds
    rw [List.flatMap_cons, Code.ofSteps_append]
    refine append ((next before item rest all names' m' holds).weaken ?_)
    intro names'' m'' _ further
    exact ih (before ++ [item]) names'' m'' (by rw [all, List.append_assoc]; rfl) further

/-- **A step for each item of a list.** -/
theorem each {f : β → Step}
    (invariant : List β → Names α → Memory α → Prop) (start : invariant [] names m)
    (next : ∀ before item rest, items = before ++ item :: rest → ∀ names' m',
      invariant before names' m' →
      q.Leads (Code.ofSteps [f item]) names' m' (invariant (before ++ [item]))) :
    q.Leads (Code.ofSteps (items.map f)) names m (invariant items) := by
  rw [List.map_eq_flatMap]
  exact eachMany invariant start next

/-! ### Variables -/

/-- **A variable for each item**, with a value that depends on no other one. -/
theorem declareEach {type : NumericType} {width : Nat} {name : β → String} {value : β → Term}
    {x : β → Nat → α} (distinct : (items.map name).Nodup)
    (gives : ∀ b ∈ items, ∀ names', names.Same (items.map name) names' →
      q.Gives names' m (value b) (x b)) :
    q.Leads (Code.ofSteps (items.map fun b => .declare (.packed type width) (name b) (value b)))
      names m fun names' m' => m' = m ∧ ∀ b ∈ items, names' (name b) = some (.value (x b)) := by
  refine (each (fun before names' m' => m' = m ∧ names.Same (items.map name) names' ∧
    ∀ b ∈ before, names' (name b) = some (.value (x b)))
    ⟨rfl, .refl _ _, fun b none => absurd none List.not_mem_nil⟩ ?_).weaken ?_
  · rintro before item rest all names' _ ⟨rfl, same, declared⟩
    have member : item ∈ items := all ▸ List.mem_append_right _ List.mem_cons_self
    refine declareValue (gives item member names' same) (done ⟨rfl, ?_, fun b inside => ?_⟩)
    · exact same.bind (List.mem_map_of_mem member) _
    · rcases List.mem_append.mp inside with earlier | last
      · rw [Names.bind_of_ne (key_ne_of_nodup distinct all earlier), declared b earlier]
      · obtain rfl := List.mem_singleton.mp last
        exact Names.bind_self ..
  · rintro names' m' - ⟨kept, -, declared⟩
    exact ⟨kept, declared⟩

/-- **An assignment for each item**, to a variable of its own. -/
theorem assignEach {op : AssignOp} {name : β → String} {value : β → Term} {old x : β → Nat → α}
    (distinct : (items.map name).Nodup)
    (bound : ∀ b ∈ items, names (name b) = some (.value (old b)))
    (gives : ∀ b ∈ items, ∀ names', names.Same (items.map name) names' →
      names' (name b) = some (.value (old b)) → q.Gives names' m (value b) (x b)) :
    q.Leads (Code.ofSteps (items.map fun b => .store (.name (name b)) op (value b))) names m
      fun names' m' => m' = m ∧ ∀ b ∈ items,
        names' (name b) = some (.value fun lane => q.elements.store op (old b lane) (x b lane)) := by
  -- The variables so far are assigned to, and those still to come are as before.
  refine (each (fun before names' m' => m' = m ∧ names.Same (items.map name) names' ∧
    ∀ b ∈ items, (b ∈ before → names' (name b) =
        some (.value fun lane => q.elements.store op (old b lane) (x b lane))) ∧
      (b ∉ before → names' (name b) = some (.value (old b))))
    ⟨rfl, .refl _ _, fun b member => ⟨fun none => absurd none List.not_mem_nil,
      fun _ => bound b member⟩⟩ ?_).weaken ?_
  · rintro before item rest all names' _ ⟨rfl, same, state⟩
    have member : item ∈ items := all ▸ List.mem_append_right _ List.mem_cons_self
    have here := (state item member).2 (notMem_of_nodup distinct all)
    refine assign here (gives item member names' same here) (done ⟨rfl, ?_, fun b inside => ?_⟩)
    · exact same.bind (List.mem_map_of_mem member) _
    · by_cases last : b = item
      · subst last
        exact ⟨fun _ => Names.bind_self .., fun absent => absurd (by simp) absent⟩
      · have other : name b ≠ name item :=
          fun equal => last (List.inj_on_of_nodup_map distinct inside member equal)
        rw [Names.bind_of_ne other, List.mem_append, List.mem_singleton, or_iff_left last]
        exact state b inside
  · rintro names' m' - ⟨kept, -, state⟩
    exact ⟨kept, fun b member => (state b member).1 member⟩

/-- **A loop that folds a value into the variable of each item** on every trip. -/
theorem foldEach {l : Loop} {a d b : Nat} {name : β → String} {value : β → Term} (op : β → ReduceOp)
    (start : β → Nat → α) (x : β → Nat → Nat → α)
    (distinct : (items.map name).Nodup) (fresh : l.counter ∉ items.map name)
    (counts : l.Counts q.worker names (l.counter :: items.map name) a d b)
    (bound : ∀ i ∈ items, names (name i) = some (.value (start i)))
    (gives : ∀ i ∈ items, ∀ t, a + t * d < b → ∀ names',
      names.Same (l.counter :: items.map name) names' →
      names' l.counter = some (.index (a + t * d)) → q.Gives names' m (value i) (x i t)) :
    q.Leads (Code.ofLoop l (Code.ofSteps (items.map fun i =>
        .store (.name (name i)) .assign ((op i).combine (.name (name i)) (value i))))) names m
      fun names' m' => m' = m ∧ ∀ i ∈ items, names' (name i) = some (.value fun lane =>
        ((List.range (trips a d b)).map fun t => x i t lane).foldl (q.elements.reduce (op i))
          (start i lane)) := by
  have binders : (Code.ofSteps (items.map fun i =>
      .store (.name (name i)) .assign ((op i).combine (.name (name i)) (value i)))).binders =
        items.map name := Code.binders_assigns
  have apart {i : β} (member : i ∈ items) : name i ≠ l.counter :=
    fun equal => fresh (equal ▸ List.mem_map_of_mem member)
  refine range (binders ▸ counts) (fun t names' m' => m' = m ∧ ∀ i ∈ items, names' (name i) =
      some (.value fun lane => ((List.range t).map fun u => x i u lane).foldl
        (q.elements.reduce (op i)) (start i lane))) (binders ▸ fresh)
    ⟨rfl, fun i member => ?_⟩ ?_ ?_
  · rw [Names.bind_of_ne (apart member), bound i member]
    rfl
  · rintro t below names' _ same at' ⟨rfl, folded⟩
    rw [binders] at same
    refine (assignEach (x := fun i lane => q.elements.reduce (op i)
      (((List.range t).map fun u => x i u lane).foldl (q.elements.reduce (op i)) (start i lane))
      (x i t lane)) distinct folded fun i member names'' same' here => ?_).weaken ?_
    · refine .combine (.name here) (gives i member t below names'' ?_ ?_)
      · exact same.trans (same'.mono fun _ => List.mem_cons_of_mem _)
      · rw [same' _ fresh, at']
    · rintro names'' m'' - ⟨rfl, assigned⟩
      refine ⟨rfl, fun i member => ?_⟩
      rw [Names.bind_of_ne (apart member), assigned i member]
      simp only [List.range_succ, List.map_append, List.foldl_append]
      rfl
  · rintro names' m' - ⟨kept, folded⟩
    exact done ⟨kept, folded⟩

/-! ### Places -/

/-- **A store for each item, into a place of its own.** What is stored may depend on the place itself
and on all places outside. -/
theorem storeEach {target value : β → Term} (place : β → Place) (x : β → Nat → α)
    (access : ∀ b ∈ items, ∀ name, target b ≠ .name name)
    (here : ∀ b ∈ items, q.At names (target b) (place b))
    (inside : ∀ b ∈ items, place b ∈ q.reads ∩ q.writes) (distinct : (items.map place).Nodup)
    (gives : ∀ b ∈ items, ∀ m', m' (place b) = m (place b) →
      (∀ p, (∀ b' ∈ items, p ≠ place b') → m' p = m p) → q.Gives names m' (value b) (x b)) :
    q.Leads (Code.ofSteps (items.map fun b => .store (target b) .assign (value b))) names m
      fun names' m' => names' = names ∧ (∀ b ∈ items, (m' (place b)).value = x b 0) ∧
        ∀ p, (∀ b ∈ items, p ≠ place b) → m' p = m p := by
  -- The places so far are stored into, and those still to come are as before.
  refine (each (fun before names' m' => names' = names ∧
    (∀ b ∈ items, (b ∈ before → (m' (place b)).value = x b 0) ∧
      (b ∉ before → m' (place b) = m (place b))) ∧
    ∀ p, (∀ b ∈ items, p ≠ place b) → m' p = m p)
    ⟨rfl, fun b member => ⟨fun none => absurd none List.not_mem_nil, fun _ => rfl⟩, fun _ _ => rfl⟩
    ?_).weaken ?_
  · rintro before item rest all names' m' ⟨rfl, state, others⟩
    have member : item ∈ items := all ▸ List.mem_append_right _ List.mem_cons_self
    have fresh := (state item member).2 (notMem_of_nodup distinct all)
    refine put (access item member) (here item member) (inside item member)
      (gives item member m' fresh others) (done ⟨rfl, fun b inside' => ?_, fun p outside => ?_⟩)
    · by_cases last : b = item
      · subst last
        rw [Function.update_self]
        exact ⟨fun _ => rfl, fun absent => absurd (by simp) absent⟩
      · have other : place b ≠ place item :=
          fun equal => last (List.inj_on_of_nodup_map distinct inside' member equal)
        rw [Function.update_of_ne other, List.mem_append, List.mem_singleton, or_iff_left last]
        exact state b inside'
    · rw [Function.update_of_ne (outside item member), others p outside]
  · rintro names' m' - ⟨kept, state, others⟩
    exact ⟨kept, fun b member => (state b member).1 member, others⟩

end Station.Leads

end TunedKernel
