/-
**The pieces of kernels count.**

* `Step.Plain`, `Code.Counts.steps` — steps that leave the indices alone.
* `Code.Counts.strided`, `Code.Counts.split`, `Code.Counts.uniform`, `Code.Counts.byGroup` — walks by the
  number of workers, which has to reach the end of the range.
* `Code.Counts.stepped`, `Code.Counts.cooperative`, `Code.Counts.counted` — walks by constant steps.
* `Code.Counts.tree` — the stages that fold local memory.
-/

import TunedKernel.Proofs.Execution.Counting
import TunedKernel.Proofs.Execution.Split
import TunedKernel.Proofs.Execution.Tree
import TunedKernel.Proofs.Execution.Walk

namespace TunedKernel

variable {w : Worker} {given : Names Unit} {sizes scope : List String} {body after : Code}

/-! ### Steps -/

/-- A step that declares no index, and binds no name of the scope. -/
def Step.Plain (s : Step) (scope : List String) : Prop :=
  (∀ x value, s ≠ .declare .index x value) ∧ ∀ x ∈ s.binder?, x ∉ scope

/-- A step that binds no name is plain. -/
theorem Step.plain_of_none {s : Step} (none : s.binder? = none) : s.Plain scope := by
  refine ⟨fun x value same => ?_, fun x bound => ?_⟩
  · rw [same] at none
    cases none
  · rw [none] at bound
    cases bound

theorem Step.plain_value {type : NumericType} {width : Nat} {x : String} {value : Term}
    (fresh : x ∉ scope) : (Step.declare (.packed type width) x value).Plain scope :=
  ⟨nofun, fun _ bound => Option.mem_some.mp bound ▸ fresh⟩

theorem Step.plain_local {memory : LocalMemory} (fresh : memory.name ∉ scope) :
    (Step.declareLocal memory).Plain scope :=
  ⟨nofun, fun _ bound => Option.mem_some.mp bound ▸ fresh⟩

theorem Step.plain_array {type : ValueType} {x : String} {dims : List Nat} (fresh : x ∉ scope) :
    (Step.declareArray type x dims).Plain scope :=
  ⟨nofun, fun _ bound => Option.mem_some.mp bound ▸ fresh⟩

theorem Step.plain_assign {x : String} {op : AssignOp} {value : Term} (fresh : x ∉ scope) :
    (Step.store (.name x) op value).Plain scope :=
  ⟨nofun, fun _ bound => Option.mem_some.mp bound ▸ fresh⟩

namespace Code.Counts

theorem plain {s : Step} (plain : s.Plain scope) (further : after.Counts w given sizes scope) :
    (step s after).Counts w given sizes scope := by
  cases s with
  | declare type x value =>
    cases type with
    | index => exact absurd rfl (plain.1 x value)
    | packed type width => exact ⟨plain.2, further⟩
  | declareLocal memory | declareArray type x dims | store target op value | barrier =>
    exact ⟨plain.2, further⟩

/-- **Plain steps in front of counting code.** -/
theorem steps {steps : List Step} (plain : ∀ s ∈ steps, s.Plain scope)
    (further : after.Counts w given sizes scope) :
    (ofSteps steps ++ after).Counts w given sizes scope := by
  induction steps with
  | nil => exact further
  | cons s steps ih =>
    exact .plain (plain s List.mem_cons_self) (ih fun s member => plain s (List.mem_cons_of_mem _ member))

/-- Plain steps for the items of a list. -/
theorem map {β : Type} {items : List β} {f : β → Step}
    (plain : ∀ b ∈ items, (f b).Plain scope) (further : after.Counts w given sizes scope) :
    (ofSteps (items.map f) ++ after).Counts w given sizes scope :=
  steps (fun s member => by
    obtain ⟨b, inside, rfl⟩ := List.mem_map.mp member
    exact plain b inside) further

/-- Code that counts with nothing behind it. -/
theorem of_append_done (counts : (body ++ Code.done).Counts w given sizes scope) :
    body.Counts w given sizes scope := by
  rwa [append_done] at counts

/-- The first part of code that counts. -/
theorem left {first : Code} (counts : (first ++ after).Counts w given sizes scope) :
    first.Counts w given sizes scope := by
  induction first generalizing scope with
  | done => trivial
  | step s rest ih =>
    cases s with
    | declare type x value => cases type <;> exact ⟨counts.1, ih counts.2⟩
    | declareLocal | declareArray | store | barrier => exact ⟨counts.1, ih counts.2⟩
  | loop l body rest _ ih => exact ⟨counts.1, counts.2.1, ih counts.2.2⟩
  | guarded condition body rest _ ih => exact ⟨counts.1, counts.2.1, ih counts.2.2⟩

/-- Plain steps at the end. -/
theorem last {β : Type} {items : List β} {f : β → Step}
    (plain : ∀ b ∈ items, (f b).Plain scope) :
    (ofSteps (items.map f)).Counts w given sizes scope := by
  exact .of_append_done (map plain trivial)

end Code.Counts

/-! ### Walks -/

variable {counter : String} {dimension d b : Nat} {bound : Term}

/-- The runtime answers along three dimensions only. -/
theorem Worker.dimension_lt {question : Query} {n : Nat}
    (answer : w.answer? question dimension = some n) : dimension < 3 := by
  match dimension, answer with
  | 0, _ | 1, _ | 2, _ => decide
  | _ + 3, answer => simp [Worker.answer?, Triple.get?] at answer

/-- An answer of the runtime is an index that is made of no size. -/
theorem Term.stands_query {question : Query} (answer : w.answer? question dimension = some d) :
    (Term.query question dimension).Stands w given sizes d where
  indexes := Worker.dimension_lt answer
  value := ⟨.bits64, by rw [Term.unsigned?, answer]; rfl⟩

/-- A constant is one as well. -/
theorem Term.stands_count (n : Nat) : (Term.count n).Stands w given sizes n := ⟨trivial, _, rfl⟩

namespace Code.Counts

/-- A loop that strides towards a bound made of sizes, where it makes a trip at all. -/
theorem loop {l : Loop} (stride : Term) (step : l.step = some stride)
    (first : l.first.Indexes (sizes ++ scope)) (grows : stride.Stands w given sizes d)
    (ends : l.bound.Stands w given sizes b) (reaches : Reaches d b) (kept : l.counter ∉ body.binders)
    (inner : 0 < b → body.Counts w given sizes (l.counter :: scope))
    (further : after.Counts w given sizes scope) :
    (Code.loop l body after).Counts w given sizes scope := by
  refine ⟨⟨first, ?_, kept⟩, ?_, further⟩
  · unfold Loop.Steady
    rw [step]
    exact ⟨d, b, grows, ends, reaches⟩
  · rcases Nat.eq_zero_or_pos b with rfl | enters
    · exact Or.inl ends
    · exact Or.inr (inner enters)

theorem strided (workers : w.answer? .globalSize dimension = some d)
    (ends : bound.Stands w given sizes b) (reaches : Reaches d b) (kept : counter ∉ body.binders)
    (inner : 0 < b → body.Counts w given sizes (counter :: scope))
    (further : after.Counts w given sizes scope) :
    ((Walk.strided counter dimension bound).around body ++ after).Counts w given sizes scope := by
  have grows : (Term.query .globalSize dimension).Stands w given sizes d := Term.stands_query workers
  exact loop (l := (Walk.strided counter dimension bound).loop) (.query .globalSize _) rfl grows.indexes
    grows ends reaches kept inner further

/-- **A walk over a range that is split.** Only strides may fail to reach its end. -/
theorem split {stride : Bool} (workers : w.answer? .globalSize dimension = some d)
    (ends : bound.Stands w given sizes b) (reaches : stride = true → Reaches d b)
    (kept : ∀ x ∈ (Walk.split stride counter dimension bound).declared ++ [counter], x ∉ body.binders)
    (inner : (stride = true → 0 < b) →
      ∀ more, (∀ x ∈ more, x ∈ scope ∨ x ∈ (Walk.split stride counter dimension bound).declared) →
        body.Counts w given sizes (counter :: more))
    (further : ∀ more, scope ⊆ more →
      (∀ x ∈ more, x ∈ scope ∨ x ∈ (Walk.split stride counter dimension bound).declared) →
        after.Counts w given sizes more) :
    ((Walk.split stride counter dimension bound).around body ++ after).Counts w given sizes scope := by
  have grows : (Term.query .globalSize dimension).Stands w given sizes d := Term.stands_query workers
  have apart {word : String} (some : word ≠ "") : counter ++ word ≠ counter := fun same =>
    some (String.append_eq_left_iff.mp same)
  cases stride with
  | true =>
    exact strided workers ends (reaches rfl) (kept counter (List.mem_append_right _ (by simp)))
      (fun enters => inner (fun _ => enters) scope fun x => Or.inl)
      (further scope (List.Subset.refl _) fun x => Or.inl)
  | false =>
    have range (more : List String) : bound.Indexes (sizes ++ more) :=
      ends.indexes.mono fun x => List.mem_append_left _
    have here (x : String) (more : List String) : x ∈ sizes ++ x :: more :=
      List.mem_append_right _ List.mem_cons_self
    have there {x : String} (y : String) {more : List String} (member : x ∈ sizes ++ more) :
        x ∈ sizes ++ y :: more :=
      (List.mem_append.mp member).elim (List.mem_append_left _) fun inside =>
        List.mem_append_right _ (List.mem_cons_of_mem _ inside)
    have declared (x : String)
        (member : x ∈ (counter ++ "_stop") :: (counter ++ "_start") :: (counter ++ "_chunk") :: scope) :
        x ∈ scope ∨ x ∈ (Walk.split false counter dimension bound).declared := by
      show x ∈ scope ∨ x ∈ [counter ++ "_chunk", counter ++ "_start", counter ++ "_stop"]
      simp only [List.mem_cons, List.not_mem_nil, or_false] at member ⊢
      tauto
    have stop : counter ++ "_stop" ∉ body.binders := kept _ (List.mem_append_left _
      (by show _ ∈ [counter ++ "_chunk", counter ++ "_start", counter ++ "_stop"]; simp))
    refine ⟨⟨⟨⟨range _, grows.indexes, Or.inl rfl⟩, trivial, Or.inr (Or.inl rfl)⟩, grows.indexes,
      Or.inr (Or.inr (Or.inr ⟨Or.inl rfl, trivial⟩))⟩, ?_⟩
    refine ⟨⟨grows.indexes, here _ _, Or.inr (Or.inr (Or.inl rfl))⟩, ?_⟩
    refine ⟨⟨rfl, ⟨here _ _, there _ (here _ _), Or.inl rfl⟩, rfl, range _⟩, ?_⟩
    refine ⟨⟨there _ (here _ _), Or.inr ⟨_, List.mem_cons_self, rfl, apart (by decide), stop⟩,
      kept counter (List.mem_append_right _ (by simp))⟩, Or.inr (inner nofun _ declared),
      further _ ?_ declared⟩
    exact fun x member => List.mem_cons_of_mem _ (List.mem_cons_of_mem _ (List.mem_cons_of_mem _ member))

theorem uniform (workers : w.answer? .globalSize dimension = some d)
    (ends : bound.Stands w given sizes b) (reaches : Reaches d b)
    (kept : counter ++ "_base" ∉ body.binders)
    (inner : 0 < b → body.Counts w given sizes (counter :: (counter ++ "_base") :: scope))
    (further : after.Counts w given sizes scope) :
    ((Walk.uniform counter dimension bound).around body ++ after).Counts w given sizes scope := by
  have grows : (Term.query .globalSize dimension).Stands w given sizes d := Term.stands_query workers
  refine loop (l := (Walk.uniform counter dimension bound).loop) (.query .globalSize _) rfl
    ⟨grows.indexes, grows.indexes, Or.inr (Or.inr (Or.inl rfl))⟩ grows ends reaches ?_ (fun enters =>
      ⟨⟨?_, grows.indexes, Or.inl rfl⟩, inner enters⟩) further
  · show counter ++ "_base" ∉ counter :: body.binders
    refine fun bound => (List.mem_cons.mp bound).elim (fun same => ?_) kept
    exact absurd (String.append_eq_left_iff.mp same) (by decide)
  · exact List.mem_append_right _ List.mem_cons_self

theorem byGroup {lane : Term} {n : Nat} (workers : w.answer? .localSize dimension = some d)
    (first : lane.Indexes (sizes ++ scope)) (reaches : Reaches d n) (kept : counter ∉ body.binders)
    (inner : body.Counts w given sizes (counter :: scope))
    (further : after.Counts w given sizes scope) :
    ((Walk.byGroup counter lane dimension n).around body ++ after).Counts w given sizes scope := by
  have grows : (Term.query .localSize dimension).Stands w given sizes d := Term.stands_query workers
  exact loop (l := (Walk.byGroup counter lane dimension n).loop) (.query .localSize _) rfl first grows
    (Term.stands_count n) reaches kept (fun _ => inner) further

theorem stepped {step : Nat} (ends : bound.Stands w given sizes b) (reaches : Reaches step b)
    (kept : counter ∉ body.binders) (inner : 0 < b → body.Counts w given sizes (counter :: scope))
    (further : after.Counts w given sizes scope) :
    ((Walk.stepped counter bound step).around body ++ after).Counts w given sizes scope :=
  loop (l := (Walk.stepped counter bound step).loop) (.count step) rfl trivial
    (Term.stands_count step) ends reaches kept inner further

theorem cooperative {first : Term} {n step : Nat} (start : first.Indexes (sizes ++ scope))
    (reaches : Reaches step n) (kept : counter ∉ body.binders)
    (inner : body.Counts w given sizes (counter :: scope))
    (further : after.Counts w given sizes scope) :
    ((Walk.cooperative counter first n step).around body ++ after).Counts w given sizes scope :=
  loop (l := (Walk.cooperative counter first n step).loop) (.count step) rfl start
    (Term.stands_count step) (Term.stands_count n) reaches kept (fun _ => inner) further

theorem counted {n : Nat} (small : n < 2 ^ 32) (kept : counter ∉ body.binders)
    (inner : body.Counts w given sizes (counter :: scope))
    (further : after.Counts w given sizes scope) :
    ((Walk.counted counter n).around body ++ after).Counts w given sizes scope :=
  ⟨⟨trivial, Or.inl ⟨n, small, rfl⟩, kept⟩, Or.inr inner, further⟩

end Code.Counts

/-! ### Trees -/

variable {buffers : Tree.Buffers} {before : List Term} {lane : Term} {extent : Nat}

theorem Tree.decides_active (place : lane.Indexes (sizes ++ scope)) (stride : Nat) :
    (active lane extent stride).Decides (sizes ++ scope) := by
  unfold active
  split
  · exact ⟨place, trivial⟩
  · exact ⟨⟨place, trivial⟩, ⟨place, trivial, Or.inl rfl⟩, trivial⟩

namespace Code.Counts

theorem stages (place : lane.Indexes (sizes ++ scope)) (strides : List Nat)
    (further : after.Counts w given sizes scope) :
    (Tree.stages buffers before lane extent strides ++ after).Counts w given sizes scope := by
  induction strides with
  | nil => exact further
  | cons stride strides ih =>
    refine ⟨nofun, Tree.decides_active place stride, last fun b _ => ?_, ih⟩
    exact Step.plain_of_none (Step.binder?_store (Tree.access_ne_name _ _ _))

/-- **The stages that fold local memory.** -/
theorem tree {ε : Type} {code : Code}
    (ok : Tree.code (ε := ε) buffers before lane extent = .ok code)
    (place : lane.Indexes (sizes ++ scope)) (further : after.Counts w given sizes scope) :
    (code ++ after).Counts w given sizes scope := by
  obtain ⟨found, -, ok⟩ := bind_eq_ok_iff.mp ok
  cases ok
  exact stages place found further

end Code.Counts

end TunedKernel
