/-
**What one worker does between two barriers.**

Until the next barrier a worker has places of its own to write and places to read that no other
worker writes. What it does then depends on nothing else, so it may be followed alone.

* `Station` — a worker with the places it reads and writes until the next barrier.
* `Station.Acts`, `Station.Reaches` — one move inside these places, and a number of them.
* `Station.Gives`, `Station.At` — the value of a term, and the place of an access.
* `Code.binders` — the names that code may bind.
* `Station.Leads` — code leads to a goal on names and memory; it leaves other names alone.
  `Leads.step`, `Leads.append`, `Leads.guarded` and `Leads.range` are its rules, one for each form
  of code; `Loop.Counts` says how a loop counts, and `trips` how often it is gone through.
* `Leads.parts` — a loop whose trips have places to themselves; `Leads.grid` — two loops, one inside the
  other, that fill a grid of places.
-/

import Mathlib.Data.Set.Lattice
import TunedKernel.Proofs.Execution.Machine

namespace TunedKernel

variable {α : Type}

/-- A worker, with the places it reads and writes until the next barrier. -/
structure Station (α : Type) where
  worker : Worker
  elements : Elements α
  reads : Set Place
  writes : Set Place

namespace Station

variable (q : Station α)

/-! ### Moves -/

/-- A move of a thread that is the same in every memory that agrees on the reads, and that changes
nothing but the writes. -/
def Acts (t : Thread α) (m : Memory α) (t' : Thread α) (m' : Memory α) : Prop :=
  ∀ k, Set.EqOn k m q.reads → ∃ k', t.step? q.worker q.elements k = some (t', k') ∧
    Set.EqOn k' m' q.reads ∧ Set.EqOn k' k q.writesᶜ

/-- A number of moves. -/
inductive Reaches : Nat → Thread α → Memory α → Thread α → Memory α → Prop
  | refl (t : Thread α) (m : Memory α) : Reaches 0 t m t m
  | head {n : Nat} {t t₁ t' : Thread α} {m m₁ m' : Memory α} (move : q.Acts t m t₁ m₁)
      (further : Reaches n t₁ m₁ t' m') : Reaches (n + 1) t m t' m'

variable {q}

theorem Reaches.trans {n n' : Nat} {t t' t'' : Thread α} {m m' m'' : Memory α}
    (first : q.Reaches n t m t' m') (second : q.Reaches n' t' m' t'' m'') :
    ∃ k, q.Reaches k t m t'' m'' := by
  induction first with
  | refl => exact ⟨n', second⟩
  | head move _ ih =>
    obtain ⟨k, further⟩ := ih second
    exact ⟨k + 1, .head move further⟩

theorem Reaches.single {t t' : Thread α} {m m' : Memory α} (move : q.Acts t m t' m') :
    q.Reaches 1 t m t' m' := .head move (.refl t' m')

/-- A move that leaves the memory alone, and that it takes no look at. -/
theorem Acts.of_pure {t t' : Thread α} {m : Memory α}
    (move : ∀ k : Memory α, t.step? q.worker q.elements k = some (t', k)) : q.Acts t m t' m :=
  fun k agree => ⟨k, move k, agree, Set.eqOn_refl _ _⟩

/-- A step inside the reads and writes. -/
theorem Acts.of_exec {s : Step} {names names' : Names α} {m m' : Memory α} {code : Code}
    {rest : List Frame} (inside : s.Within q.worker names q.reads q.writes)
    (done : s.exec? q.worker q.elements names m = some (names', m')) :
    q.Acts ⟨.run (.step s code) :: rest, names⟩ m ⟨.run code :: rest, names'⟩ m' := by
  intro k agree
  obtain ⟨k', again, same, kept⟩ := s.exec?_local inside done agree
  refine ⟨k', ?_, same, kept⟩
  show (s.exec? q.worker q.elements names k).bind _ = _
  rw [again]
  rfl

/-- The end of a piece of code. -/
theorem Acts.leave {names : Names α} {m : Memory α} {rest : List Frame} :
    q.Acts ⟨.run .done :: rest, names⟩ m ⟨rest, names⟩ m := .of_pure fun _ => rfl

/-- A guard whose condition is decided. -/
theorem Acts.guard {names : Names α} {m : Memory α} {condition : Term} {body code : Code}
    {rest : List Frame} {holds : Bool} (decided : condition.holds? q.worker names = some holds) :
    q.Acts ⟨.run (.guarded condition body code) :: rest, names⟩ m
      ⟨if holds then .run body :: .run code :: rest else .run code :: rest, names⟩ m := by
  refine .of_pure fun k => ?_
  show (condition.holds? q.worker names).bind _ = _
  rw [decided]
  rfl

/-- A loop is reached. -/
theorem Acts.enter {names : Names α} {m : Memory α} {l : Loop} {body code : Code}
    {rest : List Frame} {n : Nat} (first : l.first.number? q.worker names = some n) :
    q.Acts ⟨.run (.loop l body code) :: rest, names⟩ m
      ⟨.check l body :: .run code :: rest, names.bind l.counter (.index n)⟩ m := by
  refine .of_pure fun k => ?_
  show (l.first.number? q.worker names).bind _ = _
  rw [first]
  rfl

/-- A further trip through a loop, while its counter is below the bound. -/
theorem Acts.again {names : Names α} {m : Memory α} {l : Loop} {body : Code} {rest : List Frame}
    {n b : Nat} (counter : names l.counter = some (.index n))
    (bound : l.bound.number? q.worker names = some b) (below : n < b) :
    q.Acts ⟨.check l body :: rest, names⟩ m ⟨.run body :: .advance l body :: rest, names⟩ m := by
  have here : (Term.name l.counter).number? q.worker names = some n := by rw [Term.number?, counter]
  have holds : l.condition.holds? q.worker names = some true := by
    rw [Loop.condition, Term.holds?, here, bound, ← decide_eq_true below]
    rfl
  refine .of_pure fun k => ?_
  show (l.condition.holds? q.worker names).bind _ = _
  rw [holds]
  rfl

/-- A loop is over when its counter is not below the bound. -/
theorem Acts.over {names : Names α} {m : Memory α} {l : Loop} {body : Code} {rest : List Frame}
    {n b : Nat} (counter : names l.counter = some (.index n))
    (bound : l.bound.number? q.worker names = some b) (above : ¬ n < b) :
    q.Acts ⟨.check l body :: rest, names⟩ m ⟨rest, names⟩ m := by
  have here : (Term.name l.counter).number? q.worker names = some n := by rw [Term.number?, counter]
  have holds : l.condition.holds? q.worker names = some false := by
    rw [Loop.condition, Term.holds?, here, bound, ← decide_eq_false above]
    rfl
  refine .of_pure fun k => ?_
  show (l.condition.holds? q.worker names).bind _ = _
  rw [holds]
  rfl

/-- The counter of a loop moves on. -/
theorem Acts.advance {names : Names α} {m : Memory α} {l : Loop} {body : Code} {rest : List Frame}
    {n d : Nat} (counter : names l.counter = some (.index n))
    (stride : (l.step.getD (.number 1)).number? q.worker names = some d) :
    q.Acts ⟨.advance l body :: rest, names⟩ m
      ⟨.check l body :: rest, names.bind l.counter (.index (n + d))⟩ m := by
  have here : (Term.name l.counter).number? q.worker names = some n := by rw [Term.number?, counter]
  have next : l.next.number? q.worker names = some (n + d) := by
    rw [Loop.next, Term.number?, here, stride]
    rfl
  refine .of_pure fun k => ?_
  show (l.next.number? q.worker names).bind _ = _
  rw [next]
  rfl

/-! ### Values and places -/

variable (q) in
/-- A term has a value, which depends on the reads only. -/
def Gives (names : Names α) (m : Memory α) (t : Term) (x : Nat → α) : Prop :=
  t.value? q.worker q.elements names m = some x ∧ t.Within q.worker names q.reads

variable (q) in
/-- An access names a single place. -/
def At (names : Names α) (t : Term) (p : Place) : Prop :=
  t.spot? q.worker names = some (Spot.single p)

end Station

theorem Term.element_append (array : Term) (subscripts : List Term) (last : Term) :
    Term.element array (subscripts ++ [last]) = .index (Term.element array subscripts) last := by
  unfold Term.element
  rw [List.foldl_append]
  rfl

theorem Term.access?_element (array : String) (subscripts : List Term) :
    (Term.element (.name array) subscripts).access? = some (array, subscripts) := by
  induction subscripts using List.reverseRecOn with
  | nil => rfl
  | append_singleton subscripts last ih =>
    rw [element_append, access?, ih]
    rfl

theorem Term.spot?_element {w : Worker} {names : Names α} {array : String}
    {subscripts : List Term} {ns : List Nat}
    (numbers : subscripts.mapM (fun s => s.number? w names) = some ns) :
    (Term.element (.name array) subscripts).spot? w names =
      resolve w array (names array) ns := by
  rw [spot?, access?_element]
  simp only [Option.bind_eq_bind, Option.bind_some]
  rw [numbers]
  rfl

/-- An element of an array of the worker's own. -/
theorem Station.at_own {q : Station α} {names : Names α} {array : String} {dims ns : List Nat}
    {subscripts : List Term} (bound : names array = some (.ownArray dims))
    (numbers : subscripts.mapM (fun s => s.number? q.worker names) = some ns)
    (inside : Term.inside ns dims = true) :
    q.At names (Term.element (.name array) subscripts)
      (.own q.worker.group q.worker.lane array ns) := by
  rw [At, Term.spot?_element numbers, bound]
  exact if_pos inside

/-- An element of an array that the group shares. -/
theorem Station.at_shared {q : Station α} {names : Names α} {array : String} {dims ns : List Nat}
    {subscripts : List Term} (bound : names array = some (.sharedArray dims))
    (numbers : subscripts.mapM (fun s => s.number? q.worker names) = some ns)
    (inside : Term.inside ns dims = true) :
    q.At names (Term.element (.name array) subscripts) (.shared q.worker.group array ns) := by
  rw [At, Term.spot?_element numbers, bound]
  exact if_pos inside

theorem Term.mapM_pair {w : Worker} {names : Names α} {s t : Term} {i j : Nat}
    (first : s.number? w names = some i) (second : t.number? w names = some j) :
    [s, t].mapM (fun s => s.number? w names) = some [i, j] := by
  simp [first, second]

/-- The subscripts of a slot in a row. -/
theorem Term.mapM_append_singleton {w : Worker} {names : Names α} {before : List Term} {t : Term}
    {ns : List Nat} {j : Nat} (first : before.mapM (fun s => s.number? w names) = some ns)
    (last : t.number? w names = some j) :
    (before ++ [t]).mapM (fun s => s.number? w names) = some (ns ++ [j]) := by
  rw [List.mapM_append, first]
  simp [last]

theorem Term.inside_pair {i j d₁ d₂ : Nat} (first : i < d₁) (second : j < d₂) :
    Term.inside [i, j] [d₁, d₂] = true := by
  simp [inside, first, second]

/-! ### Names that code binds -/

/-- The name that a step binds: a declared one, or a variable that it stores into. -/
def Step.binder? : Step → Option String
  | declare _ name _ | declareArray _ name _ | store (.name name) _ _ => some name
  | declareLocal memory => some memory.name
  | store _ _ _ | barrier => none

/-- The names that code may bind. -/
def Code.binders : Code → List String
  | done => []
  | step s rest => s.binder?.toList ++ rest.binders
  | loop l body rest => l.counter :: (body.binders ++ rest.binders)
  | guarded _ body rest => body.binders ++ rest.binders

@[simp] theorem Code.mem_binders_append {x : String} {first second : Code} :
    x ∈ (first ++ second).binders ↔ x ∈ first.binders ∨ x ∈ second.binders := by
  induction first with
  | done => simp [binders]
  | step s rest ih => simp [binders, ih, or_assoc]
  | loop l body rest _ ih => simp [binders, ih, or_assoc]
  | guarded condition body rest _ ih => simp [binders, ih, or_assoc]

theorem Code.mem_binders_join {x : String} {pieces : List Code} :
    x ∈ (join pieces).binders ↔ ∃ piece ∈ pieces, x ∈ piece.binders := by
  induction pieces with
  | nil => simp [join, binders]
  | cons piece pieces ih =>
    show x ∈ (piece ++ join pieces).binders ↔ _
    rw [mem_binders_append, ih, List.exists_mem_cons_iff]

theorem Step.binder?_store {target value : Term} {op : AssignOp}
    (access : ∀ name, target ≠ .name name) : (store target op value).binder? = none := by
  cases target with
  | name identifier => exact absurd rfl (access identifier)
  | _ => rfl

theorem Code.binders_ofSteps (steps : List Step) :
    (ofSteps steps).binders = steps.flatMap fun s => s.binder?.toList := by
  induction steps with
  | nil => rfl
  | cons s steps ih => exact congrArg (s.binder?.toList ++ ·) ih

theorem Code.binders_ofSteps_nil {steps : List Step} (none : ∀ s ∈ steps, s.binder? = none) :
    (ofSteps steps).binders = [] := by
  rw [binders_ofSteps, List.flatMap_eq_nil_iff]
  intro s member
  rw [none s member]
  rfl

theorem Code.binders_store {target value : Term} {op : AssignOp}
    (access : ∀ name, target ≠ .name name) :
    (Code.ofSteps [.store target op value]).binders = [] :=
  binders_ofSteps_nil fun _ member => List.mem_singleton.mp member ▸ Step.binder?_store access

/-- Names that agree except where code may have bound them anew. -/
def Names.Same (bound : List String) (names names' : Names α) : Prop :=
  ∀ x, x ∉ bound → names' x = names x

theorem Names.Same.refl (bound : List String) (names : Names α) : names.Same bound names :=
  fun _ _ => rfl

theorem Names.Same.trans {bound : List String} {names names' names'' : Names α}
    (first : names.Same bound names') (second : names'.Same bound names'') :
    names.Same bound names'' := fun x free => (second x free).trans (first x free)

theorem Names.Same.mono {bound more : List String} {names names' : Names α}
    (sub : ∀ x, x ∈ bound → x ∈ more) (same : names.Same bound names') :
    names.Same more names' := fun x free => same x fun member => free (sub x member)

theorem Names.Same.bind {bound : List String} {names names' : Names α} {name : String}
    (member : name ∈ bound) (same : names.Same bound names') (binding : Binding α) :
    names.Same bound (names'.bind name binding) := by
  intro x free
  have ne : x ≠ name := fun equal => free (equal ▸ member)
  rw [Names.bind_of_ne ne, same x free]

/-- A step leaves other names alone. -/
theorem Step.exec?_same {w : Worker} {e : Elements α} {s : Step} {names names' : Names α}
    {m m' : Memory α} (done : s.exec? w e names m = some (names', m')) :
    names.Same s.binder?.toList names' := by
  cases s with
  | barrier => cases done
  | declareLocal memory =>
    cases done
    exact (Names.Same.refl _ names).bind (by simp [binder?]) _
  | declareArray type name dims =>
    cases done
    exact (Names.Same.refl _ names).bind (by simp [binder?]) _
  | declare type name value =>
    cases type with
    | index =>
      obtain ⟨n, -, result⟩ := Option.bind_eq_some_iff.mp done
      cases result
      exact (Names.Same.refl _ names).bind (by simp [binder?]) _
    | packed type width =>
      obtain ⟨x, -, result⟩ := Option.bind_eq_some_iff.mp done
      cases result
      exact (Names.Same.refl _ names).bind (by simp [binder?]) _
  | store target op value =>
    by_cases isName : ∃ x, target = .name x
    · obtain ⟨x, rfl⟩ := isName
      cases bound : names x with
      | none => simp [exec?, bound] at done
      | some binding =>
        cases binding with
        | value old =>
          simp only [exec?, bound] at done
          obtain ⟨v, -, result⟩ := Option.bind_eq_some_iff.mp done
          cases result
          exact (Names.Same.refl _ names).bind (by simp [binder?]) _
        | _ => simp [exec?, bound] at done
    · rw [exec?_store fun x same => isName ⟨x, same⟩] at done
      obtain ⟨spot, -, result⟩ := Option.bind_eq_some_iff.mp done
      obtain ⟨x, -, result⟩ := Option.bind_eq_some_iff.mp result
      cases result
      exact Names.Same.refl _ names

/-! ### Code that leads to a goal -/

/-- Code leads to a goal on the names and the memory: it is carried out in a number of moves inside
the reads and writes, whatever comes after it, and binds none but its own names. -/
def Station.Leads (q : Station α) (code : Code) (names : Names α) (m : Memory α)
    (goal : Names α → Memory α → Prop) : Prop :=
  ∃ names' m', goal names' m' ∧ names.Same code.binders names' ∧ ∀ after rest, ∃ n,
    q.Reaches n ⟨.run (code ++ after) :: rest, names⟩ m ⟨.run after :: rest, names'⟩ m'

namespace Station.Leads

variable {q : Station α} {names : Names α} {m : Memory α} {goal : Names α → Memory α → Prop}

theorem done (here : goal names m) : q.Leads .done names m goal :=
  ⟨names, m, here, Names.Same.refl _ _, fun _ _ => ⟨0, .refl _ _⟩⟩

/-- The goal may be weakened, also by what the code leaves alone. -/
theorem weaken {code : Code} {stronger : Names α → Memory α → Prop}
    (leads : q.Leads code names m stronger)
    (implies : ∀ names' m', names.Same code.binders names' → stronger names' m' →
      goal names' m') : q.Leads code names m goal := by
  obtain ⟨names', m', reached, same, run⟩ := leads
  exact ⟨names', m', implies names' m' same reached, same, run⟩

theorem step {s : Step} {code : Code} {names' : Names α} {m' : Memory α}
    (inside : s.Within q.worker names q.reads q.writes)
    (done : s.exec? q.worker q.elements names m = some (names', m'))
    (next : q.Leads code names' m' goal) : q.Leads (.step s code) names m goal := by
  obtain ⟨names'', m'', reached, same, run⟩ := next
  refine ⟨names'', m'', reached, ?_, fun after rest => ?_⟩
  · refine Names.Same.trans ((Step.exec?_same done).mono fun x member => ?_)
      (same.mono fun x member => ?_)
    · exact List.mem_append_left _ member
    · exact List.mem_append_right _ member
  · obtain ⟨n, further⟩ := run after rest
    exact ⟨n + 1, .head (.of_exec inside done) further⟩

theorem append {first second : Code}
    (leads : q.Leads first names m fun names' m' => q.Leads second names' m' goal) :
    q.Leads (first ++ second) names m goal := by
  obtain ⟨names', m', ⟨names'', m'', reached, same', run'⟩, same, run⟩ := leads
  refine ⟨names'', m'', reached, ?_, fun after rest => ?_⟩
  · exact (same.mono fun x member => Code.mem_binders_append.mpr (Or.inl member)).trans
      (same'.mono fun x member => Code.mem_binders_append.mpr (Or.inr member))
  · obtain ⟨n, one⟩ := run (second ++ after) rest
    obtain ⟨n', two⟩ := run' after rest
    rw [Code.append_assoc]
    exact one.trans two

/-! ### Steps -/

theorem declareIndex {name : String} {value : Term} {n : Nat} {code : Code}
    (number : value.number? q.worker names = some n)
    (next : q.Leads code (names.bind name (.index n)) m goal) :
    q.Leads (.step (.declare .index name value) code) names m goal := by
  refine step trivial ?_ next
  show (value.number? q.worker names).bind _ = _
  rw [number]
  rfl

theorem declareValue {type : NumericType} {width : Nat} {name : String} {value : Term}
    {x : Nat → α} {code : Code} (gives : q.Gives names m value x)
    (next : q.Leads code (names.bind name (.value x)) m goal) :
    q.Leads (.step (.declare (.packed type width) name value) code) names m goal := by
  refine step gives.2 ?_ next
  show (value.value? q.worker q.elements names m).bind _ = _
  rw [gives.1]
  rfl

theorem declareLocal {memory : LocalMemory} {code : Code}
    (next : q.Leads code (names.bind memory.name (.sharedArray memory.dims)) m goal) :
    q.Leads (.step (.declareLocal memory) code) names m goal := step trivial rfl next

theorem declareArray {type : ValueType} {name : String} {dims : List Nat} {code : Code}
    (next : q.Leads code (names.bind name (.ownArray dims)) m goal) :
    q.Leads (.step (.declareArray type name dims) code) names m goal := step trivial rfl next

/-- A store into a variable. -/
theorem assign {name : String} {op : AssignOp} {value : Term} {old x : Nat → α} {code : Code}
    (bound : names name = some (.value old)) (gives : q.Gives names m value x)
    (next : q.Leads code (names.bind name (.value fun l => q.elements.store op (old l) (x l))) m
      goal) : q.Leads (.step (.store (.name name) op value) code) names m goal := by
  refine step gives.2 ?_ next
  simp only [Step.exec?, bound]
  rw [gives.1]
  rfl

/-- A store into a place. -/
theorem put {target : Term} {op : AssignOp} {value : Term} {p : Place} {x : Nat → α} {code : Code}
    (access : ∀ name, target ≠ .name name) (here : q.At names target p)
    (inside : p ∈ q.reads ∩ q.writes) (gives : q.Gives names m value x)
    (next : q.Leads code names
      (Function.update m p ⟨q.elements.store op (m p).value (x 0),
        (m p).history ++ [.store target op value]⟩) goal) :
    q.Leads (.step (.store target op value) code) names m goal := by
  refine step ((Step.within_store access op value).mpr ⟨gives.2, fun spot found l => ?_⟩) ?_ next
  · cases here.symm.trans found
    exact inside
  · rw [Step.exec?_store access, here, gives.1]
    rfl

/-! ### Guards and loops -/

theorem guarded {condition : Term} {body code : Code} {holds : Bool}
    (decided : condition.holds? q.worker names = some holds)
    (next : if holds then q.Leads body names m (fun names' m' => q.Leads code names' m' goal)
      else q.Leads code names m goal) :
    q.Leads (.guarded condition body code) names m goal := by
  cases holds with
  | false =>
    obtain ⟨names', m', reached, same, run⟩ := next
    refine ⟨names', m', reached, same.mono fun x => List.mem_append_right _, fun after rest => ?_⟩
    obtain ⟨n, further⟩ := run after rest
    exact ⟨n + 1, .head (.guard decided) further⟩
  | true =>
    obtain ⟨names', m', ⟨names'', m'', reached, same', run'⟩, same, run⟩ := next
    refine ⟨names'', m'', reached, ?_, fun after rest => ?_⟩
    · exact (same.mono fun x => List.mem_append_left _).trans
        (same'.mono fun x => List.mem_append_right _)
    · obtain ⟨n, one⟩ := run .done (.run (code ++ after) :: rest)
      obtain ⟨n', two⟩ := run' after rest
      rw [Code.append_done] at one
      exact (Reaches.head (.guard decided) one).trans (.head .leave two)

end Station.Leads

/-- How often a loop is gone through that counts from `a` by `d` while below `b`. -/
def trips (a d b : Nat) : Nat := (b - a + d - 1) / d

theorem lt_trips_iff {a d b t : Nat} (positive : 0 < d) : t < trips a d b ↔ a + t * d < b := by
  unfold trips
  rw [← Nat.succ_le_iff, Nat.le_div_iff_mul_le positive, Nat.succ_mul]
  omega

theorem trips_mul {d : Nat} (positive : 0 < d) (n : Nat) : trips 0 d (n * d) = n := by
  unfold trips
  rw [Nat.sub_zero, Nat.add_sub_assoc positive, Nat.mul_comm, Nat.mul_add_div positive,
    Nat.div_eq_of_lt (Nat.sub_lt positive Nat.one_pos), Nat.add_zero]

/-- Whole steps reach the bound. -/
theorem trips_of_dvd {d b : Nat} (positive : 0 < d) (whole : d ∣ b) : trips 0 d b * d = b := by
  obtain ⟨n, rfl⟩ := whole
  rw [Nat.mul_comm d n, trips_mul positive]

/-- The values that such a loop counts through. -/
def Visits (a d b i : Nat) : Prop := ∃ t, i = a + t * d ∧ i < b

theorem visits_iff {a d b i : Nat} (less : a < d) : Visits a d b i ↔ i < b ∧ i % d = a := by
  constructor
  · rintro ⟨t, rfl, below⟩
    exact ⟨below, by rw [Nat.add_mul_mod_self_right, Nat.mod_eq_of_lt less]⟩
  · rintro ⟨below, rfl⟩
    exact ⟨i / d, by rw [Nat.mul_comm, Nat.mod_add_div], below⟩

theorem visits_one {n i : Nat} : Visits 0 1 n i ↔ i < n := by
  constructor
  · rintro ⟨_, _, below⟩
    exact below
  · exact fun below => ⟨i, by omega, below⟩

/-- A loop by steps that divide its bound stays a whole step below it. -/
theorem Visits.add_lt {d b i u : Nat} (visits : Visits 0 d b i) (whole : d ∣ b) (below : u < d) :
    i + u < b := by
  obtain ⟨t, rfl, inside⟩ := visits
  obtain ⟨steps, rfl⟩ := whole
  rw [Nat.zero_add, Nat.mul_comm d steps] at inside
  have less : t < steps := Nat.lt_of_mul_lt_mul_right inside
  calc 0 + t * d + u < t * d + d := by omega
    _ = (t + 1) * d := (Nat.succ_mul ..).symm
    _ ≤ steps * d := Nat.mul_le_mul_right _ less
    _ = d * steps := Nat.mul_comm ..

/-- A loop counts from `a` by `d` while below `b`, whatever is done to the names given. -/
structure Loop.Counts (l : Loop) (w : Worker) (names : Names α) (changed : List String) (a d b : Nat) :
    Prop where
  positive : 0 < d
  first : ∀ names', names.Same changed names' → l.first.number? w names' = some a
  bound : ∀ names', names.Same changed names' → l.bound.number? w names' = some b
  stride : ∀ names', names.Same changed names' →
    (l.step.getD (.number 1)).number? w names' = some d

theorem Loop.Counts.after {l : Loop} {w : Worker} {names names' : Names α} {changed less : List String}
    {a d b : Nat} (counts : l.Counts w names changed a d b) (same : names.Same changed names')
    (sub : ∀ x, x ∈ less → x ∈ changed) : l.Counts w names' less a d b where
  positive := counts.positive
  first names'' same' := counts.first names'' (same.trans (same'.mono sub))
  bound names'' same' := counts.bound names'' (same.trans (same'.mono sub))
  stride names'' same' := counts.stride names'' (same.trans (same'.mono sub))

namespace Station.Leads

variable {q : Station α} {names : Names α} {m : Memory α} {goal : Names α → Memory α → Prop}

/-- **A loop that counts.** An invariant that every trip carries on holds at the end. Its counter
moves on by a constant, and neither the bound nor the stride depends on what the body binds. -/
theorem range {l : Loop} {body code : Code} {a d b : Nat}
    (counts : l.Counts q.worker names (l.counter :: body.binders) a d b)
    (invariant : Nat → Names α → Memory α → Prop)
    (kept : l.counter ∉ body.binders)
    (start : invariant 0 (names.bind l.counter (.index a)) m)
    (trip : ∀ t, a + t * d < b → ∀ names' m', names.Same (l.counter :: body.binders) names' →
      names' l.counter = some (.index (a + t * d)) → invariant t names' m' →
      q.Leads body names' m' fun names'' m'' =>
        invariant (t + 1) (names''.bind l.counter (.index (a + (t + 1) * d))) m'')
    (finish : ∀ names' m', names.Same (l.counter :: body.binders) names' →
      invariant (trips a d b) names' m' → q.Leads code names' m' goal) :
    q.Leads (.loop l body code) names m goal := by
  have positive := counts.positive
  -- From the check before trip `t` the remaining trips are made one after the other.
  have remaining (k : Nat) : ∀ t, t + k = trips a d b → ∀ names' m',
      names.Same (l.counter :: body.binders) names' →
      names' l.counter = some (.index (a + t * d)) → invariant t names' m' →
      ∃ names'' m'', names.Same (l.counter :: body.binders) names'' ∧
        names'' l.counter = some (.index (a + trips a d b * d)) ∧
        invariant (trips a d b) names'' m'' ∧ ∀ rest, ∃ n,
        q.Reaches n ⟨.check l body :: rest, names'⟩ m' ⟨.check l body :: rest, names''⟩ m'' := by
    induction k with
    | zero =>
      intro t total names' m' same at' holds
      rw [Nat.add_zero] at total
      subst total
      exact ⟨names', m', same, at', holds, fun _ => ⟨0, .refl _ _⟩⟩
    | succ k ih =>
      intro t total names' m' same at' holds
      have below : a + t * d < b := (lt_trips_iff positive).mp (by omega)
      obtain ⟨names₁, m₁, holds₁, same₁, run⟩ := trip t below names' m' same at' holds
      have same' : names.Same (l.counter :: body.binders) names₁ :=
        same.trans (same₁.mono fun x => List.mem_cons_of_mem _)
      have at₁ : names₁ l.counter = some (.index (a + t * d)) := (same₁ _ kept).trans at'
      obtain ⟨names₂, m₂, same₂, at₂, holds₂, further⟩ := ih (t + 1) (by omega) _ m₁
        (same'.bind List.mem_cons_self _) (Names.bind_self ..) holds₁
      refine ⟨names₂, m₂, same₂, at₂, holds₂, fun rest => ?_⟩
      have advance : q.Acts ⟨.advance l body :: rest, names₁⟩ m₁
          ⟨.check l body :: rest, names₁.bind l.counter (.index (a + (t + 1) * d))⟩ m₁ := by
        rw [Nat.succ_mul, ← Nat.add_assoc]
        exact .advance at₁ (counts.stride names₁ same')
      obtain ⟨n, one⟩ := run .done (.advance l body :: rest)
      rw [Code.append_done] at one
      obtain ⟨n', two⟩ := further rest
      exact (Reaches.head (.again at' (counts.bound names' same) below) one).trans (.head .leave (.head advance two))
  have begun : (names.bind l.counter (.index a)) l.counter = some (.index (a + 0 * d)) := by
    rw [Names.bind_self, Nat.zero_mul, Nat.add_zero]
  obtain ⟨names₁, m₁, same₁, at₁, holds₁, run₁⟩ := remaining (trips a d b) 0 (Nat.zero_add _) _ m
    ((Names.Same.refl _ names).bind List.mem_cons_self _) begun start
  obtain ⟨names₂, m₂, reached, same₂, run₂⟩ := finish names₁ m₁ same₁ holds₁
  refine ⟨names₂, m₂, reached, ?_, fun after rest => ?_⟩
  · refine (same₁.mono fun x member => ?_).trans (same₂.mono fun x member => ?_)
    · rcases List.mem_cons.mp member with rfl | member
      · exact List.mem_cons_self
      · exact List.mem_cons_of_mem _ (List.mem_append_left _ member)
    · exact List.mem_cons_of_mem _ (List.mem_append_right _ member)
  · have above : ¬ a + trips a d b * d < b :=
      fun below => Nat.lt_irrefl _ ((lt_trips_iff positive).mpr below)
    obtain ⟨n, one⟩ := run₁ (.run (code ++ after) :: rest)
    obtain ⟨n', two⟩ := run₂ after rest
    exact (Reaches.head (.enter (counts.first names (.refl _ _))) one).trans
      (.head (.over at₁ (counts.bound names₁ same₁) above) two)

end Station.Leads

/-! ### Loops that fill places -/

namespace Station.Leads

variable {q : Station α} {names : Names α} {m : Memory α} {body : Code}

/-- **A loop whose trips have places to themselves.** A trip finds its own places, and those that are no
trip's, as they were, and changes its own ones only. -/
theorem parts {l : Loop} {a d b : Nat} (own : Nat → Set Place) (good : Nat → Place → Cell α → Prop)
    (counts : l.Counts q.worker names (l.counter :: body.binders) a d b)
    (kept : l.counter ∉ body.binders)
    (apart : ∀ i j p, Visits a d b i → Visits a d b j → p ∈ own i → p ∈ own j → i = j)
    (trip : ∀ i, Visits a d b i → ∀ names' m', names.Same (l.counter :: body.binders) names' →
      names' l.counter = some (.index i) →
      (∀ p, (∀ j, Visits a d b j → j ≠ i → p ∉ own j) → m' p = m p) →
      q.Leads body names' m' fun _ m'' =>
        (∀ p ∈ own i, good i p (m'' p)) ∧ ∀ p, p ∉ own i → m'' p = m' p) :
    q.Leads (Code.ofLoop l body) names m fun _ m' =>
      (∀ i, Visits a d b i → ∀ p ∈ own i, good i p (m' p)) ∧
        ∀ p, (∀ i, Visits a d b i → p ∉ own i) → m' p = m p := by
  have positive := counts.positive
  have sameTrip {u t : Nat} (equal : a + u * d = a + t * d) : u = t :=
    Nat.eq_of_mul_eq_mul_right positive (Nat.add_left_cancel equal)
  -- After `t` trips, the places of the trips so far are filled.
  refine range counts (fun t _ m' =>
      (∀ u < t, ∀ p ∈ own (a + u * d), good (a + u * d) p (m' p)) ∧
      ∀ p, (∀ u < t, p ∉ own (a + u * d)) → m' p = m p)
    kept ⟨fun u none => absurd none (Nat.not_lt_zero u), fun _ _ => rfl⟩ ?_ ?_
  · rintro t below names' m' same here ⟨filled, others⟩
    have visits {u : Nat} (le : u ≤ t) : Visits a d b (a + u * d) :=
      ⟨u, rfl, (Nat.add_le_add_left (Nat.mul_le_mul_right d le) a).trans_lt below⟩
    refine (trip _ (visits le_rfl) names' m' same here fun p outside => ?_).weaken ?_
    · refine others p fun u less => outside _ (visits less.le) fun equal => ?_
      exact Nat.ne_of_lt less (sameTrip equal)
    · rintro _ m'' - ⟨now, frame⟩
      refine ⟨fun u less p member => ?_, fun p outside => ?_⟩
      · by_cases last : u = t
        · subst last
          exact now p member
        · have earlier : u < t := (Nat.lt_succ_iff_lt_or_eq.mp less).resolve_right last
          rw [frame p fun other => last (sameTrip
            (apart _ _ p (visits earlier.le) (visits le_rfl) member other))]
          exact filled u earlier p member
      · rw [frame p (outside t (Nat.lt_succ_self t)),
          others p fun u less => outside u (Nat.lt_succ_of_lt less)]
  · rintro names' m' - ⟨filled, others⟩
    refine done ⟨?_, fun p outside => others p fun u less => ?_⟩
    · rintro i ⟨u, rfl, below⟩
      exact filled u ((lt_trips_iff positive).mpr below)
    · exact outside _ ⟨u, rfl, (lt_trips_iff positive).mp less⟩

/-- **Two loops, one inside the other, that fill a grid of places.** Each pass fills the place of its
two counters and no other one; it finds that place, and all outside the grid, as they were. -/
theorem grid {l₁ l₂ : Loop} {a₁ d₁ b₁ a₂ d₂ b₂ : Nat} (place : Nat → Nat → Place)
    (good : Nat → Nat → Cell α → Prop)
    (counts₁ : l₁.Counts q.worker names (l₁.counter :: l₂.counter :: body.binders) a₁ d₁ b₁)
    (counts₂ : l₂.Counts q.worker names (l₁.counter :: l₂.counter :: body.binders) a₂ d₂ b₂)
    (apart : l₁.counter ≠ l₂.counter) (kept₁ : l₁.counter ∉ body.binders)
    (kept₂ : l₂.counter ∉ body.binders)
    (injective : ∀ i j i' j', Visits a₁ d₁ b₁ i → Visits a₂ d₂ b₂ j → Visits a₁ d₁ b₁ i' →
      Visits a₂ d₂ b₂ j' → place i j = place i' j' → i = i' ∧ j = j')
    (pass : ∀ i j, Visits a₁ d₁ b₁ i → Visits a₂ d₂ b₂ j → ∀ names' m',
      names.Same (l₁.counter :: l₂.counter :: body.binders) names' →
      names' l₁.counter = some (.index i) → names' l₂.counter = some (.index j) →
      m' (place i j) = m (place i j) → (∀ p, (∀ i' j', Visits a₁ d₁ b₁ i' → Visits a₂ d₂ b₂ j' →
        p ≠ place i' j') → m' p = m p) →
      q.Leads body names' m' fun _ m'' => good i j (m'' (place i j)) ∧
        ∀ p, p ≠ place i j → m'' p = m' p) :
    q.Leads (Code.ofLoop l₁ (Code.ofLoop l₂ body)) names m fun _ m' =>
      (∀ i j, Visits a₁ d₁ b₁ i → Visits a₂ d₂ b₂ j → good i j (m' (place i j))) ∧
        ∀ p, (∀ i j, Visits a₁ d₁ b₁ i → Visits a₂ d₂ b₂ j → p ≠ place i j) → m' p = m p := by
  have binders : l₁.counter :: (Code.ofLoop l₂ body).binders =
      l₁.counter :: l₂.counter :: body.binders := by simp [Code.ofLoop, Code.binders]
  have kept : l₁.counter ∉ (Code.ofLoop l₂ body).binders := fun member =>
    (List.mem_cons.mp ((List.cons.inj binders).2 ▸ member)).elim apart kept₁
  -- The places of the outer loop are the rows of the grid, those of the inner one stand in a row.
  refine (parts (fun i => {p | ∃ j, Visits a₂ d₂ b₂ j ∧ p = place i j})
    (fun i p c => ∀ j, Visits a₂ d₂ b₂ j → p = place i j → good i j c) (binders ▸ counts₁) kept
    ?_ ?_).weaken ?_
  · rintro i i' p visits visits' ⟨j, inside, rfl⟩ ⟨j', inside', equal⟩
    exact (injective i j i' j' visits inside visits' inside' equal).1
  · rintro i visits names' m' same at₁ before
    rw [binders] at same
    refine (parts (fun j => {place i j}) (fun j _ c => good i j c)
      (counts₂.after same fun x => List.mem_cons_of_mem _) kept₂ ?_ ?_).weaken ?_
    · rintro j j' p inside inside' rfl equal
      exact (injective i j i j' visits inside visits inside' equal).2
    · intro j inside names'' m'' same' at₂ before'
      have at₁' : names'' l₁.counter = some (.index i) := by
        rw [same' _ fun member => (List.mem_cons.mp member).elim apart kept₁, at₁]
      refine (pass i j visits inside names'' m''
        (same.trans (same'.mono fun x => List.mem_cons_of_mem _)) at₁' at₂ ?_ fun p outside => ?_).weaken
          ?_
      · rw [before' _ fun j' inside' other equal => other
            (injective i j i j' visits inside visits inside' equal).2.symm,
          before _ fun i' visits' other ⟨j', inside', equal⟩ => other
            (injective i j i' j' visits inside visits' inside' equal).1.symm]
      · rw [before' p fun j' inside' _ => outside i j' visits inside',
          before p fun i' visits' _ ⟨j', inside', equal⟩ => outside i' j' visits' inside' equal]
      · rintro _ m₃ - ⟨now, frame⟩
        exact ⟨fun p same => same ▸ now, frame⟩
    · rintro _ m'' - ⟨filled, frame⟩
      refine ⟨?_, fun p outside => frame p fun j inside equal => outside ⟨j, inside, equal⟩⟩
      rintro p - j inside rfl
      exact filled j inside _ rfl
  · rintro _ m' - ⟨filled, frame⟩
    refine ⟨fun i j visits inside => filled i visits _ ⟨j, inside, rfl⟩ j inside rfl,
      fun p outside => frame p fun i visits ⟨j, inside, equal⟩ => outside i j visits inside equal⟩

end Station.Leads

end TunedKernel
