/-
**What code accesses.**

* `Watch`, `Watch.Passes` — code keeps to the accesses that a worker is allowed, whatever comes after it.
  `Passes.step`, `Passes.append`, `Passes.guarded` and `Passes.range` are its rules, one for each form
  of code; `Passes.grid` and `Passes.split` are those of loops that stand together.
* `Access.Inside` — an access to an array, inside its dimensions; `Access.Meets` — an access to the
  element of a leaf at a point.
* `Expr.accesses_term` — the term of an expression accesses its leaves, and what its product stands for.
* `Statement.accesses_storeStep` — the step of a statement accesses its target and the leaves of its
  value besides.
-/

import TunedKernel.Proofs.Execution.Outline
import TunedKernel.Proofs.Execution.Signature
import TunedKernel.Proofs.Execution.Split

namespace TunedKernel

/-! ### Code that keeps to its accesses -/

/-- A worker, with the accesses that it is allowed. -/
structure Watch where
  worker : Worker
  allowed : Names Unit → Access → Prop

/-- A step binds no names but its own. -/
theorem Step.names?_same {w : Worker} {s : Step} {names names' : Names Unit}
    (done : s.names? w names = some names') : names.Same s.binder?.toList names' := by
  cases s with
  | declare type name value =>
    cases type with
    | index =>
      obtain ⟨n, -, rfl⟩ := Option.map_eq_some_iff.mp done
      exact (Names.Same.refl _ names).bind (by simp [binder?]) _
    | packed type width =>
      cases done
      exact (Names.Same.refl _ names).bind (by simp [binder?]) _
  | declareLocal memory =>
    cases done
    exact (Names.Same.refl _ names).bind (by simp [binder?]) _
  | declareArray type name dims =>
    cases done
    exact (Names.Same.refl _ names).bind (by simp [binder?]) _
  | store target op value =>
    cases done
    exact Names.Same.refl _ names
  | barrier =>
    cases done
    exact Names.Same.refl _ names

/-- Code keeps to the accesses allowed, whatever comes after it; it binds none but its own names, and
leads to a goal on them. -/
def Watch.Passes (q : Watch) (code : Code) (names : Names Unit) (goal : Names Unit → Prop) : Prop :=
  ∀ after rest, (∀ names', names.Same code.binders names' → goal names' →
    Thread.Keeps q.worker q.allowed ⟨.run after :: rest, names'⟩) →
    Thread.Keeps q.worker q.allowed ⟨.run (code ++ after) :: rest, names⟩

namespace Watch.Passes

variable {q : Watch} {names : Names Unit} {goal : Names Unit → Prop}

theorem done (here : goal names) : q.Passes .done names goal :=
  fun _ _ next => next names (Names.Same.refl _ _) here

/-- The goal may be weakened, also by what the code leaves alone. -/
theorem weaken {code : Code} {stronger : Names Unit → Prop} (passes : q.Passes code names stronger)
    (implies : ∀ names', names.Same code.binders names' → stronger names' → goal names') :
    q.Passes code names goal :=
  fun after rest next => passes after rest fun names' same reached =>
    next names' same (implies names' same reached)

theorem step {s : Step} {code : Code} {names' : Names Unit}
    (here : ∀ a ∈ s.accesses, q.allowed names a) (moves : s.names? q.worker names = some names')
    (next : q.Passes code names' goal) : q.Passes (.step s code) names goal := by
  intro after rest further
  have same := Step.names?_same moves
  refine Thread.Keeps.of_next ⟨.run (code ++ after) :: rest, names'⟩ ?_ here
    (next after rest fun names'' same' reached => further names'' (Names.Same.trans
      (same.mono fun x => List.mem_append_left _) (same'.mono fun x => List.mem_append_right _))
      reached)
  show (s.names? q.worker names).map _ = _
  rw [moves]
  rfl

theorem append {first second : Code}
    (passes : q.Passes first names fun names' => q.Passes second names' goal) :
    q.Passes (first ++ second) names goal := by
  intro after rest further
  rw [Code.append_assoc]
  refine passes (second ++ after) rest fun names' same next => next after rest ?_
  intro names'' same' reached
  exact further names'' ((same.mono fun x member => Code.mem_binders_append.mpr (Or.inl member)).trans
    (same'.mono fun x member => Code.mem_binders_append.mpr (Or.inr member))) reached

/-- Two pieces of code, the second of which passes whatever the first one leads to. -/
theorem seq {first second : Code} (one : q.Passes first names fun _ => True)
    (two : ∀ names', names.Same first.binders names' → q.Passes second names' goal) :
    q.Passes (first ++ second) names goal :=
  append (one.weaken fun names' same _ => two names' same)

/-- Steps one after the other, none of which depends on what the others bind. -/
theorem each {steps : List Step}
    (here : ∀ s ∈ steps, ∀ names', names.Same (Code.ofSteps steps).binders names' →
      (s.names? q.worker names').isSome ∧ ∀ a ∈ s.accesses, q.allowed names' a) :
    q.Passes (Code.ofSteps steps) names fun _ => True := by
  suffices general : ∀ (rest : List Step) names', (∀ s ∈ rest, s ∈ steps) →
      names.Same (Code.ofSteps steps).binders names' →
      q.Passes (Code.ofSteps rest) names' fun _ => True from
    general steps names (fun s member => member) (Names.Same.refl _ _)
  intro rest
  induction rest with
  | nil => exact fun names' _ _ => done trivial
  | cons s rest ih =>
    intro names' sub same
    obtain ⟨able, allowed⟩ := here s (sub s List.mem_cons_self) names' same
    obtain ⟨names'', moves⟩ := Option.isSome_iff_exists.mp able
    refine step allowed moves (ih names'' (fun s' member => sub s' (List.mem_cons_of_mem _ member)) ?_)
    refine same.trans ((Step.names?_same moves).mono fun x bound => ?_)
    rw [Code.binders_ofSteps, List.mem_flatMap]
    exact ⟨s, sub s List.mem_cons_self, bound⟩

/-- Pieces of code one after the other, none of which depends on what the others bind. -/
theorem join {pieces : List Code}
    (here : ∀ piece ∈ pieces, ∀ names', names.Same (Code.join pieces).binders names' →
      q.Passes piece names' fun _ => True) : q.Passes (Code.join pieces) names fun _ => True := by
  suffices general : ∀ (rest : List Code) names', (∀ piece ∈ rest, piece ∈ pieces) →
      names.Same (Code.join pieces).binders names' →
      q.Passes (Code.join rest) names' fun _ => True from
    general pieces names (fun piece member => member) (Names.Same.refl _ _)
  intro rest
  induction rest with
  | nil => exact fun names' _ _ => done trivial
  | cons piece rest ih =>
    intro names' sub same
    show q.Passes (piece ++ Code.join rest) names' _
    refine seq (here piece (sub piece List.mem_cons_self) names' same) fun names'' same' => ?_
    refine ih names'' (fun p member => sub p (List.mem_cons_of_mem _ member)) ?_
    refine same.trans (same'.mono fun x bound => Code.mem_binders_join.mpr ?_)
    exact ⟨piece, sub piece List.mem_cons_self, bound⟩

/-- A declaration of an index. -/
theorem index {name : String} {value : Term} {n : Nat} {code : Code}
    (number : value.number? q.worker names = some n)
    (next : q.Passes code (names.bind name (.index n)) goal) :
    q.Passes (.step (.declare .index name value) code) names goal := by
  refine step (fun a member => ?_) (Option.map_eq_some_iff.mpr ⟨_, number, rfl⟩) next
  rw [Step.accesses, Term.accesses_of_number? number] at member
  cases member

/-- Declarations of indices. -/
theorem declares {steps : List Step} {code : Code} {names' : Names Unit}
    (declares : names.Declares q.worker steps names') (next : q.Passes code names' goal) :
    q.Passes (Code.ofSteps steps ++ code) names goal := by
  induction declares with
  | nil => exact next
  | index number _ ih => exact index number (ih next)

/-- A block under a condition, which need pass only where the condition holds. -/
theorem guarded {condition : Term} {body code : Code} {holds : Bool}
    (decided : condition.holds? q.worker names = some holds)
    (inner : holds = true → q.Passes body names fun _ => True)
    (next : ∀ names', names.Same body.binders names' → q.Passes code names' goal) :
    q.Passes (.guarded condition body code) names goal := by
  intro after rest further
  have after' (names' : Names Unit) (same : names.Same body.binders names') :
      Thread.Keeps q.worker q.allowed ⟨.run (code ++ after) :: rest, names'⟩ :=
    next names' same after rest fun names'' same' reached => further names''
      ((same.mono fun x => List.mem_append_left _).trans
        (same'.mono fun x => List.mem_append_right _)) reached
  have moves : Thread.next? q.worker ⟨.run (.guarded condition body code ++ after) :: rest, names⟩ =
      some ⟨if holds then .run body :: .run (code ++ after) :: rest
        else .run (code ++ after) :: rest, names⟩ := by
    show (condition.holds? q.worker names).map _ = _
    rw [decided]
    rfl
  refine .of_next _ moves (fun a member => ?_) ?_
  · rw [show Thread.accesses _ = condition.accesses from rfl, Term.accesses_of_holds? decided] at member
    cases member
  · cases holds with
    | false => exact after' names (Names.Same.refl _ _)
    | true =>
      have passes := inner rfl .done (.run (code ++ after) :: rest)
      rw [Code.append_done] at passes
      exact passes fun names' same _ => .of_next _ rfl nofun (after' names' same)

/-- **A loop that counts.** -/
theorem range {l : Loop} {body code : Code} {a d b : Nat}
    (counts : l.Counts q.worker names (l.counter :: body.binders) a d b)
    (kept : l.counter ∉ body.binders)
    (trip : ∀ i, Visits a d b i → ∀ names', names.Same (l.counter :: body.binders) names' →
      names' l.counter = some (.index i) → q.Passes body names' fun _ => True)
    (finish : ∀ names', names.Same (l.counter :: body.binders) names' → q.Passes code names' goal) :
    q.Passes (.loop l body code) names goal := by
  intro after rest further
  have after' (names' : Names Unit) (same : names.Same (l.counter :: body.binders) names') :
      Thread.Keeps q.worker q.allowed ⟨.run (code ++ after) :: rest, names'⟩ := by
    refine finish names' same after rest fun names'' same' reached => further names'' ?_ reached
    refine (same.mono fun x member => ?_).trans (same'.mono fun x member => ?_)
    · rcases List.mem_cons.mp member with rfl | member
      · exact List.mem_cons_self
      · exact List.mem_cons_of_mem _ (List.mem_append_left _ member)
    · exact List.mem_cons_of_mem _ (List.mem_append_right _ member)
  -- From the check before trip `t` the remaining trips are made one after the other.
  have remaining (k : Nat) : ∀ t, t + k = trips a d b → ∀ names',
      names.Same (l.counter :: body.binders) names' →
      names' l.counter = some (.index (a + t * d)) →
      Thread.Keeps q.worker q.allowed ⟨.check l body :: .run (code ++ after) :: rest, names'⟩ := by
    induction k with
    | zero =>
      intro t total names' same at'
      have above : ¬ a + t * d < b := fun below => by
        have less := (lt_trips_iff counts.positive).mpr below
        omega
      have decided : l.condition.holds? q.worker names' = some false := by
        rw [Loop.condition, Term.holds?, Term.number?_name at', counts.bound names' same]
        exact congrArg some (decide_eq_false above)
      refine .of_next ⟨.run (code ++ after) :: rest, names'⟩ ?_ (fun a member => ?_)
        (after' names' same)
      · show (l.condition.holds? q.worker names').map _ = _
        rw [decided]
        rfl
      · rw [show Thread.accesses _ = l.condition.accesses from rfl,
          Term.accesses_of_holds? decided] at member
        cases member
    | succ k ih =>
      intro t total names' same at'
      have below : a + t * d < b := (lt_trips_iff counts.positive).mp (by omega)
      have decided : l.condition.holds? q.worker names' = some true := by
        rw [Loop.condition, Term.holds?, Term.number?_name at', counts.bound names' same]
        exact congrArg some (decide_eq_true below)
      refine .of_next ⟨.run body :: .advance l body :: .run (code ++ after) :: rest, names'⟩
        ?_ (fun a member => ?_) ?_
      · show (l.condition.holds? q.worker names').map _ = _
        rw [decided]
        rfl
      · rw [show Thread.accesses _ = l.condition.accesses from rfl,
          Term.accesses_of_holds? decided] at member
        cases member
      have passes := trip _ ⟨t, rfl, below⟩ names' same at' .done
        (.advance l body :: .run (code ++ after) :: rest)
      rw [Code.append_done] at passes
      refine passes fun names₁ same₁ _ => .of_next _ rfl (List.forall_mem_nil _) ?_
      have same' : names.Same (l.counter :: body.binders) names₁ :=
        same.trans (same₁.mono fun x => List.mem_cons_of_mem _)
      have next : l.next.number? q.worker names₁ = some (a + (t + 1) * d) := by
        rw [Nat.succ_mul, ← Nat.add_assoc]
        exact Term.number?_add (Term.number?_name ((same₁ _ kept).trans at'))
          (counts.stride names₁ same')
      refine .of_next ⟨.check l body :: .run (code ++ after) :: rest,
        names₁.bind l.counter (.index (a + (t + 1) * d))⟩ ?_ (fun a member => ?_)
        (ih (t + 1) (by omega) _ (same'.bind List.mem_cons_self _) (Names.bind_self ..))
      · show (l.next.number? q.worker names₁).map _ = _
        rw [next]
        rfl
      · rw [show Thread.accesses _ = l.next.accesses from rfl, Term.accesses_of_number? next] at member
        cases member
  have first := counts.first names (Names.Same.refl _ _)
  refine .of_next ⟨.check l body :: .run (code ++ after) :: rest,
    names.bind l.counter (.index a)⟩ ?_ (fun a member => ?_)
    (remaining (trips a d b) 0 (Nat.zero_add _) _
      ((Names.Same.refl _ names).bind List.mem_cons_self _) ?_)
  · show (l.first.number? q.worker names).map _ = _
    rw [first]
    rfl
  · rw [show Thread.accesses _ = l.first.accesses from rfl, Term.accesses_of_number? first] at member
    cases member
  · rw [Names.bind_self, Nat.zero_mul, Nat.add_zero]

/-- A loop alone. -/
theorem loop {l : Loop} {body : Code} {a d b : Nat}
    (counts : l.Counts q.worker names (l.counter :: body.binders) a d b)
    (kept : l.counter ∉ body.binders)
    (trip : ∀ i, Visits a d b i → ∀ names', names.Same (l.counter :: body.binders) names' →
      names' l.counter = some (.index i) → q.Passes body names' fun _ => True) :
    q.Passes (Code.ofLoop l body) names fun _ => True :=
  range counts kept trip fun _ _ => done trivial

/-- **Two loops, one inside the other**, whose block is gone through at the elements of a grid. -/
theorem grid {l₁ l₂ : Loop} {body : Code} {a₁ d₁ b₁ a₂ d₂ b₂ : Nat}
    (counts₁ : l₁.Counts q.worker names (l₁.counter :: l₂.counter :: body.binders) a₁ d₁ b₁)
    (counts₂ : l₂.Counts q.worker names (l₁.counter :: l₂.counter :: body.binders) a₂ d₂ b₂)
    (apart : l₁.counter ≠ l₂.counter) (kept₁ : l₁.counter ∉ body.binders)
    (kept₂ : l₂.counter ∉ body.binders)
    (pass : ∀ i j, Visits a₁ d₁ b₁ i → Visits a₂ d₂ b₂ j → ∀ names',
      names.Same (l₁.counter :: l₂.counter :: body.binders) names' →
      names' l₁.counter = some (.index i) → names' l₂.counter = some (.index j) →
      q.Passes body names' fun _ => True) :
    q.Passes (Code.ofLoop l₁ (Code.ofLoop l₂ body)) names fun _ => True := by
  have bound : (Code.ofLoop l₂ body).binders = l₂.counter :: body.binders :=
    congrArg (l₂.counter :: ·) (List.append_nil _)
  refine .loop (by rw [bound]; exact counts₁) ?_ fun i row names₁ same₁ at₁ => ?_
  · rw [bound]
    exact fun member => (List.mem_cons.mp member).elim apart kept₁
  · rw [bound] at same₁
    refine .loop (counts₂.after same₁ fun x => List.mem_cons_of_mem _) kept₂
      fun j col names₂ same₂ at₂ => ?_
    refine pass i j row col names₂ (same₁.trans (same₂.mono fun x => List.mem_cons_of_mem _)) ?_ at₂
    exact (same₂ _ fun member => (List.mem_cons.mp member).elim apart kept₁).trans at₁

/-- **A walk over a range that is split**, whose block is gone through at elements of the range only. -/
theorem split {strided : Bool} {counter : String} {dimension : Nat} {bound : Term} {body : Code}
    {x workers n : Nat} (number : q.worker.answer? .globalId dimension = some x)
    (size : q.worker.answer? .globalSize dimension = some workers) (worker : x < workers)
    (kept : counter ∉ body.binders)
    (fresh : ∀ y ∈ (Walk.split strided counter dimension bound).declared, y ∉ body.binders)
    (known : ∀ names', names.Same ((Walk.split strided counter dimension bound).declared ++
      counter :: body.binders) names' → bound.number? q.worker names' = some n)
    (trip : ∀ i < n, ∀ names', names.Same ((Walk.split strided counter dimension bound).declared ++
      counter :: body.binders) names' → names' counter = some (.index i) →
      q.Passes body names' fun _ => True) :
    q.Passes ((Walk.split strided counter dimension bound).around body) names fun _ => True := by
  obtain ⟨names₁, declared, same, counts⟩ := Walk.exists_declares_split (counter :: body.binders)
    (Nat.zero_lt_of_lt worker) number size known fun y member inside =>
      (List.mem_cons.mp inside).elim (Walk.ne_of_mem_declared_split member) (fresh y member)
  rw [Walk.around_split]
  refine .declares declared (.loop (by rw [Walk.counter_split]; exact counts)
    (by rw [Walk.counter_split]; exact kept) fun i visits names' same' at' => ?_)
  rw [Walk.counter_split] at same' at'
  exact trip i ((Split.visits_iff worker).mp visits).1 names'
    ((same.mono fun y => List.mem_append_left _).trans
      (same'.mono fun y => List.mem_append_right _)) at'

/-- **A thread that has only passing code to do** keeps to what is allowed. -/
theorem keeps {code : Code} (passes : q.Passes code names goal) :
    Thread.Keeps q.worker q.allowed ⟨[.run code], names⟩ := by
  have run := passes .done []
  rw [Code.append_done] at run
  exact run fun names _ _ => .of_next _ rfl nofun (.ended names)

end Watch.Passes

/-! ### Arrays -/

/-- An access to one of the arrays given, inside its dimensions. -/
def Access.Inside (arrays : List (String × List Nat)) {α : Type} (w : Worker) (names : Names α)
    (a : Access) : Prop :=
  ∃ dims ns, (a.array, dims) ∈ arrays ∧ a.subscripts.mapM (fun s => s.number? w names) = some ns ∧
    Term.inside ns dims = true

namespace Term

variable {α : Type} {w : Worker} {names : Names α}

theorem accessesBefore_element (base : Term) (subscripts after : List Term) :
    (element base subscripts).accessesBefore after =
      base.accessesBefore (subscripts ++ after) ++ subscripts.flatMap accesses := by
  induction subscripts generalizing base with
  | nil => rw [List.flatMap_nil, List.append_nil]; rfl
  | cons s rest ih =>
    show (element (index base s) rest).accessesBefore after = _
    rw [ih, accessesBefore, List.append_assoc]
    rfl

/-- Subscripts that are indices make no accesses themselves. -/
theorem flatMap_accesses {subscripts : List Term} {ns : List Nat}
    (numbers : subscripts.mapM (fun s => s.number? w names) = some ns) :
    subscripts.flatMap accesses = [] := by
  induction subscripts generalizing ns with
  | nil => rfl
  | cons s rest ih =>
    rw [List.mapM_cons] at numbers
    obtain ⟨n, first, numbers⟩ := Option.bind_eq_some_iff.mp numbers
    obtain ⟨ns', further, -⟩ := Option.bind_eq_some_iff.mp numbers
    rw [List.flatMap_cons, accesses_of_number? first, ih further]
    rfl

/-- An element of an array is accessed once. -/
theorem accesses_element {array : String} {subscripts : List Term} {ns : List Nat}
    (nonempty : subscripts ≠ [])
    (numbers : subscripts.mapM (fun s => s.number? w names) = some ns) :
    (element (.name array) subscripts).accesses = [⟨array, subscripts⟩] := by
  rw [accesses, accessesBefore_element, flatMap_accesses numbers, List.append_nil, List.append_nil,
    accessesBefore, if_neg nonempty]

@[simp] theorem accesses_combine (op : ReduceOp) (s t : Term) :
    (op.combine s t).accesses = s.accesses ++ t.accesses := by cases op <;> rfl

@[simp] theorem accesses_apply (op : BinaryOp) (s t : Term) :
    (op.apply s t).accesses = s.accesses ++ t.accesses := by cases op <;> rfl

@[simp] theorem accesses_applyFn (func : UnaryFn) (t : Term) (type : NumericType) :
    (func.apply t type).accesses = t.accesses := by cases func <;> rfl

@[simp] theorem accesses_neutral (op : ReduceOp) (type : NumericType) :
    (op.neutral type).accesses = [] := by cases op <;> cases type <;> rfl

end Term

/-- An element of an array whose subscripts lie inside its dimensions. -/
theorem LocalMemory.inside_access {α : Type} {w : Worker} {names : Names α}
    {arrays : List (String × List Nat)} {memory : LocalMemory} {subscripts : List Term}
    {ns : List Nat} (declared : (memory.name, memory.dims) ∈ arrays) (nonempty : subscripts ≠ [])
    (numbers : subscripts.mapM (fun s => s.number? w names) = some ns)
    (inside : Term.inside ns memory.dims = true) :
    ∀ a ∈ (memory.access subscripts).accesses, a.Inside arrays w names := by
  intro a member
  rw [access, Term.accesses_element nonempty numbers, List.mem_singleton] at member
  subst member
  exact ⟨memory.dims, ns, declared, numbers, inside⟩

/-! ### Leaves -/

/-- An access to the element of a leaf at a point. -/
def Access.Meets {α : Type} (bindings : Bindings) (w : Worker) (names : Names α) (leaf : Expr)
    (point : Point) (a : Access) : Prop :=
  ∃ buffer n t, leaf.place? bindings point = some (.global buffer n) ∧ a = ⟨buffer, [t]⟩ ∧
    t.number? w names = some n

/-- What a scope makes addressable lies at a point. -/
structure Scope.At {α : Type} (scope : Scope) (w : Worker) (names : Names α) (point : Point) :
    Prop where
  index : ∀ t, scope.index = some t → t.number? w names = some point.index
  row : ∀ t, scope.row = some t → t.number? w names = some point.row
  col : ∀ t, scope.col = some t → t.number? w names = some point.col

namespace Expr

variable {α : Type} {w : Worker} {names : Names α} {scope : Scope} {point : Point}
  {bindings : Bindings} {a : Access}

/-- The access to a single element. -/
theorem meets_index {leaf : Expr} (buffer : String) {subscript : Term} {n : Nat}
    (stored : leaf.place? bindings point = some (.global buffer n))
    (number : subscript.number? w names = some n)
    (member : a ∈ (Term.index (.name buffer) subscript).accesses) :
    a.Meets bindings w names leaf point := by
  have sole : (Term.index (.name buffer) subscript).accesses =
      ⟨buffer, [subscript]⟩ :: subscript.accesses := rfl
  rw [sole, Term.accesses_of_number? number, List.mem_singleton] at member
  exact ⟨buffer, n, subscript, stored, member, number⟩

/-- The access to an element of a matrix. -/
theorem meets_element {m : MatrixOperand} {row col : Term} {i j : Nat}
    (known : ∀ extent ∈ (matrix m).extents, extent.Known bindings names)
    (atRow : row.number? w names = some i) (atCol : col.number? w names = some j)
    (member : a ∈ (m.element row col).accesses) :
    a.Meets bindings w names (.matrix m) { row := i, col := j } :=
  meets_index _ rfl (MatrixOperand.number?_offset (known m.internalRows (by simp [extents]))
    (known m.internalCols (by simp [extents])) atRow atCol) member

/-- **The term of an expression accesses its leaves at the point of the scope**, and what its product
stands for. -/
theorem accesses_term (at' : scope.At w names point) {x : Expr} {t : Term}
    (ok : x.term scope = .ok t)
    (known : ∀ leaf ∈ x.leaves, ∀ extent ∈ leaf.extents, extent.Known bindings names)
    (member : a ∈ t.accesses) : (∃ leaf ∈ x.leaves, a.Meets bindings w names leaf point) ∨
      ∃ p, scope.product = some p ∧ a ∈ p.accesses := by
  induction x generalizing t with
  | scalar s =>
    cases s with
    | host name =>
      cases ok
      cases member
    | device name =>
      cases ok
      exact Or.inl ⟨_, List.mem_cons_self, meets_index name rfl rfl member⟩
    | literal text =>
      cases ok
      cases member
  | vector v =>
    cases addressed : scope.index with
    | none => simp [term, VectorOperand.term, addressed] at ok
    | some index =>
      simp only [term, VectorOperand.term, addressed] at ok
      cases ok
      exact Or.inl ⟨_, List.mem_cons_self, meets_index _ rfl (at'.index index addressed) member⟩
  | matrix m =>
    cases atRow : scope.row with
    | none => simp [term, MatrixOperand.term, atRow] at ok
    | some row =>
      cases atCol : scope.col with
      | none => simp [term, MatrixOperand.term, atRow, atCol] at ok
      | some col =>
        simp only [term, MatrixOperand.term, atRow, atCol] at ok
        cases ok
        exact Or.inl ⟨_, List.mem_cons_self, meets_element (known _ List.mem_cons_self)
          (at'.row row atRow) (at'.col col atCol) member⟩
  | binary op lhs rhs left right =>
    obtain ⟨s, first, ok⟩ := bind_eq_ok_iff.mp ok
    obtain ⟨u, second, ok⟩ := bind_eq_ok_iff.mp ok
    cases ok
    rw [Term.accesses_apply] at member
    rcases List.mem_append.mp member with member | member
    · refine (left first (fun leaf inside => known leaf (List.mem_append_left _ inside)) member).imp_left
        ?_
      rintro ⟨leaf, inside, meets⟩
      exact ⟨leaf, List.mem_append_left _ inside, meets⟩
    · refine (right second (fun leaf inside => known leaf (List.mem_append_right _ inside))
        member).imp_left ?_
      rintro ⟨leaf, inside, meets⟩
      exact ⟨leaf, List.mem_append_right _ inside, meets⟩
  | unary func operand ih =>
    obtain ⟨s, inner, ok⟩ := bind_eq_ok_iff.mp ok
    cases ok
    rw [Term.accesses_applyFn] at member
    exact ih inner known member
  | fold combine reduce lhs | product combine reduce lhs rhs =>
    cases addressed : scope.product with
    | none => simp [term, Scope.productTerm, addressed] at ok
    | some folded =>
      simp only [term, Scope.productTerm, addressed] at ok
      cases ok
      exact Or.inr ⟨t, rfl, member⟩

end Expr

end TunedKernel
