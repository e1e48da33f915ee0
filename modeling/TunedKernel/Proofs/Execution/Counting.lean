/-
**Code whose loops come to their ends.**

A loop that strides comes to a bound that its stride reaches; a loop that counts by ones always does.

* `Term.Indexes`, `Term.Decides` — what an index and a condition are made of where some names stand for
  indices; `Term.Stands` — an index that is made of sizes, and what it stands for.
* `Code.Counts` — code whose indices can be formed where they stand, and whose loops leave their
  counters and bounds alone and reach the bounds. A loop whose bound is zero may hold any code.
* `Code.Counts.winds` — counting code comes to its end.
-/

import TunedKernel.Proofs.Execution.Watch
import TunedKernel.Proofs.Execution.Wrapping

namespace TunedKernel

/-! ### Indices and conditions -/

/-- Names that stand for indices of 32 bits. -/
def Names.Indexed (names : Names Unit) (scope : List String) : Prop :=
  ∀ x ∈ scope, ∃ n < 2 ^ 32, names x = some (.index n)

namespace Names.Indexed

variable {names : Names Unit} {scope more : List String}

theorem mono (indexed : names.Indexed more) (sub : ∀ x ∈ scope, x ∈ more) : names.Indexed scope :=
  fun x member => indexed x (sub x member)

/-- A further name may stand for an index. -/
theorem bind_index (indexed : names.Indexed scope) (x : String) {n : Nat} (small : n < 2 ^ 32) :
    (names.bind x (.index n)).Indexed (x :: scope) := by
  intro y member
  by_cases here : y = x
  · exact ⟨n, small, by rw [here, Names.bind_self]⟩
  · rw [Names.bind_of_ne here]
    exact indexed y ((List.mem_cons.mp member).resolve_left here)

/-- Sizes stand for indices too, as long as they stand for what is given. -/
theorem append {given : Names Unit} {sizes : List String} (indexed : names.Indexed scope)
    (known : given.Indexed sizes) (agree : ∀ x ∈ sizes, names x = given x) :
    names.Indexed (sizes ++ scope) := by
  intro x member
  rcases List.mem_append.mp member with size | inside
  · obtain ⟨n, small, stands⟩ := known x size
    exact ⟨n, small, (agree x size).trans stands⟩
  · exact indexed x inside

/-- A name outside the scope may stand for anything. -/
theorem bind_other (indexed : names.Indexed scope) {x : String} (fresh : x ∉ scope)
    (binding : Binding Unit) : (names.bind x binding).Indexed scope := by
  intro y member
  have other : y ≠ x := fun here => fresh (here ▸ member)
  rw [Names.bind_of_ne other]
  exact indexed y member

end Names.Indexed

/-- The runtime answers a worker with positive sizes. -/
def Worker.Positive (w : Worker) : Prop :=
  ∀ dimension, ∀ n ∈ w.answer? .globalSize dimension, 0 < n

namespace Term

/-- A term that divides: a positive constant, or the number of workers. -/
def Divides : Term → Prop
  | count n => 0 < n
  | query .globalSize _ => True
  | _ => False

/-- An index that is made of these names, constants and answers of the runtime. -/
def Indexes (scope : List String) : Term → Prop
  | name x => x ∈ scope
  | number _ | count _ => True
  | query _ dimension => dimension < 3
  | binary op lhs rhs => lhs.Indexes scope ∧ rhs.Indexes scope ∧
      (op = .add ∨ op = .sub ∨ op = .mul ∨ (op = .div ∨ op = .mod) ∧ rhs.Divides)
  | paren inner => inner.Indexes scope
  | call₂ function first second =>
    function = "min" ∧ first.Indexes scope ∧ second.Indexes scope
  | cast type operand => type = ValueType.index.text ∧ operand.Indexes scope
  | verbatim _ | negate _ | call _ _ | index _ _ | lane _ _ => False

/-- A condition on such indices. -/
def Decides (scope : List String) : Term → Prop
  | binary .less lhs rhs | binary .equal lhs rhs => lhs.Indexes scope ∧ rhs.Indexes scope
  | binary .both lhs rhs => lhs.Decides scope ∧ rhs.Decides scope
  | _ => False

variable {w : Worker} {names names' : Names Unit} {scope more : List String} {t : Term}

theorem Indexes.mono (indexes : t.Indexes scope) (sub : ∀ x ∈ scope, x ∈ more) :
    t.Indexes more := by
  induction t with
  | name x => exact sub x indexes
  | number n | count n => trivial
  | query question dimension => exact indexes
  | binary op lhs rhs left right =>
    exact ⟨left indexes.1, right indexes.2.1, indexes.2.2⟩
  | paren inner ih => exact ih indexes
  | call₂ function first second left right =>
    exact ⟨indexes.1, left indexes.2.1, right indexes.2.2⟩
  | cast type operand ih => exact ⟨indexes.1, ih indexes.2⟩
  | verbatim _ | negate _ _ | call _ _ _ | index _ _ _ _ | lane _ _ _ => exact indexes.elim

/-- A number that divides is not zero. -/
theorem Divides.positive (divides : t.Divides) (positive : w.Positive) {n : Word × Nat}
    (number : t.unsigned? w names = some n) : 0 < n.2 := by
  cases t with
  | count m =>
    cases number
    exact divides
  | query question dimension =>
    cases question with
    | globalSize =>
      obtain ⟨m, answer, rfl⟩ := Option.map_eq_some_iff.mp number
      exact positive dimension m answer
    | globalId | localId | groupId | localSize => exact divides.elim
  | _ => exact divides.elim

/-- The runtime answers along three dimensions. -/
theorem exists_answer (w : Worker) (question : Query) {dimension : Nat} (below : dimension < 3) :
    ∃ n, w.answer? question dimension = some n := by
  match dimension, below with
  | 0, _ | 1, _ | 2, _ => cases question <;> exact ⟨_, rfl⟩

/-- An index can be formed. -/
theorem Indexes.exists_unsigned (indexes : t.Indexes scope) (positive : w.Positive)
    (indexed : names.Indexed scope) : ∃ n, t.unsigned? w names = some n := by
  induction t with
  | name x =>
    obtain ⟨n, -, bound⟩ := indexed x indexes
    exact ⟨(.bits32, n), by rw [unsigned?, bound]⟩
  | number n | count n => exact ⟨_, rfl⟩
  | query question dimension =>
    obtain ⟨n, answer⟩ := exists_answer w question indexes
    exact ⟨(.bits64, n), by rw [unsigned?, answer]; rfl⟩
  | binary op lhs rhs left right =>
    obtain ⟨a, first⟩ := left indexes.1
    obtain ⟨b, second⟩ := right indexes.2.1
    rw [unsigned?, first, second]
    rcases indexes.2.2 with rfl | rfl | rfl | ⟨rfl | rfl, divides⟩
    · exact ⟨_, rfl⟩
    · exact ⟨_, rfl⟩
    · exact ⟨_, rfl⟩
    · have nonzero : b.2 ≠ 0 := (divides.positive positive second).ne'
      exact ⟨(a.1.join b.1, a.2 / b.2), by simp [TermOp.wrapped?, nonzero]⟩
    · have nonzero : b.2 ≠ 0 := (divides.positive positive second).ne'
      exact ⟨(a.1.join b.1, a.2 % b.2), by simp [TermOp.wrapped?, nonzero]⟩
  | paren inner ih => exact ih indexes
  | call₂ function first second left right =>
    obtain ⟨rfl, one, two⟩ := indexes
    obtain ⟨a, first⟩ := left one
    obtain ⟨b, second⟩ := right two
    exact ⟨(a.1.join b.1, min a.2 b.2), by simp [unsigned?, first, second]⟩
  | cast type operand ih =>
    obtain ⟨rfl, inner⟩ := indexes
    obtain ⟨a, number⟩ := ih inner
    exact ⟨(.bits32, a.2 % Word.bits32.limit), by simp [unsigned?, number]⟩
  | verbatim _ | negate _ _ | call _ _ _ | index _ _ _ _ | lane _ _ _ => exact indexes.elim

/-- An index depends on its names only. -/
theorem Indexes.unsigned_congr (indexes : t.Indexes scope)
    (agree : ∀ x ∈ scope, names' x = names x) : t.unsigned? w names' = t.unsigned? w names := by
  induction t with
  | name x => rw [unsigned?, unsigned?, agree x indexes]
  | number n | count n => rfl
  | query question dimension => rfl
  | binary op lhs rhs left right => rw [unsigned?, unsigned?, left indexes.1, right indexes.2.1]
  | paren inner ih => exact ih indexes
  | call₂ function first second left right =>
    rw [unsigned?, unsigned?, left indexes.2.1, right indexes.2.2]
  | cast type operand ih => rw [unsigned?, unsigned?, ih indexes.2]
  | verbatim _ | negate _ _ | call _ _ _ | index _ _ _ _ | lane _ _ _ => exact indexes.elim

/-- A condition can be decided. -/
theorem Decides.exists_decides (decides : t.Decides scope) (positive : w.Positive)
    (indexed : names.Indexed scope) : ∃ holds, t.decides? w names = some holds := by
  induction t with
  | binary op lhs rhs left right =>
    cases op with
    | less =>
      obtain ⟨a, first⟩ := decides.1.exists_unsigned positive indexed
      obtain ⟨b, second⟩ := decides.2.exists_unsigned positive indexed
      exact ⟨decide (a.2 < b.2), by rw [decides?, first, second]; rfl⟩
    | equal =>
      obtain ⟨a, first⟩ := decides.1.exists_unsigned positive indexed
      obtain ⟨b, second⟩ := decides.2.exists_unsigned positive indexed
      exact ⟨decide (a.2 = b.2), by rw [decides?, first, second]; rfl⟩
    | both =>
      obtain ⟨p, first⟩ := left decides.1
      obtain ⟨q, second⟩ := right decides.2
      exact ⟨p && q, by rw [decides?, first, second]; rfl⟩
    | add | sub | mul | div | mod => exact decides.elim
  | _ => exact decides.elim

end Term

/-- A term that is made of sizes, and what it stands for. -/
structure Term.Stands (t : Term) (w : Worker) (given : Names Unit) (sizes : List String) (n : Nat) :
    Prop where
  indexes : t.Indexes sizes
  value : ∃ word, t.unsigned? w given = some (word, n)

/-! ### Counting code -/

namespace Loop

/-- What the counter of a loop grows by, one where there is nothing else. -/
def stride (l : Loop) : Term := l.step.getD (.number 1)

/-- A loop comes to its bound while code of these binders runs in it: it strides towards a bound that is
made of sizes and reached, or counts by ones towards a variable or a constant. -/
def Steady (l : Loop) (w : Worker) (given : Names Unit) (sizes scope inner : List String) : Prop :=
  match l.step with
  | some stride => ∃ d b, stride.Stands w given sizes d ∧ l.bound.Stands w given sizes b ∧ Reaches d b
  | none => (∃ n < 2 ^ 32, l.bound = .count n) ∨
      ∃ x ∈ scope, l.bound = .name x ∧ x ≠ l.counter ∧ x ∉ inner

/-- A loop makes no trip: its bound is zero. -/
def Idle (l : Loop) (w : Worker) (given : Names Unit) (sizes : List String) : Prop :=
  l.bound.Stands w given sizes 0

end Loop

/-- Code whose indices can be formed where they stand, and whose loops come to their bounds. The names of
sizes are those that the bounds are made of, and stand for what is given; the scope holds the names that
stand for indices besides. -/
def Code.Counts (w : Worker) (given : Names Unit) (sizes : List String) : List String → Code → Prop
  | _, done => True
  | scope, step (.declare .index x value) rest =>
    value.Indexes (sizes ++ scope) ∧ rest.Counts w given sizes (x :: scope)
  | scope, step s rest => (∀ x ∈ s.binder?, x ∉ scope) ∧ rest.Counts w given sizes scope
  | scope, loop l body rest =>
    (l.first.Indexes (sizes ++ scope) ∧ l.Steady w given sizes scope body.binders ∧
      l.counter ∉ body.binders) ∧
      (l.Idle w given sizes ∨ body.Counts w given sizes (l.counter :: scope)) ∧
      rest.Counts w given sizes scope
  | scope, guarded condition body rest =>
    condition.Decides (sizes ++ scope) ∧ body.Counts w given sizes scope ∧
      rest.Counts w given sizes scope

/-! ### Loops -/

/-- What a loop strides by and towards, while these names may change. -/
structure Loop.Strides (l : Loop) (w : Worker) (names : Names Unit) (changed : List String)
    (d b : Nat) : Prop where
  stride : ∀ names', names.Same changed names' → ∃ word, l.stride.unsigned? w names' = some (word, d)
  bound : ∀ names', names.Same changed names' → ∃ word, l.bound.unsigned? w names' = some (word, b)

namespace Loop

variable {l : Loop} {w : Worker} {names given names' : Names Unit}
  {sizes scope inner changed : List String} {c d b : Nat}

theorem Strides.decides (strides : l.Strides w names changed d b) (same : names.Same changed names')
    (at' : names' l.counter = some (.index c)) :
    l.condition.decides? w names' = some (decide (c < b)) := by
  obtain ⟨word, bound⟩ := strides.bound names' same
  simp [condition, Term.decides?, Term.unsigned?, at', bound]

/-- A variable keeps the lower bits of the sum, whatever word that was formed in. -/
theorem Strides.next (strides : l.Strides w names changed d b) (same : names.Same changed names')
    (at' : names' l.counter = some (.index c)) :
    (l.next.unsigned? w names').map Binding.wrapped = some (.index ((c + d) % 2 ^ 32)) := by
  obtain ⟨word, stride⟩ := strides.stride names' same
  have lower (v : Word) : (c + d) % v.limit % 2 ^ 32 = (c + d) % 2 ^ 32 :=
    Nat.mod_mod_of_dvd _ (by cases v <;> decide)
  unfold Loop.stride at stride
  simp only [Loop.next, Term.unsigned?, at', stride, TermOp.wrapped?]
  exact congrArg (fun n => some (Binding.index n)) (lower _)

/-- The terms of sizes keep their values as long as the sizes do. -/
theorem strides_of_stands {stride : Term} (step : l.step = some stride)
    (first : stride.Stands w given sizes d) (second : l.bound.Stands w given sizes b)
    (agree : ∀ names', names.Same changed names' → ∀ x ∈ sizes, names' x = given x) :
    l.Strides w names changed d b where
  stride names' same := by
    rw [Loop.stride, step]
    exact first.value.imp fun word value => (first.indexes.unsigned_congr (agree names' same)).trans value
  bound names' same :=
    second.value.imp fun word value => (second.indexes.unsigned_congr (agree names' same)).trans value

/-- **A steady loop strides towards a bound that it reaches.** -/
theorem Steady.exists_strides (steady : l.Steady w given sizes scope inner)
    (agree : ∀ names', names.Same (l.counter :: inner) names' → ∀ x ∈ sizes, names' x = given x)
    (indexed : names.Indexed scope) :
    ∃ d b, l.Strides w names (l.counter :: inner) d b ∧ Reaches d b := by
  unfold Steady at steady
  cases step : l.step with
  | some stride =>
    rw [step] at steady
    obtain ⟨d, b, first, second, reaches⟩ := steady
    exact ⟨d, b, strides_of_stands step first second agree, reaches⟩
  | none =>
    rw [step] at steady
    have one (names' : Names Unit) : ∃ word, l.stride.unsigned? w names' = some (word, 1) := by
      rw [Loop.stride, step]
      exact ⟨_, rfl⟩
    rcases steady with ⟨n, small, bound⟩ | ⟨x, member, bound, other, fresh⟩
    · exact ⟨1, n, ⟨fun names' _ => one names', fun names' _ => ⟨_, by rw [bound]; rfl⟩⟩,
        .one small⟩
    · obtain ⟨n, small, stands⟩ := indexed x member
      refine ⟨1, n, ⟨fun names' _ => one names', fun names' same => ⟨.bits32, ?_⟩⟩, .one small⟩
      rw [bound, Term.unsigned?, same x fun inside => (List.mem_cons.mp inside).elim other fresh, stands]

/-- An idle loop has no bound to stride towards. -/
theorem Idle.bound_eq (idle : l.Idle w given sizes) (strides : l.Strides w names changed d b)
    (agree : ∀ x ∈ sizes, names x = given x) : b = 0 := by
  obtain ⟨word, value⟩ := idle.value
  obtain ⟨word', bound⟩ := strides.bound names (.refl _ _)
  rw [idle.indexes.unsigned_congr agree, value] at bound
  cases bound
  rfl

end Loop

/-- Code that comes to its end from some names leads to others, in which the names of a scope still stand
for indices. -/
def Code.Winds (code : Code) (w : Worker) (scope : List String) (names : Names Unit) : Prop :=
  ∃ names', names.Same code.binders names' ∧ names'.Indexed scope ∧
    ∀ rest, Thread.Winds w ⟨.run code :: rest, names⟩ ⟨rest, names'⟩

/-- **The trips of a loop**, as many as lead the counter to its bound. -/
theorem Loop.Strides.winds {l : Loop} {body : Code} {w : Worker} {names : Names Unit}
    {scope : List String} {d b : Nat}
    (strides : l.Strides w names (l.counter :: body.binders) d b) (kept : l.counter ∉ body.binders)
    (trip : 0 < b → ∀ names', names.Same (l.counter :: body.binders) names' →
      names'.Indexed (l.counter :: scope) → body.Winds w (l.counter :: scope) names')
    (k : Nat) {c : Nat} (small : c < 2 ^ 32) (comes : b ≤ (c + k * d) % 2 ^ 32)
    {names₁ : Names Unit} (same : names.Same (l.counter :: body.binders) names₁)
    (indexed : names₁.Indexed (l.counter :: scope)) (at' : names₁ l.counter = some (.index c)) :
    ∃ names₂, names.Same (l.counter :: body.binders) names₂ ∧ names₂.Indexed (l.counter :: scope) ∧
      ∀ rest, Thread.Winds w ⟨.check l body :: rest, names₁⟩ ⟨rest, names₂⟩ := by
  induction k generalizing c names₁ with
  | zero =>
    rw [Nat.zero_mul, Nat.add_zero, Nat.mod_eq_of_lt small] at comes
    refine ⟨names₁, same, indexed, fun rest => .single ?_⟩
    show (l.condition.decides? w names₁).map _ = _
    rw [strides.decides same at', decide_eq_false (Nat.not_lt.mpr comes)]
    rfl
  | succ k ih =>
    have decided := strides.decides same at'
    by_cases below : c < b
    case neg =>
      refine ⟨names₁, same, indexed, fun rest => .single ?_⟩
      show (l.condition.decides? w names₁).map _ = _
      rw [decided, decide_eq_false below]
      rfl
    · obtain ⟨names₂, same₂, indexed₂, winds⟩ := trip (Nat.zero_lt_of_lt below) names₁ same indexed
      have further : names.Same (l.counter :: body.binders) names₂ :=
        same.trans (same₂.mono fun x => List.mem_cons_of_mem _)
      have next := strides.next further ((same₂ _ kept).trans at')
      obtain ⟨n, advanced, wrapped⟩ := Option.map_eq_some_iff.mp next
      have small' : (c + d) % 2 ^ 32 < 2 ^ 32 := Nat.mod_lt _ (by decide)
      have comes' : b ≤ ((c + d) % 2 ^ 32 + k * d) % 2 ^ 32 := by
        rw [Nat.mod_add_mod, Nat.add_assoc, Nat.add_comm d, ← Nat.succ_mul]
        exact comes
      have same' := further.bind List.mem_cons_self (.index ((c + d) % 2 ^ 32))
      have indexed' := (indexed₂.bind_index l.counter small').mono fun x => List.mem_cons_of_mem _
      obtain ⟨names₃, same₃, indexed₃, ends⟩ := ih small' comes' same' indexed' (Names.bind_self ..)
      refine ⟨names₃, same₃, indexed₃, fun rest => ?_⟩
      refine .head (b := ⟨.run body :: .advance l body :: rest, names₁⟩) ?_
        ((winds _).trans (.head ?_ (ends rest)))
      · show (l.condition.decides? w names₁).map _ = _
        rw [decided, decide_eq_true below]
        rfl
      · show (l.next.unsigned? w names₂).map _ = _
        rw [advanced, ← wrapped]
        rfl

/-! ### Code -/

namespace Code

variable {w : Worker} {names names' given : Names Unit} {sizes scope more : List String}

theorem Winds.mono {code : Code} (winds : code.Winds w more names) (sub : ∀ x ∈ scope, x ∈ more) :
    code.Winds w scope names := by
  obtain ⟨names', same, indexed, ends⟩ := winds
  exact ⟨names', same, indexed.mono sub, ends⟩

theorem Winds.step {s : Step} {rest : Code} (moves : s.wrapped? w names = some names')
    (same : names.Same s.binder?.toList names') (next : rest.Winds w scope names') :
    (step s rest).Winds w scope names := by
  obtain ⟨names'', same', indexed, ends⟩ := next
  refine ⟨names'', (same.mono fun x => List.mem_append_left _).trans
    (same'.mono fun x => List.mem_append_right _), indexed, fun after => .head ?_ (ends after)⟩
  show (s.wrapped? w names).map _ = _
  rw [moves]
  rfl

/-- The trips of a loop, and then what comes after it. -/
theorem Winds.loop {l : Loop} {body rest : Code} {a : Word × Nat}
    (start : l.first.unsigned? w names = some a)
    (trips : ∃ names₁, names.Same (l.counter :: body.binders) names₁ ∧
      names₁.Indexed (l.counter :: scope) ∧ ∀ later, Thread.Winds w
        ⟨.check l body :: later, names.bind l.counter (.wrapped a)⟩ ⟨later, names₁⟩)
    (next : ∀ names₁, names.Same (l.counter :: body.binders) names₁ → names₁.Indexed scope →
      rest.Winds w scope names₁) :
    (loop l body rest).Winds w scope names := by
  obtain ⟨names₁, same₁, indexed₁, winds⟩ := trips
  obtain ⟨names₂, same₂, indexed₂, ends⟩ := next names₁ same₁
    (indexed₁.mono fun x => List.mem_cons_of_mem _)
  refine ⟨names₂, (same₁.mono fun x bound => ?_).trans (same₂.mono fun x bound =>
    List.mem_cons_of_mem _ (List.mem_append_right _ bound)), indexed₂, fun later => ?_⟩
  · exact (List.mem_cons.mp bound).elim (fun here => here ▸ List.mem_cons_self)
      fun here => List.mem_cons_of_mem _ (List.mem_append_left _ here)
  · have enters : Thread.wrapped? w ⟨.run (.loop l body rest) :: later, names⟩ =
        some ⟨.check l body :: .run rest :: later, names.bind l.counter (.wrapped a)⟩ := by
      show (l.first.unsigned? w names).map _ = _
      rw [start]
      rfl
    exact .head enters ((winds _).trans (ends later))

/-- Code under a condition, whether it holds or not. -/
theorem Winds.guarded {condition : Term} {body rest : Code} {holds : Bool}
    (decided : condition.decides? w names = some holds) (indexed : names.Indexed scope)
    (inner : body.Winds w scope names)
    (next : ∀ names₁, names.Same body.binders names₁ → names₁.Indexed scope →
      rest.Winds w scope names₁) :
    (guarded condition body rest).Winds w scope names := by
  have moves (later : List Frame) : Thread.wrapped? w
      ⟨.run (.guarded condition body rest) :: later, names⟩ =
        some ⟨if holds then .run body :: .run rest :: later else .run rest :: later, names⟩ := by
    show (condition.decides? w names).map _ = _
    rw [decided]
    rfl
  cases holds with
  | false =>
    obtain ⟨names', same, indexed', ends⟩ := next names (.refl _ names) indexed
    exact ⟨names', same.mono fun x => List.mem_append_right _, indexed',
      fun later => .head (moves later) (ends later)⟩
  | true =>
    obtain ⟨names₁, same₁, indexed₁, ends₁⟩ := inner
    obtain ⟨names₂, same₂, indexed₂, ends₂⟩ := next names₁ same₁ indexed₁
    exact ⟨names₂, (same₁.mono fun x => List.mem_append_left _).trans
      (same₂.mono fun x => List.mem_append_right _), indexed₂,
      fun later => .head (moves later) ((ends₁ _).trans (ends₂ later))⟩

/-- **A step of counting code can be taken**, and what comes after it counts in the names that stand for
indices then. -/
theorem Counts.exists_step {s : Step} {rest : Code}
    (counts : (Code.step s rest).Counts w given sizes scope) (positive : w.Positive)
    (known : given.Indexed sizes) (agree : ∀ x ∈ sizes, names x = given x)
    (indexed : names.Indexed scope) :
    ∃ names' more, s.wrapped? w names = some names' ∧ names.Same s.binder?.toList names' ∧
      names'.Indexed more ∧ (∀ x ∈ scope, x ∈ more) ∧ rest.Counts w given sizes more := by
  have binds {x : String} (binder : s.binder? = some x) (binding : Binding Unit) :
      names.Same s.binder?.toList (names.bind x binding) :=
    (Names.Same.refl _ names).bind (by simp [binder]) binding
  cases s with
  | declare type x value =>
    cases type with
    | index =>
      obtain ⟨n, number⟩ := counts.1.exists_unsigned positive (indexed.append known agree)
      have small : n.2 % Word.bits32.limit < 2 ^ 32 := Nat.mod_lt _ (by decide)
      exact ⟨_, x :: scope, Option.map_eq_some_iff.mpr ⟨n, number, rfl⟩, binds rfl _,
        indexed.bind_index x small, fun y => List.mem_cons_of_mem _, counts.2⟩
    | packed type width =>
      exact ⟨_, scope, rfl, binds rfl _, indexed.bind_other (counts.1 x rfl) _, fun _ => id, counts.2⟩
  | declareLocal memory =>
    exact ⟨_, scope, rfl, binds rfl _, indexed.bind_other (counts.1 _ rfl) _, fun _ => id, counts.2⟩
  | declareArray type x dims =>
    exact ⟨_, scope, rfl, binds rfl _, indexed.bind_other (counts.1 x rfl) _, fun _ => id, counts.2⟩
  | store | barrier => exact ⟨names, scope, rfl, .refl _ _, indexed, fun _ => id, counts.2⟩

/-- **A counting loop makes its trips**, if its body comes to an end wherever it counts. -/
theorem Counts.trips {l : Loop} {body rest : Code} {a : Word × Nat}
    (counts : (Code.loop l body rest).Counts w given sizes scope)
    (fixed : ∀ x ∈ sizes, x ∉ l.counter :: body.binders) (agree : ∀ x ∈ sizes, names x = given x)
    (indexed : names.Indexed scope)
    (inner : body.Counts w given sizes (l.counter :: scope) → ∀ names',
      names.Same (l.counter :: body.binders) names' → names'.Indexed (l.counter :: scope) →
        body.Winds w (l.counter :: scope) names') :
    ∃ names₁, names.Same (l.counter :: body.binders) names₁ ∧
      names₁.Indexed (l.counter :: scope) ∧ ∀ later, Thread.Winds w
        ⟨.check l body :: later, names.bind l.counter (.wrapped a)⟩ ⟨later, names₁⟩ := by
  obtain ⟨⟨-, steady, keeps⟩, counted, -⟩ := counts
  obtain ⟨d, b, strides, reaches⟩ := steady.exists_strides (fun names₁ same x member =>
    (same x (fixed x member)).trans (agree x member)) indexed
  have small : a.2 % Word.bits32.limit < 2 ^ 32 := Nat.mod_lt _ (by decide)
  obtain ⟨k, comes⟩ := reaches.exists_le (a.2 % Word.bits32.limit)
  have entered : names.Same (l.counter :: body.binders) (names.bind l.counter (.wrapped a)) :=
    (Names.Same.refl _ names).bind List.mem_cons_self _
  refine strides.winds keeps (fun enters => ?_) k small comes entered
    (indexed.bind_index l.counter small) (Names.bind_self ..)
  rcases counted with idle | counted
  · exact absurd (idle.bound_eq strides agree) enters.ne'
  · exact inner counted

/-- **Counting code comes to its end.** By induction on the code: the names of the scope stand for
indices throughout, and the sizes for what is given. -/
theorem Counts.winds {code : Code} (counts : code.Counts w given sizes scope)
    (positive : w.Positive) (known : given.Indexed sizes) (fixed : ∀ x ∈ sizes, x ∉ code.binders)
    (agree : ∀ x ∈ sizes, names x = given x) (indexed : names.Indexed scope) :
    code.Winds w scope names := by
  -- Code leaves the sizes alone as long as it binds other names only.
  have kept {names names₁ : Names Unit} {changed : List String}
      (agree : ∀ x ∈ sizes, names x = given x) (other : ∀ x ∈ sizes, x ∉ changed)
      (same : names.Same changed names₁) : ∀ x ∈ sizes, names₁ x = given x :=
    fun x member => (same x (other x member)).trans (agree x member)
  induction code generalizing scope names with
  | done => exact ⟨names, .refl _ _, indexed, fun later => .single rfl⟩
  | step s rest ih =>
    obtain ⟨names', more, moves, same, indexed', sub, further⟩ :=
      counts.exists_step positive known agree indexed
    refine .step moves same ((ih further (fun x member bound => ?_) (kept agree (fun x member bound => ?_)
      same) indexed').mono sub)
    · exact fixed x member (List.mem_append_right _ bound)
    · exact fixed x member (List.mem_append_left _ bound)
  | loop l body rest inner after =>
    have around : ∀ x ∈ sizes, x ∉ l.counter :: body.binders := fun x member bound =>
      fixed x member ((List.mem_cons.mp bound).elim (fun here => here ▸ List.mem_cons_self)
        fun here => List.mem_cons_of_mem _ (List.mem_append_left _ here))
    obtain ⟨a, start⟩ := counts.1.1.exists_unsigned positive (indexed.append known agree)
    refine .loop start (counts.trips around agree indexed fun counted names' same =>
      inner counted (fun x member bound => ?_) (kept agree around same)) fun names₁ same =>
        after counts.2.2 (fun x member bound => ?_) (kept agree around same)
    · exact around x member (List.mem_cons_of_mem _ bound)
    · exact fixed x member (List.mem_cons_of_mem _ (List.mem_append_right _ bound))
  | guarded condition body rest inner after =>
    obtain ⟨decides, counted, further⟩ := counts
    obtain ⟨holds, decided⟩ := decides.exists_decides positive (indexed.append known agree)
    have within : ∀ x ∈ sizes, x ∉ body.binders := fun x member bound =>
      fixed x member (List.mem_append_left _ bound)
    have later : ∀ x ∈ sizes, x ∉ rest.binders := fun x member bound =>
      fixed x member (List.mem_append_right _ bound)
    exact .guarded decided indexed (inner counted within agree indexed) fun names₁ same =>
      after further later (kept agree within same)

end Code

end TunedKernel
