/-
**What the statements of a batch mean, one after the other.**

* `Product.gives` — the term of a product has its value.
* `Product.folded` — a product folded over points.
* `Statement.execute`, `Statement.executeAll` — the memory after a statement was carried out, and after
  all of a list were.
* `executeAll_of_ne`, `executeAll_eqOn` — the targets alone change, and only what is read counts;
  `executeAll_history` — every statement is carried out once.
* `Statement.all_lead` — the steps of the statements carry them out.
-/

import TunedKernel.Proofs.Execution.Items

namespace TunedKernel

variable {α : Type}

/-! ### Products -/

namespace Product

/-- A product folded over so many points, at each of which both of its operands are read. -/
def folded (r : Reading α) (type : NumericType) (p : Product) (points : Nat → Point) (n : Nat) : α :=
  r.elements.fold type p.reduce ((List.range n).map fun j => p.value r (points j) (points j))

/-- The value of a term depends on the places of the leaves. -/
theorem value_congr {r r' : Reading α} {point : Point} (p : Product)
    (elements : r'.elements = r.elements) (host : r'.host = r.host)
    (bindings : r'.bindings = r.bindings)
    (same : ∀ leaf ∈ p.leaves, ∀ place, leaf.place? r.bindings point = some place →
      r'.memory place = r.memory place) : p.value r' point point = p.value r point point := by
  have left : p.lhs.value r' (r'.elements.number 0) point =
      p.lhs.value r (r.elements.number 0) point := by
    rw [elements]
    exact p.lhs.value_congr elements host bindings fun leaf member =>
      same leaf (List.mem_append_left _ member)
  cases right : p.rhs with
  | none =>
    rw [value, value, right]
    exact left
  | some rhs =>
    have second : rhs.value r' (r'.elements.number 0) point =
        rhs.value r (r.elements.number 0) point := by
      rw [elements]
      refine rhs.value_congr elements host bindings fun leaf member => same leaf ?_
      refine List.mem_append_right _ ?_
      rw [right]
      exact member
    rw [value, value, right]
    dsimp only
    rw [left, second, elements]

theorem folded_congr {r r' : Reading α} {type : NumericType} {points : Nat → Point} {n : Nat}
    (p : Product) (elements : r'.elements = r.elements) (host : r'.host = r.host)
    (bindings : r'.bindings = r.bindings)
    (same : ∀ leaf ∈ p.leaves, ∀ j < n, ∀ place, leaf.place? r.bindings (points j) = some place →
      r'.memory place = r.memory place) :
    p.folded r' type points n = p.folded r type points n := by
  unfold folded
  rw [elements]
  refine congrArg _ (List.map_congr_left fun j below => ?_)
  exact p.value_congr elements host bindings fun leaf member =>
    same leaf member j (List.mem_range.mp below)

/-- **The term of a product has the value of a term**, for every lane at the point of the scope. -/
theorem gives {q : Station α} {names : Names α} {m : Memory α} {scope : Scope} {width : Nat}
    {points : Nat → Point} {host : String → α} {bindings : Bindings} {p : Product} {t : Term}
    (ok : p.term scope = .ok t)
    (means : scope.Means q names m width points fun _ => q.elements.number 0)
    (known : ∀ leaf ∈ p.leaves, leaf.Known width host bindings names)
    (inside : ∀ leaf ∈ p.leaves, ∀ l place, leaf.place? bindings (points l) = some place →
      place ∈ q.reads) :
    q.Gives names m t fun l =>
      p.value ⟨q.elements, host, bindings, m⟩ (points l) (points l) := by
  obtain ⟨left, first, ok⟩ := bind_eq_ok_iff.mp ok
  have gives := p.lhs.gives means first
    (fun leaf member => known leaf (List.mem_append_left _ member))
    fun leaf member => inside leaf (List.mem_append_left _ member)
  cases right : p.rhs with
  | none =>
    rw [right] at ok
    cases ok
    simp only [value, right]
    exact gives
  | some rhs =>
    rw [right] at ok
    obtain ⟨t', second, ok⟩ := bind_eq_ok_iff.mp ok
    cases ok
    have within {leaf : Expr} (member : leaf ∈ rhs.leaves) : leaf ∈ p.leaves := by
      refine List.mem_append_right _ ?_
      rw [right]
      exact member
    simp only [value, right]
    exact .apply gives (rhs.gives means second (fun leaf member => known leaf (within member))
      fun leaf member => inside leaf (within member))

/-- The leaves of a product stand among the nodes. -/
theorem leaves_sub_nodes {p : Product} {x leaf : Expr} (member : p ∈ x.products)
    (inside : leaf ∈ p.leaves) : leaf ∈ x.nodes := by
  rcases List.mem_append.mp inside with left | right
  · exact Expr.product_sub_nodes member (Or.inl rfl) (Expr.leaves_sub_nodes left)
  · cases found : p.rhs with
    | none =>
      rw [found] at right
      cases right
    | some rhs =>
      rw [found] at right
      exact Expr.product_sub_nodes member (Or.inr found) (Expr.leaves_sub_nodes right)

end Product

/-! ### Statements one after the other -/

namespace Statement

/-- The memory after a statement was carried out at a point, with the product that its value holds
folded over points. -/
def execute (r : Reading α) (type : NumericType) (points : Nat → Point) (n : Nat) (point : Point)
    (s : Statement) (store : Step) : Memory α :=
  match s.target.place? r.bindings point, s.value.products with
  | some place, [product] => Function.update r.memory place
      (s.outcome r (product.folded r type points n) point store (r.memory place))
  | _, _ => r.memory

/-- The memory after statements were carried out one after the other, each of them by its step. -/
def executeAll (r : Reading α) (type : NumericType) (points : Nat → Point) (n : Nat) (point : Point)
    (entries : List (Statement × Step)) : Memory α :=
  entries.foldl
    (fun m entry => entry.1.execute { r with memory := m } type points n point entry.2) r.memory

variable {r : Reading α} {type : NumericType} {points : Nat → Point} {n : Nat} {point : Point}
  {entries : List (Statement × Step)}

theorem execute_eq {s : Statement} {product : Product} (store : Step) {place : Place}
    (single : s.value.products = [product])
    (stored : s.target.place? r.bindings point = some place) :
    s.execute r type points n point store = Function.update r.memory place
      (s.outcome r (product.folded r type points n) point store (r.memory place)) := by
  rw [execute, stored, single]

theorem executeAll_append_singleton (entry : Statement × Step) :
    executeAll r type points n point (entries ++ [entry]) =
      entry.1.execute { r with memory := executeAll r type points n point entries } type points n
        point entry.2 :=
  List.foldl_append ..

/-- A statement changes its target only. -/
theorem execute_of_ne {s : Statement} {store : Step} {place : Place}
    (other : s.target.place? r.bindings point ≠ some place) :
    s.execute r type points n point store place = r.memory place := by
  have cases : s.execute r type points n point store = r.memory ∨ ∃ place' cell,
      s.target.place? r.bindings point = some place' ∧
      s.execute r type points n point store = Function.update r.memory place' cell := by
    unfold execute
    split
    · next found _ => exact Or.inr ⟨_, _, found, rfl⟩
    · exact Or.inl rfl
  rcases cases with same | ⟨place', cell, found, same⟩
  · rw [same]
  · rw [same]
    refine Function.update_of_ne (fun equal => other ?_) ..
    rw [equal, found]

/-- **Statements change their targets only.** -/
theorem executeAll_of_ne {place : Place}
    (other : ∀ entry ∈ entries, entry.1.target.place? r.bindings point ≠ some place) :
    executeAll r type points n point entries place = r.memory place := by
  induction entries using List.reverseRecOn with
  | nil => rfl
  | append_singleton entries entry ih =>
    rw [executeAll_append_singleton]
    refine (execute_of_ne (r := { r with memory := executeAll r type points n point entries })
      (other entry (by simp))).trans ?_
    exact ih fun earlier member => other earlier (List.mem_append_left _ member)

/-- What a statement reads and writes at a point stands among these places. -/
structure Inside (bindings : Bindings) (points : Nat → Point) (n : Nat) (point : Point)
    (places : Set Place) (s : Statement) : Prop where
  target : ∀ place, s.target.place? bindings point = some place → place ∈ places
  value : ∀ leaf ∈ s.value.leaves, ∀ place, leaf.place? bindings point = some place → place ∈ places
  product : ∀ p ∈ s.value.products, ∀ leaf ∈ p.leaves, ∀ j < n, ∀ place,
    leaf.place? bindings (points j) = some place → place ∈ places

/-- A statement does the same to memories that agree on what it reads and writes. -/
theorem execute_eqOn {m : Memory α} {s : Statement} {store : Step} {places : Set Place}
    (inside : s.Inside r.bindings points n point places) (agree : Set.EqOn m r.memory places) :
    Set.EqOn (s.execute { r with memory := m } type points n point store)
      (s.execute r type points n point store) places := by
  intro place member
  by_cases here : s.target.place? r.bindings point = some place
  · by_cases single : ∃ product, s.value.products = [product]
    · obtain ⟨product, single⟩ := single
      rw [execute_eq store single here,
        execute_eq (r := { r with memory := m }) store single here, Function.update_self,
        Function.update_self]
      dsimp only
      have fold : product.folded { r with memory := m } type points n =
          product.folded r type points n :=
        product.folded_congr rfl rfl rfl fun leaf reads j below place stored =>
          agree (inside.product product (single ▸ List.mem_cons_self) leaf reads j below place stored)
      rw [fold, agree member]
      exact s.outcome_congr rfl rfl rfl fun leaf reads place stored =>
        agree (inside.value leaf reads place stored)
    · have unchanged (r' : Reading α) : s.execute r' type points n point store = r'.memory := by
        unfold execute
        split
        · next found => exact absurd ⟨_, found⟩ single
        · rfl
      rw [unchanged, unchanged]
      exact agree member
  · rw [execute_of_ne here, execute_of_ne (r := { r with memory := m }) here]
    exact agree member

/-- **Statements do the same to memories that agree on what they read and write.** -/
theorem executeAll_eqOn {m : Memory α} {places : Set Place}
    (inside : ∀ entry ∈ entries, entry.1.Inside r.bindings points n point places)
    (agree : Set.EqOn m r.memory places) :
    Set.EqOn (executeAll { r with memory := m } type points n point entries)
      (executeAll r type points n point entries) places := by
  induction entries using List.reverseRecOn with
  | nil => exact agree
  | append_singleton entries entry ih =>
    rw [executeAll_append_singleton, executeAll_append_singleton]
    exact execute_eqOn (r := { r with memory := executeAll r type points n point entries })
      (inside entry (by simp)) (ih fun earlier member => inside earlier (List.mem_append_left _ member))

/-! ### The steps of statements -/

/-- **The steps of statements carry them out one after the other.** The product of each stands in its
scope with its folded value, whatever the statements before it have left in the targets. -/
theorem all_lead {β : Type} {q : Station α} {names : Names α} {m : Memory α} {items : List β}
    {statement : β → Statement} {store : β → Step} {scope : β → Scope} {products : β → α}
    {host : String → α} {bindings : Bindings}
    (ok : ∀ b ∈ items, (statement b).storeStep (scope b) = .ok (store b))
    (each : ∀ b ∈ items, ∃ p place, (statement b).value.products = [p] ∧
      (statement b).target.place? bindings point = some place ∧ place ∈ q.reads ∩ q.writes ∧
      ∀ m', (∀ place', (∀ b' ∈ items, (statement b').target.place? bindings point ≠ some place') →
          m' place' = m place') →
        p.folded ⟨q.elements, host, bindings, m'⟩ type points n = products b ∧
          (scope b).Means q names m' 1 (fun _ => point) fun _ => products b)
    (known : ∀ b ∈ items, (statement b).target.Known 1 host bindings names ∧
      ∀ leaf ∈ (statement b).value.leaves, leaf.Known 1 host bindings names)
    (reads : ∀ b ∈ items, ∀ leaf ∈ (statement b).value.leaves, ∀ place,
      leaf.place? bindings point = some place → place ∈ q.reads) :
    q.Leads (Code.ofSteps (items.map store)) names m fun names' m' => names' = names ∧
      m' = executeAll ⟨q.elements, host, bindings, m⟩ type points n point
        (items.map fun b => (statement b, store b)) := by
  refine Station.Leads.each (fun before names' m' => names' = names ∧
    m' = executeAll ⟨q.elements, host, bindings, m⟩ type points n point
      (before.map fun b => (statement b, store b))) ⟨rfl, rfl⟩ ?_
  rintro before item rest all names' m' ⟨rfl, state⟩
  have member : item ∈ items := all ▸ List.mem_append_right _ List.mem_cons_self
  obtain ⟨p, place, single, stored, inside, further⟩ := each item member
  have others (place' : Place) (none : ∀ b' ∈ items,
      (statement b').target.place? bindings point ≠ some place') : m' place' = m place' := by
    rw [state]
    refine executeAll_of_ne fun entry earlier => ?_
    obtain ⟨b, before', rfl⟩ := List.mem_map.mp earlier
    exact none b (all ▸ List.mem_append_left _ before')
  obtain ⟨fold, means⟩ := further m' others
  refine (Statement.leads (ok item member) means (known item member).1 stored inside
    (known item member).2 fun leaf member' _ => reads item member leaf member').weaken ?_
  rintro names'' m'' - ⟨rfl, rfl⟩
  refine ⟨rfl, ?_⟩
  rw [List.map_append, List.map_singleton, executeAll_append_singleton, ← state,
    execute_eq (store item) single stored]
  dsimp only
  rw [fold]

end Statement

end TunedKernel
