/-
**Statements that are carried out at many points.**

A kernel carries out the statements of its batch at every point, at each of them one after the other. The
kernels of the statements alone carry out each statement at all points before the next one.

* `Statement.settle` — the values that statements leave at a point.
* `Course` — where statements are carried out, and where their products are folded.
* `Course.Spread` — what statements leave that are carried out at every point of a course.
* `Course.Independent` — what is stored at one point is neither stored nor read at another one, and no
  product reads what an earlier statement stores. Then `Spread.snoc` says that statements may be carried out
  everywhere before the next one is.
* `Program.CarriesOut`, `Course.inTurn` — programs that carry out one statement each, one after the other.
-/

import TunedKernel.Proofs.Batch.Carrying
import TunedKernel.Proofs.Batch.Nodes
import TunedKernel.Proofs.Execution.Machine

namespace TunedKernel

variable {α : Type}

/-! ### Products -/

/-- A folded product does not depend on what was stored before in the places that it reads. -/
theorem Product.folded_congr_values {r : Reading α} {m : Memory α} {type : NumericType}
    {points : Nat → Point} {n : Nat} (p : Product)
    (same : ∀ leaf ∈ p.leaves, ∀ j < n, ∀ place, leaf.place? r.bindings (points j) = some place →
      (m place).value = (r.memory place).value) :
    p.folded { r with memory := m } type points n = p.folded r type points n := by
  have operand {x : Expr} (sub : ∀ leaf ∈ x.leaves, leaf ∈ p.leaves) {j : Nat} (below : j < n) :
      x.value { r with memory := m } (r.elements.number 0) (points j) =
        x.value r (r.elements.number 0) (points j) :=
    x.value_congr_values rfl rfl rfl fun leaf inside place stored =>
      same leaf (sub leaf inside) j below place stored
  unfold folded
  refine congrArg _ (List.map_congr_left fun j below => ?_)
  replace below := List.mem_range.mp below
  have left := operand (fun leaf inside => List.mem_append_left _ inside) below
  cases right : p.rhs with
  | none =>
    rw [value, value, right]
    exact left
  | some rhs =>
    have second : rhs.value { r with memory := m } (r.elements.number 0) (points j) =
        rhs.value r (r.elements.number 0) (points j) := operand (fun leaf inside =>
      List.mem_append_right _ (right ▸ inside)) below
    rw [value, value, right]
    exact congrArg₂ (r.elements.binary p.combine) left second

namespace Statement

/-- The value of the product of a statement, folded over points; zero for a statement without one. -/
def productValue (r : Reading α) (type : NumericType) (points : Nat → Point) (n : Nat) (s : Statement) :
    α :=
  match s.value.products with
  | [] => r.elements.number 0
  | p :: _ => p.folded r type points n

theorem productValue_congr {r : Reading α} {m : Memory α} {type : NumericType} {points : Nat → Point}
    {n : Nat} {s : Statement}
    (same : ∀ p ∈ s.value.products, ∀ leaf ∈ p.leaves, ∀ j < n, ∀ place,
      leaf.place? r.bindings (points j) = some place → (m place).value = (r.memory place).value) :
    s.productValue { r with memory := m } type points n = s.productValue r type points n := by
  unfold productValue
  cases found : s.value.products with
  | nil => rfl
  | cons p rest => exact p.folded_congr_values (same p (found ▸ List.mem_cons_self))

/-! ### Values at a point -/

/-- A statement with the value of its product. It is carried out by any step. -/
def entry (v : Statement × α) : Entry α := ⟨v.1, .barrier, v.2⟩

/-- The memory after statements were carried out at a point, whose values alone count. -/
def settle (r : Reading α) (point : Point) (values : List (Statement × α)) : Memory α :=
  carryAll r point (values.map entry)

variable {r : Reading α} {point : Point} {values : List (Statement × α)}

theorem settle_append_singleton (v : Statement × α) :
    settle r point (values ++ [v]) = carry { r with memory := settle r point values } point (entry v) := by
  rw [settle, List.map_append]
  exact carryAll_append_singleton

theorem settle_of_ne {place : Place}
    (other : ∀ v ∈ values, v.1.target.place? r.bindings point ≠ some place) :
    settle r point values place = r.memory place := by
  refine carryAll_of_ne fun x among => ?_
  obtain ⟨v, inside, rfl⟩ := List.mem_map.mp among
  exact other v inside

/-- What is stored at a point is neither stored nor read at another one. -/
def Apart (bindings : Bindings) (points : Set Point) (statements : List Statement) : Prop :=
  ∀ s ∈ statements, ∀ s' ∈ statements, ∀ point ∈ points, ∀ point' ∈ points, ∀ place,
    s.target.place? bindings point = some place →
    ∀ leaf ∈ s'.target :: s'.value.leaves, leaf.place? bindings point' = some place → point = point'

end Statement

/-! ### Courses -/

/-- Where statements are carried out, and among which places. For each point it says over which points the
products are folded. -/
structure Course where
  points : Set Point
  terms : Point → Nat → Point
  count : Nat
  places : Set Place

namespace Course

variable {course : Course} {r : Reading α} {type : NumericType} {m m₁ m₂ : Memory α}
  {statements : List Statement} {bindings : Bindings}

/-- The statements with the values that their products have at a point. -/
def values (course : Course) (r : Reading α) (type : NumericType) (point : Point)
    (statements : List Statement) : List (Statement × α) :=
  statements.map fun s => (s, s.productValue r type (course.terms point) course.count)

/-- What statements leave that are carried out at every point of a course: among its places they change
their targets only, and a target holds what all of them leave there at its point. -/
structure Spread (course : Course) (r : Reading α) (type : NumericType) (statements : List Statement)
    (m : Memory α) : Prop where
  stored : ∀ point ∈ course.points, ∀ s ∈ statements, ∀ place,
    s.target.place? r.bindings point = some place →
      (m place).value = (Statement.settle r point (course.values r type point statements) place).value
  others : ∀ place ∈ course.places, (∀ point ∈ course.points, ∀ s ∈ statements,
    s.target.place? r.bindings point ≠ some place) → (m place).value = (r.memory place).value

/-- Among the places of a course stands what statements use at its points. -/
structure Fits (course : Course) (bindings : Bindings) (statements : List Statement) : Prop where
  keeps : ∀ s ∈ statements, ∀ point ∈ course.points, s.Keeps bindings point course.places
  products : ∀ s ∈ statements, ∀ p ∈ s.value.products, ∀ leaf ∈ p.leaves, ∀ point ∈ course.points,
    ∀ j < course.count, ∀ place, leaf.place? bindings (course.terms point j) = some place →
      place ∈ course.places

/-- Statements that may be carried out in any order of the points: what is stored at a point is neither
stored nor read at another one, and no product reads what an earlier statement stores. -/
structure Independent (course : Course) (bindings : Bindings) (statements : List Statement) : Prop where
  apart : Statement.Apart bindings course.points statements
  products : statements.Pairwise fun earlier later => ∀ p ∈ later.value.products, ∀ leaf ∈ p.leaves,
    ∀ point ∈ course.points, ∀ j < course.count, ∀ place,
      leaf.place? bindings (course.terms point j) = some place →
      ∀ point' ∈ course.points, earlier.target.place? bindings point' ≠ some place

/-- Without statements all is as it was. -/
theorem Spread.nil : course.Spread r type [] r.memory where
  stored _ _ _ none := absurd none List.not_mem_nil
  others _ _ _ := rfl

/-- **The values are determined** that statements leave. -/
theorem Spread.unique (first : course.Spread r type statements m₁) (second : course.Spread r type statements m₂) :
    Statement.SameValues course.places m₁ m₂ := by
  intro place member
  by_cases target : ∃ point ∈ course.points, ∃ s ∈ statements,
      s.target.place? r.bindings point = some place
  · obtain ⟨point, inside, s, among, stored⟩ := target
    rw [first.stored point inside s among place stored, second.stored point inside s among place stored]
  · have other : ∀ point ∈ course.points, ∀ s ∈ statements,
        s.target.place? r.bindings point ≠ some place :=
      fun point inside s among stored => target ⟨point, inside, s, among, stored⟩
    rw [first.others place member other, second.others place member other]

/-- **A further statement may be carried out everywhere after the ones before it.** -/
theorem Spread.snoc {before : List Statement} {s : Statement}
    (first : course.Spread r type before m₁)
    (second : course.Spread { r with memory := m₁ } type [s] m₂)
    (fits : course.Fits r.bindings (before ++ [s]))
    (independent : course.Independent r.bindings (before ++ [s])) :
    course.Spread r type (before ++ [s]) m₂ := by
  have last : s ∈ before ++ [s] := List.mem_append_right _ (List.mem_singleton_self s)
  have apart {s' : Statement} (earlier : s' ∈ before) {point point' : Point}
      (inside : point ∈ course.points) (inside' : point' ∈ course.points) {place : Place}
      (stored : s'.target.place? r.bindings point = some place) {leaf : Expr}
      (used : leaf ∈ s.target :: s.value.leaves)
      (reads : leaf.place? r.bindings point' = some place) : point = point' :=
    independent.apart s' (List.mem_append_left _ earlier) s last point inside point' inside' place stored
      leaf used reads
  -- The product has the value that it has at first.
  have product {point : Point} (inside : point ∈ course.points) :
      course.values { r with memory := m₁ } type point [s] = course.values r type point [s] := by
    refine congrArg (fun x => [(s, x)]) (Statement.productValue_congr fun p single leaf reads j below
      place found => ?_)
    refine first.others place (fits.products s last p single leaf reads point inside j below place found)
      fun point' inside' s' earlier => ?_
    exact (List.pairwise_append.mp independent.products).2.2 s' earlier s (List.mem_singleton_self s) p
      single leaf reads point inside j below place found point' inside'
  -- The places that the statement uses at a point hold what those before it leave there.
  have found {point : Point} (inside : point ∈ course.points) {place : Place} {leaf : Expr}
      (used : leaf ∈ s.target :: s.value.leaves) (reads : leaf.place? r.bindings point = some place) :
      (m₁ place).value =
        (Statement.settle r point (course.values r type point before) place).value := by
    by_cases target : ∃ point' ∈ course.points, ∃ s' ∈ before,
        s'.target.place? r.bindings point' = some place
    · obtain ⟨point', inside', s', earlier, stored⟩ := target
      obtain rfl := apart earlier inside' inside stored used reads
      exact first.stored point' inside' s' earlier place stored
    · have other : ∀ point' ∈ course.points, ∀ s' ∈ before,
          s'.target.place? r.bindings point' ≠ some place :=
        fun point' inside' s' earlier stored => target ⟨point', inside', s', earlier, stored⟩
      have member : place ∈ course.places := (List.mem_cons.mp used).elim
        (fun is => (fits.keeps s last point inside).target place (is ▸ reads))
        fun value => (fits.keeps s last point inside).value leaf value place reads
      rw [first.others place member other, Statement.settle_of_ne fun v among stored => ?_]
      obtain ⟨s', earlier, rfl⟩ := List.mem_map.mp among
      exact other point inside s' earlier stored
  have used {point : Point} : s.Keeps r.bindings point {place | ∃ leaf ∈ s.target :: s.value.leaves,
      leaf.place? r.bindings point = some place} :=
    ⟨fun _ stored => ⟨_, List.mem_cons_self, stored⟩, fun leaf inside _ reads =>
      ⟨leaf, List.mem_cons_of_mem _ inside, reads⟩⟩
  have split (point : Point) : course.values r type point (before ++ [s]) =
      course.values r type point before ++
        [(s, s.productValue r type (course.terms point) course.count)] := List.map_append
  refine ⟨fun point inside s' among place stored => ?_, fun place member other => ?_⟩
  · rw [split, Statement.settle_append_singleton]
    by_cases here : s.target.place? r.bindings point = some place
    · rw [second.stored point inside s (List.mem_singleton_self s) place here, product inside]
      refine (show Statement.SameValues {place | ∃ leaf ∈ s.target :: s.value.leaves,
          leaf.place? r.bindings point = some place}
        (Statement.carry { r with memory := Statement.settle r point _ } point (Statement.entry (s, _)))
        (Statement.carry { r with memory := m₁ } point (Statement.entry (s, _))) from
          Statement.carry_sameValues used rfl rfl ?_) place ⟨_, List.mem_cons_self, here⟩
      rintro place' ⟨leaf, used, reads⟩
      exact found inside used reads
    · have earlier : s' ∈ before := (List.mem_append.mp among).resolve_right fun is => by
        obtain rfl := List.mem_singleton.mp is
        exact here stored
      rw [Statement.carry_of_ne (r := { r with memory := Statement.settle r point _ }) here,
        ← first.stored point inside s' earlier place stored]
      refine second.others place ((fits.keeps s' among point inside).target place stored)
        fun point' inside' x is reads => ?_
      obtain rfl := List.mem_singleton.mp is
      obtain rfl := apart earlier inside inside' stored List.mem_cons_self reads
      exact here reads
  · rw [← first.others place member fun point inside s' among =>
      other point inside s' (List.mem_append_left _ among)]
    refine second.others place member fun point inside x is => ?_
    obtain rfl := List.mem_singleton.mp is
    exact other point inside x last

end Course

/-! ### Programs -/

/-- The kernels of a program, launched one after the other over any memory, carry out statements at the
points of a course. -/
def Program.CarriesOut (program : Program) (host : String → α) (bindings : Bindings) (e : Elements α)
    (type : NumericType) (course : Course) (statements : List Statement) : Prop :=
  ∀ m, Kernel.EndInTurn host bindings e program.kernels m
    (course.Spread ⟨e, host, bindings, m⟩ type statements)

namespace Course

variable {course : Course} {type : NumericType} {statements : List Statement} {host : String → α}
  {bindings : Bindings} {e : Elements α} {programs : List Program}

/-- **Independent statements may be carried out one after the other everywhere**, each by a program of its
own. -/
theorem inTurn (singles : List.Forall₂ (fun s program =>
      program.CarriesOut host bindings e type course [s]) statements programs)
    (fits : course.Fits bindings statements) (independent : course.Independent bindings statements)
    (m : Memory α) : Kernel.EndInTurn host bindings e (programs.flatMap Program.kernels) m
      (course.Spread ⟨e, host, bindings, m⟩ type statements) := by
  suffices general : ∀ rest programs, List.Forall₂ (fun s program =>
      Program.CarriesOut program host bindings e type course [s]) rest programs →
      ∀ before m₁, statements = before ++ rest → course.Spread ⟨e, host, bindings, m⟩ type before m₁ →
        Kernel.EndInTurn host bindings e (programs.flatMap Program.kernels) m₁
          (course.Spread ⟨e, host, bindings, m⟩ type statements) from
    general statements programs singles [] m rfl .nil
  intro rest programs singles
  induction singles with
  | nil =>
    intro before m₁ all spread
    rw [List.append_nil] at all
    exact all ▸ spread
  | @cons s program rest programs carries _ ih =>
    intro before m₁ all spread
    have all' : statements = (before ++ [s]) ++ rest := by
      rw [all, List.append_assoc]
      rfl
    have sub : before ++ [s] ⊆ statements := all' ▸ List.subset_append_left _ _
    refine (((carries m₁).weaken fun m₂ second => ih (before ++ [s]) m₂ all' ?_)).append
    refine spread.snoc second ⟨fun s' member => fits.keeps s' (sub member), fun s' member =>
      fits.products s' (sub member)⟩ ⟨fun s' member s'' member' =>
        independent.apart s' (sub member) s'' (sub member'), ?_⟩
    exact independent.products.sublist (all' ▸ List.sublist_append_left _ _)

/-- **A batch leaves what its statements alone leave one after the other.** -/
theorem batches {program : Program}
    (carries : program.CarriesOut host bindings e type course statements)
    (singles : List.Forall₂ (fun s program =>
      program.CarriesOut host bindings e type course [s]) statements programs)
    (fits : course.Fits bindings statements) (independent : course.Independent bindings statements)
    (m : Memory α) : Kernel.EndInTurn host bindings e program.kernels m fun m' =>
      Kernel.EndInTurn host bindings e (programs.flatMap Program.kernels) m fun m'' =>
        Statement.SameValues course.places m' m'' :=
  (carries m).weaken fun _ batch => (inTurn singles fits independent m).weaken fun _ alone =>
    batch.unique alone

end Course

end TunedKernel
