/-
**What terms and steps of kernel code do.**

Indices are natural numbers and are formed exactly; a difference below zero and a quotient by zero
have no value. A value of elements has lanes: that of a vector repeats its lanes, and that of a
scalar has the same element in every lane. A worker evaluates over the names it has bound and over
the memory it shares with the others.

* `Place`, `Cell`, `Memory` — an element of a buffer or array, its content with the stores that led
  to it, and all of them.
* `Binding`, `Names` — what a name stands for.
* `Worker`, `Worker.answer?` — a worker, and its answers to questions about the work-item.
* `Term.number?`, `Term.holds?`, `Term.value?` — an index, a condition and a value of elements.
* `Term.spot?` — the places that an access names.
* `Step.exec?` — a step over the names and the memory.
* `Step.exec?_local` — a step that keeps inside its reads and writes does the same in every memory
  that agrees on the reads.
-/

import Mathlib.Data.Set.Function
import Mathlib.Logic.Function.Basic
import TunedKernel.Kernel.Code
import TunedKernel.Kernel.Geometry
import TunedKernel.Proofs.Execution.Elements

namespace TunedKernel

variable {α : Type}

/-! ### Memory -/

/-- Where an element is stored. -/
inductive Place where
  /-- In a buffer of the device. -/
  | global (buffer : String) (index : Nat)
  /-- In an array that a group shares. -/
  | shared (group : Triple Nat) (array : String) (subscripts : List Nat)
  /-- In an array of one worker. -/
  | own (group lane : Triple Nat) (array : String) (subscripts : List Nat)
deriving DecidableEq

/-- The content of a place. -/
structure Cell (α : Type) where
  value : α
  /-- The stores into the place, in the order in which they were carried out. -/
  history : List Step

/-- The contents of all places. -/
abbrev Memory (α : Type) := Place → Cell α

/-- The places that an access names. A vector has one for each lane, and its lanes repeat. -/
structure Spot where
  width : Nat
  place : Nat → Place

namespace Spot

/-- A single place. -/
def single (place : Place) : Spot := ⟨1, fun _ => place⟩

/-- An element of a buffer whose elements have so many lanes. -/
def packed (buffer : String) (width index : Nat) : Spot :=
  ⟨width, fun lane => .global buffer (index * width + lane % width)⟩

theorem packed_one (buffer : String) (index : Nat) :
    packed buffer 1 index = single (.global buffer index) := by
  unfold packed single
  congr
  funext lane
  rw [Nat.mul_one, Nat.mod_one, Nat.add_zero]

end Spot

/-- A memory after a store into one lane of a spot. -/
def Memory.writeLane (spot : Spot) (change : Nat → Cell α → Cell α) (m : Memory α) (lane : Nat) :
    Memory α :=
  Function.update m (spot.place lane) (change lane (m (spot.place lane)))

/-- A memory after a store into every lane of a spot. -/
def Memory.write (m : Memory α) (spot : Spot) (change : Nat → Cell α → Cell α) : Memory α :=
  (List.range spot.width).foldl (Memory.writeLane spot change) m

/-! ### Names -/

/-- What a name stands for. -/
inductive Binding (α : Type) where
  /-- An unsigned number. -/
  | index (n : Nat)
  /-- A value of elements, by lanes. -/
  | value (lanes : Nat → α)
  /-- A buffer of the device whose elements have so many lanes. -/
  | buffer (width : Nat)
  | sharedArray (dims : List Nat)
  | ownArray (dims : List Nat)

/-- What names stand for. -/
abbrev Names (α : Type) := String → Option (Binding α)

/-- The same names, but for one that is bound anew. -/
def Names.bind (names : Names α) (name : String) (binding : Binding α) : Names α :=
  Function.update names name (some binding)

theorem Names.bind_apply (names : Names α) (name other : String) (binding : Binding α) :
    names.bind name binding other = if other = name then some binding else names other :=
  Function.update_apply ..

@[simp] theorem Names.bind_self (names : Names α) (name : String) (binding : Binding α) :
    names.bind name binding name = some binding := Function.update_self ..

theorem Names.bind_of_ne {names : Names α} {name other : String} {binding : Binding α}
    (ne : other ≠ name) : names.bind name binding other = names other :=
  Function.update_of_ne ne ..

/-! ### Workers -/

/-- The value for a dimension. -/
def Triple.get? {β : Type} (t : Triple β) : Nat → Option β
  | 0 => some t.first
  | 1 => some t.second
  | 2 => some t.third
  | _ => none

/-- A worker of a launch. -/
structure Worker where
  /-- The workers of a group along each dimension. -/
  localSizes : Triple Nat
  /-- The groups along each dimension. -/
  groups : Triple Nat
  group : Triple Nat
  lane : Triple Nat

/-- The answer to a question about the work-item. -/
def Worker.answer? (w : Worker) (question : Query) (dimension : Nat) : Option Nat := do
  let size ← w.localSizes.get? dimension
  let groups ← w.groups.get? dimension
  let group ← w.group.get? dimension
  let lane ← w.lane.get? dimension
  match question with
  | .globalId => return group * size + lane
  | .localId => return lane
  | .groupId => return group
  | .globalSize => return groups * size
  | .localSize => return size

/-! ### Indices and conditions -/

/-- An operator between two indices. -/
def TermOp.number? (op : TermOp) (a b : Nat) : Option Nat :=
  match op with
  | .add => some (a + b)
  | .sub => if b ≤ a then some (a - b) else none
  | .mul => some (a * b)
  | .div => if b = 0 then none else some (a / b)
  | .mod => if b = 0 then none else some (a % b)
  | .less | .equal | .both => none

namespace Term

/-- The index that a term stands for. -/
def number? (w : Worker) (names : Names α) : Term → Option Nat
  | name identifier =>
    match names identifier with
    | some (.index n) => some n
    | _ => none
  | number n | count n => some n
  | query question dimension => w.answer? question dimension
  | binary op lhs rhs => do op.number? (← lhs.number? w names) (← rhs.number? w names)
  | paren inner => inner.number? w names
  | call₂ function first second =>
    if function = "min" then do
      return min (← first.number? w names) (← second.number? w names)
    else none
  | cast type operand => if type = ValueType.index.text then operand.number? w names else none
  | verbatim _ | negate _ | call _ _ | index _ _ | lane _ _ => none

section

variable {w : Worker} {names : Names α} {s t : Term} {a b : Nat}

theorem number?_name {x : String} (bound : names x = some (.index a)) :
    (name x).number? w names = some a := by rw [number?, bound]

theorem number?_add (left : s.number? w names = some a) (right : t.number? w names = some b) :
    (s + t).number? w names = some (a + b) := by
  show (s.number? w names).bind _ = _
  rw [left, right]
  rfl

theorem number?_sub (left : s.number? w names = some a) (right : t.number? w names = some b)
    (le : b ≤ a) : (s - t).number? w names = some (a - b) := by
  show (s.number? w names).bind _ = _
  rw [left, right]
  exact if_pos le

theorem number?_mul (left : s.number? w names = some a) (right : t.number? w names = some b) :
    (s * t).number? w names = some (a * b) := by
  show (s.number? w names).bind _ = _
  rw [left, right]
  rfl

theorem number?_div (left : s.number? w names = some a) (right : t.number? w names = some b)
    (positive : 0 < b) : (s / t).number? w names = some (a / b) := by
  show (s.number? w names).bind _ = _
  rw [left, right]
  exact if_neg (Nat.ne_of_gt positive)

theorem number?_mod (left : s.number? w names = some a) (right : t.number? w names = some b)
    (positive : 0 < b) : (s % t).number? w names = some (a % b) := by
  show (s.number? w names).bind _ = _
  rw [left, right]
  exact if_neg (Nat.ne_of_gt positive)

end

/-- Whether a condition holds. -/
def holds? (w : Worker) (names : Names α) : Term → Option Bool
  | binary .less lhs rhs => do
    return decide ((← lhs.number? w names) < (← rhs.number? w names))
  | binary .equal lhs rhs => do
    return decide ((← lhs.number? w names) = (← rhs.number? w names))
  | binary .both lhs rhs => do return (← lhs.holds? w names) && (← rhs.holds? w names)
  | _ => none

/-! ### Accesses -/

/-- The array that an access names, with its subscripts. -/
def access? : Term → Option (String × List Term)
  | name identifier => some (identifier, [])
  | index base subscript => base.access?.map fun found => (found.1, found.2 ++ [subscript])
  | _ => none

/-- Whether subscripts lie inside the dimensions of an array. -/
def inside : List Nat → List Nat → Bool
  | [], [] => true
  | n :: ns, d :: ds => decide (n < d) && inside ns ds
  | _, _ => false

/-- The places that an access names, given what its array stands for and the numbers of its
subscripts. -/
def resolve (w : Worker) (array : String) (binding : Option (Binding α)) (subscripts : List Nat) :
    Option Spot :=
  match binding, subscripts with
  | some (.buffer width), [n] => some (Spot.packed array width n)
  | some (.sharedArray dims), ns =>
    if inside ns dims then some (Spot.single (.shared w.group array ns)) else none
  | some (.ownArray dims), ns =>
    if inside ns dims then some (Spot.single (.own w.group w.lane array ns)) else none
  | _, _ => none

/-- The places that an access names. -/
def spot? (w : Worker) (names : Names α) (t : Term) : Option Spot := do
  let (array, subscripts) ← t.access?
  resolve w array (names array) (← subscripts.mapM fun s => s.number? w names)

/-! ### Values of elements -/

/-- The operator on elements that a sign between two terms stands for. -/
def elementOp? : TermOp → Option BinaryOp
  | .add => some .add
  | .sub => some .sub
  | .mul => some .mul
  | .div => some .div
  | .mod | .less | .equal | .both => none

/-- The function of elements that has a name in the kernel language. -/
def elementFn? (function : String) : Option UnaryFn :=
  if function = "fabs" ∨ function = "abs" then some .abs
  else if function = "sqrt" then some .sqrt
  else if function = "exp" then some .exp
  else if function = "log" then some .log
  else none

/-- The operator on elements that has the name of a function in the kernel language. -/
def elementFn₂? (function : String) : Option BinaryOp :=
  if function = "max" then some .max else if function = "min" then some .min else none

/-- The constants that the kernel language has under a name. -/
def constants : List String :=
  ["INT_MIN", "INT_MAX", "UINT_MAX", "LONG_MIN", "LONG_MAX", "ULONG_MAX", "INFINITY"]

/-- Whether a text is an unsigned numeral: it starts with a digit and goes on with letters, digits
and dots. -/
def isNumeral (s : String) : Bool :=
  match s.toList with
  | [] => false
  | first :: rest => first.isDigit && rest.all fun c => c.isAlphanum || c == '.'

/-- The value of elements that a term stands for, by lanes. -/
def value? (w : Worker) (e : Elements α) (names : Names α) (m : Memory α) :
    Term → Option (Nat → α)
  | verbatim s => if isNumeral s then some fun _ => e.literal s else none
  | name identifier =>
    match names identifier with
    | some (.value lanes) => some lanes
    | some _ => none
    | none => if identifier ∈ constants then some fun _ => e.constant identifier else none
  | number n => some fun _ => e.number n
  | binary op lhs rhs => do
    let op ← elementOp? op
    let x ← lhs.value? w e names m
    let y ← rhs.value? w e names m
    return fun l => e.binary op (x l) (y l)
  | negate operand => do
    let x ← operand.value? w e names m
    return fun l => e.unary .neg (x l)
  | paren inner => inner.value? w e names m
  | call function argument => do
    let func ← elementFn? function
    let x ← argument.value? w e names m
    return fun l => e.unary func (x l)
  | call₂ function first second => do
    let op ← elementFn₂? function
    let x ← first.value? w e names m
    let y ← second.value? w e names m
    return fun l => e.binary op (x l) (y l)
  | index base subscript => do
    let spot ← (index base subscript).spot? w names
    return fun l => (m (spot.place l)).value
  | lane base n => do
    let x ← base.value? w e names m
    return fun _ => x n
  | cast _ operand => operand.value? w e names m
  | count _ | query _ _ => none

/-- Every place that the value of a term depends on is one of these. -/
def Within (w : Worker) (names : Names α) (reads : Set Place) : Term → Prop
  | binary _ lhs rhs => lhs.Within w names reads ∧ rhs.Within w names reads
  | call₂ _ first second => first.Within w names reads ∧ second.Within w names reads
  | negate operand | paren operand | call _ operand | lane operand _ | cast _ operand =>
    operand.Within w names reads
  | index base subscript =>
    ∀ spot, (index base subscript).spot? w names = some spot → ∀ l, spot.place l ∈ reads
  | verbatim _ | name _ | number _ | count _ | query _ _ => True

/-- A term has the same value in every memory that agrees on what it reads. -/
theorem value?_local {w : Worker} {e : Elements α} {names : Names α} {reads : Set Place}
    {m m' : Memory α} (agree : Set.EqOn m' m reads) :
    ∀ t : Term, t.Within w names reads → t.value? w e names m' = t.value? w e names m
  | binary op lhs rhs, inside => by
    rw [value?, value?, value?_local agree lhs inside.1, value?_local agree rhs inside.2]
  | call₂ function first second, inside => by
    rw [value?, value?, value?_local agree first inside.1, value?_local agree second inside.2]
  | negate operand, inside => by rw [value?, value?, value?_local agree operand inside]
  | paren operand, inside => by rw [value?, value?, value?_local agree operand inside]
  | call function operand, inside => by rw [value?, value?, value?_local agree operand inside]
  | lane operand n, inside => by rw [value?, value?, value?_local agree operand inside]
  | cast type operand, inside => by rw [value?, value?, value?_local agree operand inside]
  | index base subscript, inside => by
    rw [value?, value?]
    cases found : (index base subscript).spot? w names with
    | none => rfl
    | some spot =>
      have same : (fun l => (m' (spot.place l)).value) = fun l => (m (spot.place l)).value := by
        funext l
        rw [agree (inside spot found l)]
      exact congrArg some same
  | verbatim _, _ | name _, _ | number _, _ | count _, _ | query _ _, _ => rfl

end Term

/-! ### Steps -/

namespace Step

/-- A step over the names of a worker and the memory. A store is noted at every place it changes. -/
def exec? (w : Worker) (e : Elements α) (s : Step) (names : Names α) (m : Memory α) :
    Option (Names α × Memory α) :=
  match s with
  | declare .index name value => do
    let n ← value.number? w names
    return (names.bind name (.index n), m)
  | declare (.packed _ _) name value => do
    let x ← value.value? w e names m
    return (names.bind name (.value x), m)
  | declareLocal memory => some (names.bind memory.name (.sharedArray memory.dims), m)
  | declareArray _ name dims => some (names.bind name (.ownArray dims), m)
  | store (.name name) op value =>
    match names name with
    | some (.value old) => do
      let x ← value.value? w e names m
      return (names.bind name (.value fun l => e.store op (old l) (x l)), m)
    | _ => none
  | store target op value => do
    let spot ← target.spot? w names
    let x ← value.value? w e names m
    return (names, m.write spot fun l cell =>
      ⟨e.store op cell.value (x l), cell.history ++ [store target op value]⟩)
  | barrier => none

/-- A store into anything but a variable goes to memory. -/
theorem exec?_store {w : Worker} {e : Elements α} {names : Names α} {m : Memory α} {target : Term}
    (access : ∀ x, target ≠ .name x) (op : AssignOp) (value : Term) :
    (store target op value).exec? w e names m = (do
      let spot ← target.spot? w names
      let x ← value.value? w e names m
      return (names, m.write spot fun l cell =>
        ⟨e.store op cell.value (x l), cell.history ++ [store target op value]⟩)) := by
  cases target
  case name x => exact absurd rfl (access x)
  all_goals rfl

/-- A step reads and writes only these places; what it writes it may also read. -/
def Within (w : Worker) (names : Names α) (reads writes : Set Place) : Step → Prop
  | declare (.packed _ _) _ value => value.Within w names reads
  | store (.name _) _ value => value.Within w names reads
  | store target _ value => value.Within w names reads ∧
    ∀ spot, target.spot? w names = some spot → ∀ l, spot.place l ∈ reads ∩ writes
  | declare .index _ _ | declareLocal _ | declareArray _ _ _ | barrier => True

theorem within_store {w : Worker} {names : Names α} {reads writes : Set Place} {target : Term}
    (access : ∀ x, target ≠ .name x) (op : AssignOp) (value : Term) :
    (store target op value).Within w names reads writes ↔ value.Within w names reads ∧
      ∀ spot, target.spot? w names = some spot → ∀ l, spot.place l ∈ reads ∩ writes := by
  cases target
  case name x => exact absurd rfl (access x)
  all_goals rfl

end Step

/-- A store into a spot inside the reads and writes does the same in every memory that agrees on the
reads, and changes nothing but the writes. -/
theorem Memory.write_local {reads writes : Set Place} {m m' : Memory α} {spot : Spot}
    (inside : ∀ l, spot.place l ∈ reads ∩ writes) (agree : Set.EqOn m' m reads)
    (change : Nat → Cell α → Cell α) :
    Set.EqOn (m'.write spot change) (m.write spot change) reads ∧
      Set.EqOn (m'.write spot change) m' writesᶜ := by
  have general (lanes : List Nat) : ∀ k k' : Memory α, Set.EqOn k' k reads →
      Set.EqOn k' m' writesᶜ →
      Set.EqOn (lanes.foldl (writeLane spot change) k') (lanes.foldl (writeLane spot change) k)
        reads ∧ Set.EqOn (lanes.foldl (writeLane spot change) k') m' writesᶜ := by
    induction lanes with
    | nil => exact fun k k' same kept => ⟨same, kept⟩
    | cons lane rest ih =>
      intro k k' same kept
      refine ih _ _ (fun p read => ?_) (fun p outside => ?_)
      · unfold writeLane
        by_cases here : p = spot.place lane
        · rw [here, Function.update_self, Function.update_self, same (inside lane).1]
        · rw [Function.update_of_ne here, Function.update_of_ne here, same read]
      · have elsewhere : p ≠ spot.place lane := fun here => outside (here ▸ (inside lane).2)
        rw [writeLane, Function.update_of_ne elsewhere, kept outside]
  exact general _ m m' agree (Set.eqOn_refl _ _)

/-- **A step that keeps inside its reads and writes is local.** In every memory that agrees on the
reads it does the same, and it changes nothing but the writes. -/
theorem Step.exec?_local {w : Worker} {e : Elements α} {names names' : Names α}
    {reads writes : Set Place} {m m' k : Memory α} (s : Step)
    (inside : s.Within w names reads writes) (done : s.exec? w e names m = some (names', k))
    (agree : Set.EqOn m' m reads) :
    ∃ k', s.exec? w e names m' = some (names', k') ∧ Set.EqOn k' k reads ∧
      Set.EqOn k' m' writesᶜ := by
  have unchanged (same : k = m) (again : s.exec? w e names m' = some (names', m')) :
      ∃ k', s.exec? w e names m' = some (names', k') ∧ Set.EqOn k' k reads ∧
        Set.EqOn k' m' writesᶜ :=
    ⟨m', again, same ▸ agree, Set.eqOn_refl _ _⟩
  cases s with
  | barrier => cases done
  | declareLocal memory =>
    cases done
    exact unchanged rfl rfl
  | declareArray type name dims =>
    cases done
    exact unchanged rfl rfl
  | declare type name value =>
    cases type with
    | index =>
      obtain ⟨n, found, result⟩ := Option.bind_eq_some_iff.mp done
      cases result
      exact unchanged rfl (Option.bind_eq_some_iff.mpr ⟨n, found, rfl⟩)
    | packed type width =>
      obtain ⟨x, found, result⟩ := Option.bind_eq_some_iff.mp done
      cases result
      refine unchanged rfl (Option.bind_eq_some_iff.mpr ⟨x, ?_, rfl⟩)
      rw [Term.value?_local agree value inside, found]
  | store target op value =>
    by_cases isName : ∃ x, target = .name x
    · obtain ⟨x, rfl⟩ := isName
      cases bound : names x with
      | none => simp [exec?, bound] at done
      | some binding =>
        cases binding with
        | value old =>
          simp only [exec?, bound] at done ⊢
          obtain ⟨v, found, result⟩ := Option.bind_eq_some_iff.mp done
          cases result
          rw [Term.value?_local agree value inside, found]
          exact ⟨m', rfl, agree, Set.eqOn_refl _ _⟩
        | _ => simp [exec?, bound] at done
    · have access : ∀ x, target ≠ .name x := fun x same => isName ⟨x, same⟩
      obtain ⟨reading, places⟩ := (within_store access op value).mp inside
      rw [exec?_store access] at done ⊢
      obtain ⟨spot, located, result⟩ := Option.bind_eq_some_iff.mp done
      obtain ⟨x, found, result⟩ := Option.bind_eq_some_iff.mp result
      cases result
      rw [located, Term.value?_local agree value reading, found]
      obtain ⟨same, kept⟩ := Memory.write_local (places spot located) agree
        fun l cell => ⟨e.store op cell.value (x l), cell.history ++ [store target op value]⟩
      exact ⟨_, rfl, same, kept⟩

end TunedKernel
