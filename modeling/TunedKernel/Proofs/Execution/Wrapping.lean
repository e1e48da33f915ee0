/-
**Threads that count in machine words.**

The kernel language counts in words: a variable has 32 bits, the runtime answers in 64 bits, a constant
has the narrower word that holds it, an operator brings both operands to the wider of their words and
wraps, and a variable keeps the lower 32 bits of what it is given. Loops and conditions depend on nothing
else, so a thread is followed without any memory.

* `Term.unsigned?`, `Term.decides?` — an index and a condition in words.
* `Thread.wrapped?`, `Thread.Winds`, `Thread.Halts` — the next move of a thread that counts in words, a
  number of moves, and that it comes to its end.
* `Thread.not_halts_of_cycle` — a thread does not halt that always comes to a further trip.
* `exists_le_orbit_iff` — when numbers that are a stride apart, wrapped, come to a bound; `Reaches` — that
  they do in 32 bits, wherever they start.
-/

import Mathlib.Data.Int.GCD
import TunedKernel.Proofs.Execution.Outline

namespace TunedKernel

/-! ### Numbers in words -/

namespace Word

/-- The word that two numbers are brought to. -/
def join : Word → Word → Word
  | bits32, bits32 => bits32
  | _, _ => bits64

/-- The word of a constant below a limit, and of any other. -/
def ofConstant (limit n : Nat) : Word := if n < limit then bits32 else bits64

end Word

/-- An operator between two numbers of a word, which wraps. -/
def TermOp.wrapped? (op : TermOp) (w : Word) (a b : Nat) : Option Nat :=
  match op with
  | .add => some ((a + b) % w.limit)
  | .sub => some ((a + w.limit - b) % w.limit)
  | .mul => some (a * b % w.limit)
  | .div => if b = 0 then none else some (a / b)
  | .mod => if b = 0 then none else some (a % b)
  | .less | .equal | .both => none

namespace Term

variable {α : Type}

/-- The index that a term stands for, with its word. A constant without a mark has 32 bits below the
sign bit only. -/
def unsigned? (w : Worker) (names : Names α) : Term → Option (Word × Nat)
  | name identifier =>
    match names identifier with
    | some (.index n) => some (.bits32, n)
    | _ => none
  | number n => some (.ofConstant (2 ^ 31) n, n)
  | count n => some (.ofConstant (2 ^ 32) n, n)
  | query question dimension => (w.answer? question dimension).map (Word.bits64, ·)
  | binary op lhs rhs => do
    let a ← lhs.unsigned? w names
    let b ← rhs.unsigned? w names
    let word := a.1.join b.1
    return (word, ← op.wrapped? word a.2 b.2)
  | paren inner => inner.unsigned? w names
  | call₂ function first second =>
    if function = "min" then do
      let a ← first.unsigned? w names
      let b ← second.unsigned? w names
      return (a.1.join b.1, min a.2 b.2)
    else none
  | cast type operand =>
    if type = ValueType.index.text then
      (operand.unsigned? w names).map fun a => (Word.bits32, a.2 % Word.bits32.limit)
    else none
  | verbatim _ | negate _ | call _ _ | index _ _ | lane _ _ => none

/-- Whether a condition holds. -/
def decides? (w : Worker) (names : Names α) : Term → Option Bool
  | binary .less lhs rhs => do
    return decide ((← lhs.unsigned? w names).2 < (← rhs.unsigned? w names).2)
  | binary .equal lhs rhs => do
    return decide ((← lhs.unsigned? w names).2 = (← rhs.unsigned? w names).2)
  | binary .both lhs rhs => do return (← lhs.decides? w names) && (← rhs.decides? w names)
  | _ => none

end Term

/-! ### Moves -/

/-- What a variable of an index holds of a number: its lower 32 bits. -/
def Binding.wrapped (n : Word × Nat) : Binding Unit := .index (n.2 % Word.bits32.limit)

/-- The names after a step. -/
def Step.wrapped? (w : Worker) (names : Names Unit) : Step → Option (Names Unit)
  | declare .index name value =>
    (value.unsigned? w names).map fun n => names.bind name (.wrapped n)
  | s => s.names? w names

/-- The next move of a thread that counts in words. -/
def Thread.wrapped? (w : Worker) (t : Thread Unit) : Option (Thread Unit) :=
  match t.todo with
  | [] => none
  | .run .done :: rest => some ⟨rest, t.names⟩
  | .run (.step s code) :: rest => (s.wrapped? w t.names).map fun names => ⟨.run code :: rest, names⟩
  | .run (.loop l body code) :: rest =>
    (l.first.unsigned? w t.names).map fun n =>
      ⟨.check l body :: .run code :: rest, t.names.bind l.counter (.wrapped n)⟩
  | .run (.guarded condition body code) :: rest =>
    (condition.decides? w t.names).map fun holds =>
      ⟨if holds then .run body :: .run code :: rest else .run code :: rest, t.names⟩
  | .check l body :: rest =>
    (l.condition.decides? w t.names).map fun holds =>
      ⟨if holds then .run body :: .advance l body :: rest else rest, t.names⟩
  | .advance l body :: rest =>
    (l.next.unsigned? w t.names).map fun n =>
      ⟨.check l body :: rest, t.names.bind l.counter (.wrapped n)⟩

namespace Thread

variable {w : Worker} {t : Thread Unit}

/-- A number of moves of a thread that counts in words. -/
def Winds (w : Worker) : Thread Unit → Thread Unit → Prop :=
  Relation.ReflTransGen fun t t' => t.wrapped? w = some t'

/-- A thread comes to its end, after finitely many moves. -/
def Halts (w : Worker) (t : Thread Unit) : Prop := ∃ names, t.Winds w ⟨[], names⟩

/-- **A thread does not halt that always comes to a further one of its kind.** Moves are unique, so none
on the way to the end can be left out. -/
theorem not_halts_of_cycle (kind : Thread Unit → Prop)
    (further : ∀ t, kind t → ∃ t₁ t₂, t.wrapped? w = some t₁ ∧ t₁.Winds w t₂ ∧ kind t₂)
    (here : kind t) : ¬ t.Halts w := by
  rintro ⟨names, ends⟩
  suffices none : ∀ t', t.Winds w t' → ¬ kind t' from none t .refl here
  clear here
  induction ends using Relation.ReflTransGen.head_induction_on with
  | refl =>
    intro t' winds there
    rcases Relation.ReflTransGen.cases_head winds with rfl | ⟨_, moves, -⟩
    · obtain ⟨_, _, moves, -⟩ := further _ there
      cases moves
    · cases moves
  | head moves _ ih =>
    intro t' winds there
    rcases Relation.ReflTransGen.cases_head winds with rfl | ⟨_, moves', winds⟩
    · obtain ⟨_, t₂, moves', winds, again⟩ := further _ there
      cases moves.symm.trans moves'
      exact ih t₂ winds again
    · cases moves.symm.trans moves'
      exact ih t' winds there

end Thread

/-! ### Counting round a word -/

/-- The numbers between the last multiple of a divisor and a limit that it divides are told by their
rests. -/
theorem le_of_mod {M g x : Nat} (divides : g ∣ M) (positive : 0 < g) (below : x < M) :
    x ≤ M - g + x % g ∧ (M - g ≤ x → M - g + x % g ≤ x) := by
  obtain ⟨n, rfl⟩ := divides
  have less : x / g < n := Nat.div_lt_of_lt_mul below
  have whole : g * (x / g) + g ≤ g * n := (Nat.mul_succ g _).symm.trans_le (Nat.mul_le_mul_left g less)
  have split : g * (x / g) + x % g = x := Nat.div_add_mod x g
  refine ⟨by omega, fun last => ?_⟩
  have small : x % g < g := Nat.mod_lt x positive
  have next : n ≤ x / g + 1 := by
    refine Nat.le_of_lt_succ (Nat.lt_of_mul_lt_mul_left (a := g) ?_)
    rw [Nat.mul_succ, Nat.mul_succ]
    omega
  have most : g * n ≤ g * (x / g) + g := (Nat.mul_le_mul_left g next).trans_eq (Nat.mul_succ g _)
  omega

/-- **When numbers a stride apart, wrapped, come to a bound**: they come as close below the limit as its
common divisor with the stride lets them. -/
theorem exists_le_orbit_iff {M a d b : Nat} (positive : 0 < M) :
    (∃ k, b ≤ (a + k * d) % M) ↔ b ≤ M - d.gcd M + a % d.gcd M := by
  have divisor : 0 < d.gcd M := Nat.gcd_pos_of_pos_right d positive
  have inLimit : d.gcd M ∣ M := Nat.gcd_dvd_right d M
  -- Every number of the orbit leaves the same rest.
  have rest (k : Nat) : (a + k * d) % M % d.gcd M = a % d.gcd M := by
    rw [Nat.mod_mod_of_dvd _ inLimit]
    obtain ⟨n, stride⟩ := Nat.gcd_dvd_left d M
    rw [show k * d = d.gcd M * (k * n) by rw [Nat.mul_left_comm, ← stride], Nat.add_mul_mod_self_left]
  constructor
  · rintro ⟨k, reaches⟩
    have last := (le_of_mod inLimit divisor (Nat.mod_lt (a + k * d) positive)).1
    rw [rest] at last
    exact reaches.trans last
  · intro reaches
    rcases (Nat.gcd_le_right d positive).lt_or_eq with less | equal
    · -- Some number of strides is one divisor further on, so the last multiple below the limit is met.
      obtain ⟨m, -, further⟩ := Nat.exists_mul_mod_eq_gcd less
      generalize steps : (M - 1 - a % M) / d.gcd M = q
      have start : a % M < M := Nat.mod_lt a positive
      have most : d.gcd M * q ≤ M - 1 - a % M := steps ▸ Nat.mul_div_le _ _
      have least : M - 1 - a % M < q * d.gcd M + d.gcd M := steps ▸ Nat.lt_div_mul_add divisor
      rw [Nat.mul_comm q] at least
      have met : (a + m * q * d) % M = a % M + d.gcd M * q := by
        rw [Nat.mul_right_comm, Nat.mul_comm m d, ← Nat.mod_add_mod, ← Nat.add_mod_mod,
          ← Nat.mod_mul_mod, further, Nat.add_mod_mod]
        exact Nat.mod_eq_of_lt (by omega)
      have close := (le_of_mod inLimit divisor (Nat.mod_lt (a + m * q * d) positive)).2 (by omega)
      rw [rest] at close
      exact ⟨m * q, reaches.trans close⟩
    · rw [equal, Nat.sub_self, Nat.zero_add] at reaches
      exact ⟨0, by rwa [Nat.zero_mul, Nat.add_zero]⟩

/-- A number of 32 bits that grows by a stride comes to a bound: no stride goes past all of the numbers
between the bound and the limit. -/
def Reaches (stride bound : Nat) : Prop := bound + stride.gcd (2 ^ 32) ≤ 2 ^ 32

instance (stride bound : Nat) : Decidable (Reaches stride bound) :=
  inferInstanceAs (Decidable (_ ≤ _))

namespace Reaches

variable {stride bound : Nat}

/-- It comes to the bound wherever it starts. -/
theorem exists_le (reaches : Reaches stride bound) (start : Nat) :
    ∃ k, bound ≤ (start + k * stride) % 2 ^ 32 := by
  refine (exists_le_orbit_iff (by decide)).mpr ?_
  unfold Reaches at reaches
  omega

/-- If it comes to the bound from zero, it does so from everywhere. -/
theorem of_zero (comes : ∃ k, bound ≤ (0 + k * stride) % 2 ^ 32) : Reaches stride bound := by
  have close := (exists_le_orbit_iff (by decide)).mp comes
  have divisor : stride.gcd (2 ^ 32) ≤ 2 ^ 32 := Nat.gcd_le_right stride (by decide)
  rw [Nat.zero_mod, Nat.add_zero] at close
  unfold Reaches
  omega

/-- A bound that is a number of strides is met. -/
theorem of_dvd (divides : stride ∣ bound) (small : bound < 2 ^ 32) : Reaches stride bound := by
  have part : stride.gcd (2 ^ 32) ∣ bound := (Nat.gcd_dvd_left stride _).trans divides
  have whole : stride.gcd (2 ^ 32) ∣ 2 ^ 32 := Nat.gcd_dvd_right stride _
  have room : stride.gcd (2 ^ 32) ≤ 2 ^ 32 - bound :=
    Nat.le_of_dvd (Nat.sub_pos_of_lt small) (Nat.dvd_sub whole part)
  unfold Reaches
  omega

/-- Ones leave out no number. -/
theorem one (small : bound < 2 ^ 32) : Reaches 1 bound := of_dvd (Nat.one_dvd bound) small

end Reaches

end TunedKernel
