/-
**Faults: refusals, and arithmetic that does not fit its word.**

Sizes are natural numbers here, and every product or sum that a 32-bit or 64-bit word has to hold
is formed by `Word.mul` or `Word.add`, which answer with an overflow when the word is too small.

* `Fault ε` — a computation ends in a refusal of its own kind `ε`, or in an overflow.
* `Word.mul`, `Word.add` — the product and the sum, when the word holds them.
* `Word.mul_eq_ok_iff`, `Word.add_eq_ok_iff` — they succeed exactly below the limit of the word,
  with the exact value.
* `bind_eq_ok_iff`, `require_eq_ok_iff` — when a computation in two parts, and a check, succeed.
-/

namespace TunedKernel

/-- The operation whose result does not fit its word. -/
inductive Overflow where
  | multiply
  | add
deriving DecidableEq, Repr

/-- The text reported for an overflow. -/
def Overflow.message : Overflow → String
  | .multiply => "attempt to multiply with overflow"
  | .add => "attempt to add with overflow"

/-- Why a computation has no answer. -/
inductive Fault (ε : Type) where
  /-- Some product or sum does not fit its word. -/
  | overflow (operation : Overflow)
  /-- The input is refused for a reason of its own. -/
  | refused (reason : ε)
deriving DecidableEq, Repr

/-- The same fault with its reason read in another way. -/
def Fault.map {ε δ : Type} (f : ε → δ) : Fault ε → Fault δ
  | .overflow operation => .overflow operation
  | .refused reason => .refused (f reason)

/-- Ends a computation with a refusal. -/
def refuse {ε α : Type} (reason : ε) : Except (Fault ε) α := .error (.refused reason)

/-- Refuses unless `condition` holds. -/
def require {ε : Type} (condition : Bool) (reason : ε) : Except (Fault ε) Unit :=
  if condition then .ok () else refuse reason

/-- A computation in two parts succeeds when both of them do. -/
theorem bind_eq_ok_iff {ε α β : Type} {first : Except ε α} {second : α → Except ε β} {b : β} :
    first >>= second = .ok b ↔ ∃ a, first = .ok a ∧ second a = .ok b := by
  cases first with
  | error reason => exact ⟨nofun, fun ⟨_, ok, _⟩ => nomatch ok⟩
  | ok a =>
    constructor
    · exact fun ok => ⟨a, rfl, ok⟩
    · rintro ⟨a', same, ok⟩
      cases same
      exact ok

theorem require_eq_ok_iff {ε : Type} {condition : Bool} {reason : ε} {u : Unit} :
    require condition reason = .ok u ↔ condition = true := by
  cases condition with
  | false => exact ⟨nofun, nofun⟩
  | true => exact ⟨fun _ => rfl, fun _ => rfl⟩

/-- An unsigned machine word. -/
inductive Word where
  | bits32
  | bits64
deriving DecidableEq, Repr

namespace Word

/-- The first number that the word cannot hold. -/
def limit : Word → Nat
  | .bits32 => UInt32.size
  | .bits64 => UInt64.size

/-- The product of two numbers, when the word holds it. -/
def mul {ε : Type} (w : Word) (a b : Nat) : Except (Fault ε) Nat :=
  if a * b < w.limit then .ok (a * b) else .error (.overflow .multiply)

/-- The sum of two numbers, when the word holds it. -/
def add {ε : Type} (w : Word) (a b : Nat) : Except (Fault ε) Nat :=
  if a + b < w.limit then .ok (a + b) else .error (.overflow .add)

theorem mul_eq_ok_iff {ε : Type} {w : Word} {a b n : Nat} :
    w.mul (ε := ε) a b = .ok n ↔ a * b < w.limit ∧ a * b = n := by
  by_cases fits : a * b < w.limit <;> simp [mul, fits]

theorem add_eq_ok_iff {ε : Type} {w : Word} {a b n : Nat} :
    w.add (ε := ε) a b = .ok n ↔ a + b < w.limit ∧ a + b = n := by
  by_cases fits : a + b < w.limit <;> simp [add, fits]

/-- The product of a list of numbers, formed from the left from one. -/
def product {ε : Type} (w : Word) (factors : List Nat) : Except (Fault ε) Nat :=
  factors.foldlM w.mul 1

/-- The sum of a list of numbers, formed from the left from zero. -/
def sum {ε : Type} (w : Word) (terms : List Nat) : Except (Fault ε) Nat :=
  terms.foldlM w.add 0

end Word

end TunedKernel
