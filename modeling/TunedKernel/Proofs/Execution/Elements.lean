/-
**What an element type means.**

* `Elements` — the values of literals, constants and operators over a type of elements.
* `Elements.reduce`, `Elements.neutral`, `Elements.fold` — a folding operator, the value it starts
  from, and a list folded from the left.
* `Elements.store` — the content of an element after a statement stored into it.
* `Elements.Lawful` — a folding operator is associative and commutative, and the value it starts
  from is its identity. `Lawful.fold_range` reads a fold as a product in a commutative monoid, so
  that its terms may be taken in any order and any grouping.
* `Elements.words` — the integer types, as machine words; `words_lawful`: all their folding
  operators are lawful.
-/

import Mathlib.Algebra.BigOperators.Group.Finset.Basic
import TunedKernel.Kernel.Term

namespace TunedKernel

/-- What the literals, constants and operators of an element type mean. -/
structure Elements (α : Type) where
  literal : String → α
  /-- A constant that the kernel language has under a name. -/
  constant : String → α
  /-- A whole number that stands for an element. -/
  number : Nat → α
  binary : BinaryOp → α → α → α
  unary : UnaryFn → α → α

/-- The element-wise operator that folds with. -/
def ReduceOp.binary : ReduceOp → BinaryOp
  | .add => .add
  | .mul => .mul
  | .max => .max
  | .min => .min

namespace Elements

variable {α : Type}

/-- A folding operator. -/
def reduce (e : Elements α) (op : ReduceOp) : α → α → α := e.binary op.binary

/-- The smallest value of a type. -/
def lowest (e : Elements α) : NumericType → α
  | .int => e.constant "INT_MIN"
  | .uint | .ulong => e.number 0
  | .long => e.constant "LONG_MIN"
  | .float | .double => e.unary .neg (e.constant "INFINITY")

/-- The largest value of a type. -/
def highest (e : Elements α) : NumericType → α
  | .int => e.constant "INT_MAX"
  | .uint => e.constant "UINT_MAX"
  | .long => e.constant "LONG_MAX"
  | .ulong => e.constant "ULONG_MAX"
  | .float | .double => e.constant "INFINITY"

/-- The value that a folding operator starts from. -/
def neutral (e : Elements α) (type : NumericType) : ReduceOp → α
  | .add => e.number 0
  | .mul => e.number 1
  | .max => e.lowest type
  | .min => e.highest type

/-- The terms of a product folded from the left. -/
def fold (e : Elements α) (type : NumericType) (op : ReduceOp) (terms : List α) : α :=
  terms.foldl (e.reduce op) (e.neutral type op)

/-- The content of an element after a value was stored into it. -/
def store (e : Elements α) (op : AssignOp) (old value : α) : α :=
  match op with
  | .assign => value
  | .addAssign => e.binary .add old value
  | .subAssign => e.binary .sub old value

/-! ### Lawful folds -/

/-- A folding operator is associative and commutative, and starts from its identity. -/
structure Lawful (e : Elements α) (type : NumericType) (op : ReduceOp) : Prop where
  assoc : ∀ x y z, e.reduce op (e.reduce op x y) z = e.reduce op x (e.reduce op y z)
  comm : ∀ x y, e.reduce op x y = e.reduce op y x
  neutral_left : ∀ x, e.reduce op (e.neutral type op) x = x

namespace Lawful

variable {e : Elements α} {type : NumericType} {op : ReduceOp}

/-- The commutative monoid of a lawful fold. -/
abbrev monoid (lawful : e.Lawful type op) : CommMonoid α where
  mul := e.reduce op
  one := e.neutral type op
  mul_assoc := lawful.assoc
  mul_comm := lawful.comm
  one_mul := lawful.neutral_left
  mul_one x := (lawful.comm x _).trans (lawful.neutral_left x)

/-- A fold over a range is a product in the monoid of the operator. -/
theorem fold_range (lawful : e.Lawful type op) (term : Nat → α) (n : Nat) :
    e.fold type op ((List.range n).map term) =
      letI := lawful.monoid
      ∏ k ∈ Finset.range n, term k := by
  let := lawful.monoid
  induction n with
  | zero => rfl
  | succ n ih =>
    rw [Finset.prod_range_succ, ← ih, List.range_succ, List.map_append, fold, List.foldl_append]
    rfl

end Lawful

end Elements

/-! ### Machine words -/

namespace NumericType

/-- The bits of an element. -/
def bits (type : NumericType) : Nat := 8 * type.size

/-- Whether the numbers of a type carry a sign. -/
def signed : NumericType → Bool
  | int | long | float | double => true
  | uint | ulong => false

end NumericType

namespace Elements

/-- The number that a word stands for. -/
def wordValue (type : NumericType) (x : BitVec type.bits) : Int :=
  if type.signed then x.toInt else x.toNat

theorem wordValue_injective (type : NumericType) : Function.Injective (wordValue type) := by
  intro x y equal
  unfold wordValue at equal
  split at equal
  · exact BitVec.eq_of_toInt_eq equal
  · exact BitVec.eq_of_toNat_eq (by exact_mod_cast equal)

/-- The number that a constant of the kernel language stands for. -/
def constantValue (name : String) : Int :=
  if name = "INT_MIN" then -2 ^ 31
  else if name = "INT_MAX" then 2 ^ 31 - 1
  else if name = "UINT_MAX" then 2 ^ 32 - 1
  else if name = "LONG_MIN" then -2 ^ 63
  else if name = "LONG_MAX" then 2 ^ 63 - 1
  else if name = "ULONG_MAX" then 2 ^ 64 - 1
  else 0

/-- The integer types, as words that wrap around. The values of literals and of the element-wise
functions do not take part in a fold and are left open. -/
def words (type : NumericType) (literal : String → BitVec type.bits)
    (unary : UnaryFn → BitVec type.bits → BitVec type.bits) : Elements (BitVec type.bits) where
  literal := literal
  constant name := BitVec.ofInt _ (constantValue name)
  number n := BitVec.ofNat _ n
  binary
    | .add, x, y => x + y
    | .sub, x, y => x - y
    | .mul, x, y => x * y
    | .div, x, y => if type.signed then x.sdiv y else x.udiv y
    | .max, x, y => if wordValue type x < wordValue type y then y else x
    | .min, x, y => if wordValue type y < wordValue type x then y else x
  unary := unary

section Words

variable (type : NumericType) (literal : String → BitVec type.bits)
  (unary : UnaryFn → BitVec type.bits → BitVec type.bits)

/-- The smallest value of an integer type is no larger than any word. -/
theorem wordValue_lowest_le (integer : type.isFloat = false) (x : BitVec type.bits) :
    wordValue type ((words type literal unary).lowest type) ≤ wordValue type x := by
  cases type with
  | int =>
    have bound := BitVec.le_toInt x
    have least : wordValue .int ((words .int literal unary).lowest .int) = -2 ^ 31 := by rfl
    rw [least]
    exact bound
  | uint =>
    have least : wordValue .uint ((words .uint literal unary).lowest .uint) = 0 := by rfl
    rw [least]
    exact Int.natCast_nonneg x.toNat
  | long =>
    have bound := BitVec.le_toInt x
    have least : wordValue .long ((words .long literal unary).lowest .long) = -2 ^ 63 := by rfl
    rw [least]
    exact bound
  | ulong =>
    have least : wordValue .ulong ((words .ulong literal unary).lowest .ulong) = 0 := by rfl
    rw [least]
    exact Int.natCast_nonneg x.toNat
  | float => cases integer
  | double => cases integer

/-- The largest value of an integer type is no smaller than any word. -/
theorem le_wordValue_highest (integer : type.isFloat = false) (x : BitVec type.bits) :
    wordValue type x ≤ wordValue type ((words type literal unary).highest type) := by
  cases type with
  | int =>
    have bound : x.toInt < 2 ^ 31 := BitVec.toInt_lt
    have most : wordValue .int ((words .int literal unary).highest .int) = 2 ^ 31 - 1 := by rfl
    rw [most]
    exact Int.le_sub_one_of_lt bound
  | uint =>
    have bound : x.toNat < 2 ^ 32 := x.isLt
    have most : wordValue .uint ((words .uint literal unary).highest .uint) = 2 ^ 32 - 1 := by rfl
    rw [most]
    show (x.toNat : Int) ≤ _
    omega
  | long =>
    have bound : x.toInt < 2 ^ 63 := BitVec.toInt_lt
    have most : wordValue .long ((words .long literal unary).highest .long) = 2 ^ 63 - 1 := by rfl
    rw [most]
    exact Int.le_sub_one_of_lt bound
  | ulong =>
    have bound : x.toNat < 2 ^ 64 := x.isLt
    have most : wordValue .ulong ((words .ulong literal unary).highest .ulong) = 2 ^ 64 - 1 := by
      rfl
    rw [most]
    show (x.toNat : Int) ≤ _
    omega
  | float => cases integer
  | double => cases integer

/-- **All folding operators of the integer types are lawful.** -/
theorem words_lawful (integer : type.isFloat = false) (op : ReduceOp) :
    (words type literal unary).Lawful type op := by
  have same {x y : BitVec type.bits} (above : ¬ wordValue type x < wordValue type y)
      (below : ¬ wordValue type y < wordValue type x) : x = y :=
    wordValue_injective type (by omega)
  cases op with
  | add => exact ⟨BitVec.add_assoc, BitVec.add_comm, fun x => BitVec.zero_add x⟩
  | mul => exact ⟨BitVec.mul_assoc, BitVec.mul_comm, fun x => BitVec.one_mul x⟩
  | max =>
    refine ⟨fun x y z => ?_, fun x y => ?_, fun x => ?_⟩
    · show (if _ then _ else _) = if _ then _ else _
      simp only [reduce, ReduceOp.binary, words]
      split_ifs <;> first | rfl | (exfalso; omega)
    · show (if _ then _ else _) = if _ then _ else _
      split_ifs with less more more
      · exfalso; omega
      · rfl
      · rfl
      · exact same less more
    · show (if _ then _ else _) = _
      have least : wordValue type ((words type literal unary).neutral type .max) ≤ _ :=
        wordValue_lowest_le type literal unary integer x
      split_ifs with less
      · rfl
      · exact same less (by omega)
  | min =>
    refine ⟨fun x y z => ?_, fun x y => ?_, fun x => ?_⟩
    · show (if _ then _ else _) = if _ then _ else _
      simp only [reduce, ReduceOp.binary, words]
      split_ifs <;> first | rfl | (exfalso; omega)
    · show (if _ then _ else _) = if _ then _ else _
      split_ifs with less more more
      · exfalso; omega
      · rfl
      · rfl
      · exact same more less
    · show (if _ then _ else _) = _
      have most : _ ≤ wordValue type ((words type literal unary).neutral type .min) :=
        le_wordValue_highest type literal unary integer x
      split_ifs with less
      · rfl
      · exact same (by omega) less

end Words

end Elements

end TunedKernel
