/-
**The text of a term is read as the tree of its expression.**

* `Spells`, `Reads` — a text that spells a phrase, and one that is read as this phrase and no other.
* `BinaryOp.phrase`, `UnaryFn.phrase`, `ReduceOp.phrase` — an operator applied to its operands.
* `Places`, `Expr.IsTree`, `Product.IsTree` — the tree of an expression, where the scope stands for
  given phrases. The index of a matrix element is known by its value (`MatrixOperand.Locates`).
* `Scope.Spelled.spells_term` — by induction on the expression: the text of its term spells its tree,
  and always a simple expression, which is why no operand ever needs brackets of its own.
* `Scope.Spelled.reads_terms` — the texts of expressions, of the terms of products and of what they
  are folded into are read as their trees.
-/

import Mathlib.Algebra.Ring.Nat
import Mathlib.Data.Nat.Cast.Basic
import TunedKernel.Proofs.Execution.Operands
import TunedKernel.Proofs.Source.Grammar

namespace TunedKernel

open TunedKernel.Text

/-! ### Texts of phrases -/

namespace Text

/-- A text whose lexemes are an expression of a level. -/
def Spells (n : Level) (s : String) (p : Phrase) : Prop := ∃ ts, lexemes s = some ts ∧ Derives n ts p

/-- A text that is an expression of a level, and is read as this phrase and no other. -/
def Reads (n : Level) (s : String) (p : Phrase) : Prop :=
  Spells n s p ∧ ∀ q, Spells .expression s q → q = p

namespace Spells

variable {n : Level} {s t : String} {p q : Phrase}

theorem loosen (k : Nat) (spells : Spells (Level.next^[k] n) s p) : Spells n s p := by
  obtain ⟨ts, chars, derives⟩ := spells
  exact ⟨ts, chars, derives.loosen k⟩

theorem of_simple (n : Level) (spells : Spells .simple s p) : Spells n s p := by
  obtain ⟨ts, chars, derives⟩ := spells
  exact ⟨ts, chars, derives.of_simple n⟩

/-- What a text spells, it spells alone. -/
theorem reads (spells : Spells n s p) (loose : Spells .expression s p) : Reads n s p := by
  refine ⟨spells, fun q other => ?_⟩
  obtain ⟨ts, chars, derives⟩ := loose
  obtain ⟨us, chars', derives'⟩ := other
  cases chars.symm.trans chars'
  exact derives.unique derives'

theorem name {x : String} (is : isName x) : Spells .simple x (.name x) := by
  have word := is
  rw [isName, Bool.and_eq_true] at word
  exact ⟨[x], lexemes_word word.1, .name is⟩

theorem numeral {x : String} (is : isUnsignedNumeral x.toList) : Spells .simple x (.numeral x) :=
  ⟨[x], lexemes_numeral is, .numeral is⟩

theorem lexemes_bracketed {before inner : String} {o c : Char} {ts us : List String}
    (opens : isDelimiter o) (closes : isDelimiter c) (front : lexemes before = some ts)
    (inside : lexemes inner = some us) :
    lexemes (before ++ String.ofList [o] ++ inner ++ String.ofList [c]) =
      some (ts ++ delimiter o ++ us ++ delimiter c) := by
  have empty : lexemes "" = some [] := rfl
  have all := lexemes_delimited closes (lexemes_delimited opens front inside) empty
  rwa [String.append_empty, List.append_nil] at all

theorem paren (inner : Spells .expression s p) : Spells .simple ("(" ++ s ++ ")") p := by
  obtain ⟨ts, chars, derives⟩ := inner
  have empty : lexemes "" = some [] := rfl
  refine ⟨"(" :: ts ++ [")"], ?_, .paren derives⟩
  have all := lexemes_bracketed (o := '(') (c := ')') (by decide) (by decide) empty chars
  exact all

theorem subscript (base : Spells .simple s p) (index : Spells .expression t q) :
    Spells .simple (s ++ "[" ++ t ++ "]") (.subscript p q) := by
  obtain ⟨ts, chars, derives⟩ := base
  obtain ⟨us, chars', derives'⟩ := index
  refine ⟨_, ?_, .subscript derives derives'⟩
  have all := lexemes_bracketed (o := '[') (c := ']') (by decide) (by decide) chars chars'
  rw [List.append_assoc ts] at all
  exact all

/-- A function of the text of its arguments. -/
theorem call {f : String} (is : isName f) (arguments : Spells .arguments s p) :
    Spells .simple (f ++ "(" ++ s ++ ")") (.call (.name f) p) := by
  obtain ⟨fs, name, callee⟩ := Spells.name is
  obtain ⟨ts, chars, derives⟩ := arguments
  refine ⟨_, ?_, .call callee derives⟩
  have all := lexemes_bracketed (o := '(') (c := ')') (by decide) (by decide) name chars
  rw [List.append_assoc fs] at all
  exact all

theorem pair (front : Spells .arguments s p) (last : Spells .assignment t q) :
    Spells .arguments (s ++ ", " ++ t) (.pair p q) := by
  obtain ⟨ts, chars, derives⟩ := front
  obtain ⟨us, chars', derives'⟩ := last
  have empty : lexemes "" = some [] := rfl
  refine ⟨_, ?_, .pair derives derives'⟩
  have comma := lexemes_delimited (c := ',') (by decide) chars empty
  have all := lexemes_delimited (c := ' ') (by decide) comma chars'
  have text : s ++ ", " ++ t = s ++ String.ofList [','] ++ "" ++ String.ofList [' '] ++ t := by
    have sign : ", " = String.ofList [','] ++ String.ofList [' '] := rfl
    rw [String.append_empty, sign, ← String.append_assoc]
  rw [text, all, List.append_assoc ts]
  simp [delimiter, isGap]

/-- A sign between two operands, with gaps around it. -/
theorem binary {u : String} (level : (u, n) ∈ binaryLevels) (lexeme : lexemes u = some [u])
    (lhs : Spells n s p) (rhs : Spells n.next t q) :
    Spells n (s ++ " " ++ u ++ " " ++ t) (.binary u p q) := by
  obtain ⟨ts, chars, derives⟩ := lhs
  obtain ⟨us, chars', derives'⟩ := rhs
  refine ⟨_, ?_, .binary level derives derives'⟩
  have front := lexemes_delimited (c := ' ') (by decide) chars lexeme
  have all := lexemes_delimited (c := ' ') (by decide) front chars'
  rw [List.append_assoc, List.append_assoc, List.append_assoc] at all
  exact all

theorem minus (operand : Spells .simple s p) : Spells .unary ("-" ++ s) (.before "-" p) := by
  obtain ⟨ts, chars, derives⟩ := operand
  obtain ⟨first, others, rfl, begins⟩ := derives.beginning
  refine ⟨_, lexemes_minus chars fun c head => ?_, .before (by decide) (derives.of_simple .cast)⟩
  have apart : isWordChar c ∨ c = '.' ∨ c = '(' := by
    rcases begins with name | numeral | rfl
    · rw [isName, Bool.and_eq_true] at name
      exact Or.inl (isWord_chars name.1 c (List.mem_of_mem_head? head))
    · obtain ⟨point, digit, rest, text, front, isDigit, -⟩ := isUnsignedNumeral_cases numeral
      rw [text] at head
      rcases front with rfl | rfl
      · cases Option.some.inj head
        exact Or.inl (by rw [isWordChar, isDigit, Bool.or_true])
      · exact Or.inr (Or.inl (Option.some.inj head).symm)
    · exact Or.inr (Or.inr (Option.some.inj head).symm)
  refine ⟨?_, ?_, ?_⟩ <;>
  · rintro rfl
    revert apart
    decide

end Spells

end Text

/-! ### Operators -/

/-- An operator between two operands. -/
def BinaryOp.phrase (op : BinaryOp) (lhs rhs : Phrase) : Phrase :=
  match op with
  | .add => .binary "+" lhs rhs
  | .sub => .binary "-" lhs rhs
  | .mul => .binary "*" lhs rhs
  | .div => .binary "/" lhs rhs
  | .max => .call (.name "max") (.pair lhs rhs)
  | .min => .call (.name "min") (.pair lhs rhs)

/-- A function of an operand. -/
def UnaryFn.phrase (func : UnaryFn) (type : NumericType) (operand : Phrase) : Phrase :=
  match func with
  | .neg => .before "-" operand
  | .abs => .call (.name (if type.isFloat then "fabs" else "abs")) operand
  | .sqrt => .call (.name "sqrt") operand
  | .exp => .call (.name "exp") operand
  | .log => .call (.name "log") operand

/-- An accumulated value with a further one. -/
def ReduceOp.phrase (op : ReduceOp) (accumulated value : Phrase) : Phrase :=
  match op with
  | .add => .binary "+" accumulated value
  | .mul => .binary "*" accumulated value
  | .max => .call (.name "max") (.pair accumulated value)
  | .min => .call (.name "min") (.pair accumulated value)

variable {l r : Term} {p q : Phrase}

theorem spells_paren (inner : Spells .expression l.text p) : Spells .simple (Term.paren l).text p :=
  inner.paren

theorem spells_call₂ {function : String} (is : isName function) (left : Spells .simple l.text p)
    (right : Spells .simple r.text q) :
    Spells .simple (Term.call₂ function l r).text (.call (.name function) (.pair p q)) := by
  have all := (left.of_simple .arguments |>.pair (right.of_simple .assignment)).call is
  rw [← String.append_assoc, ← String.append_assoc] at all
  exact all

/-- A sum, difference, product or quotient of simple expressions. -/
theorem spells_binary (op : TermOp) {n : Level} (level : (op.sign, n) ∈ binaryLevels)
    (left : Spells .simple l.text p) (right : Spells .simple r.text q) :
    Spells n (Term.binary op l r).text (.binary op.sign p q) :=
  (left.of_simple n).binary level (by cases op <;> decide +kernel) (right.of_simple n.next)

/-- Such an expression in brackets. -/
theorem spells_grouped (op : TermOp) {n : Level} (level : (op.sign, n) ∈ binaryLevels)
    (above : Level.next^[n.rank] .expression = n) (left : Spells .simple l.text p)
    (right : Spells .simple r.text q) :
    Spells .simple (Term.paren (.binary op l r)).text (.binary op.sign p q) := by
  have inner := spells_binary op level left right
  rw [← above] at inner
  exact spells_paren (inner.loosen n.rank)

/-- An operator holds its operands in its own brackets. -/
theorem BinaryOp.spells_apply (op : BinaryOp) (left : Spells .simple l.text p)
    (right : Spells .simple r.text q) : Spells .simple (op.apply l r).text (op.phrase p q) := by
  cases op with
  | add => exact spells_grouped .add (n := .additive) (by decide) rfl left right
  | sub => exact spells_grouped .sub (n := .additive) (by decide) rfl left right
  | mul => exact spells_grouped .mul (n := .multiplicative) (by decide) rfl left right
  | div => exact spells_grouped .div (n := .multiplicative) (by decide) rfl left right
  | max => exact spells_call₂ (by decide) left right
  | min => exact spells_call₂ (by decide) left right

theorem UnaryFn.spells_apply (func : UnaryFn) (type : NumericType) (operand : Spells .simple l.text p) :
    Spells .simple (func.apply l type).text (func.phrase type p) := by
  have argument := operand.of_simple .arguments
  cases func with
  | neg => exact (operand.minus.loosen (n := .expression) 14).paren
  | abs =>
    unfold apply phrase
    split_ifs
    · exact argument.call (by decide)
    · exact argument.call (by decide)
  | sqrt => exact argument.call (by decide)
  | exp => exact argument.call (by decide)
  | log => exact argument.call (by decide)

/-- What is accumulated stays in one piece with a further value, also without brackets. -/
theorem ReduceOp.spells_combine (op : ReduceOp) (left : Spells .simple l.text p)
    (right : Spells .simple r.text q) : Spells .additive (op.combine l r).text (op.phrase p q) := by
  cases op with
  | add => exact spells_binary .add (by decide) left right
  | mul => exact (spells_binary .mul (n := .multiplicative) (by decide) left right).loosen 1
  | max => exact (spells_call₂ (by decide) left right).of_simple .additive
  | min => exact (spells_call₂ (by decide) left right).of_simple .additive

/-! ### Elements of matrices -/

/-- The number that a numeral begins with. -/
def leadingNumber (text : String) : Nat := readDecimal (text.toList.takeWhile Char.isDigit)

/-- The value of a phrase, in whole numbers or in their remainders: sums, products and unsigned
constants have theirs, where names and all other phrases have given ones. -/
def Text.Phrase.value {R : Type} [Semiring R] (names : String → R) (others : Phrase → R) : Phrase → R
  | .name x => names x
  | .numeral text =>
    if text = (Term.count (leadingNumber text)).text then (leadingNumber text : R)
    else others (.numeral text)
  | .binary sign lhs rhs =>
    if sign = "+" then lhs.value names others + rhs.value names others
    else if sign = "*" then lhs.value names others * rhs.value names others
    else others (.binary sign lhs rhs)
  | p => others p

/-- The names of an extent have its value. -/
def Extent.Named {R : Type} [Semiring R] (x : Extent) (bindings : Bindings) (names : String → R) : Prop :=
  ∀ s ∈ x.symbol?, names s = (x.size bindings : R)

/-- Whether an index is the place of the element at a row and column, whatever those are. -/
def MatrixOperand.Locates (m : MatrixOperand) (row col index : Phrase) : Prop :=
  ∀ {R : Type} [Semiring R] (names : String → R) (others : Phrase → R) (bindings : Bindings)
    (i j : Nat), m.internalRows.Named bindings names → m.internalCols.Named bindings names →
    row.value names others = (i : R) → col.value names others = (j : R) →
    index.value names others = (m.position bindings i j : R)

theorem leadingNumber_count (n : Nat) : leadingNumber (Term.count n).text = n := by
  have digits : ∀ c ∈ Nat.toDigits 10 n, c.isDigit :=
    fun c member => Nat.isDigit_of_mem_toDigits (by decide) (by decide) member
  have chars : (Term.count n).text.toList = Nat.toDigits 10 n ++ ['u'] := by
    rw [Term.text, String.toList_append, show (toString n).toList = Nat.toDigits 10 n from Nat.toList_repr]
    rfl
  have ends : ['u'].takeWhile Char.isDigit = [] := by decide
  rw [leadingNumber, chars, List.takeWhile_append_of_pos digits, ends, List.append_nil]
  exact Nat.ofDigitChars_ten_toDigits

/-- The phrase of an extent. -/
def Extent.phrase : Extent → Phrase
  | fixed n => .numeral (Term.count n.toNat).text
  | symbol name => .name name

theorem Extent.spells_term {x : Extent} (free : ∀ s ∈ x.symbol?, isName s) :
    Spells .simple x.term.text x.phrase := by
  cases x with
  | fixed n => exact Spells.numeral (isUnsignedNumeral_toString_append n.toNat (by decide))
  | symbol name => exact Spells.name (free name rfl)

theorem Extent.value_phrase {R : Type} [Semiring R] {x : Extent} {bindings : Bindings} {names : String → R}
    {others : Phrase → R} (named : x.Named bindings names) :
    x.phrase.value names others = (x.size bindings : R) := by
  cases x with
  | fixed n =>
    rw [phrase, Phrase.value, leadingNumber_count, if_pos rfl]
    rfl
  | symbol name => exact named name rfl

/-- The phrase of the place of an element. -/
def MatrixOperand.offsetPhrase (m : MatrixOperand) (row col : Phrase) : Phrase :=
  let (r, c) := if m.transposed then (col, row) else (row, col)
  match m.layout with
  | .rowMajor => .binary "+" (.binary "*" r m.internalCols.phrase) c
  | .columnMajor => .binary "+" r (.binary "*" c m.internalRows.phrase)

/-- The brackets around row and column hold them together, whatever they are. -/
theorem MatrixOperand.spells_offset {m : MatrixOperand} {row col : Term} {r c : Phrase}
    (rows : ∀ s ∈ m.internalRows.symbol?, isName s)
    (cols : ∀ s ∈ m.internalCols.symbol?, isName s)
    (spelledRow : Spells .expression row.text r) (spelledCol : Spells .expression col.text c) :
    Spells .expression (m.offset row col).text (m.offsetPhrase r c) := by
  have byRows {row col : Term} {r c : Phrase} (first : Spells .expression row.text r)
      (second : Spells .expression col.text c) :
      Spells .expression (Term.paren row * m.internalCols.term + .paren col).text
        (.binary "+" (.binary "*" r m.internalCols.phrase) c) := by
    have product := spells_binary .mul (n := .multiplicative) (by decide) (spells_paren first)
      (Extent.spells_term cols)
    have sum : Spells .additive _ _ := (product.loosen (n := .additive) 1).binary (u := "+") (by decide)
      (by decide +kernel) (second.paren.of_simple .multiplicative)
    exact sum.loosen 11
  have byCols {row col : Term} {r c : Phrase} (first : Spells .expression row.text r)
      (second : Spells .expression col.text c) :
      Spells .expression (Term.paren row + .paren col * m.internalRows.term).text
        (.binary "+" r (.binary "*" c m.internalRows.phrase)) := by
    have product := spells_binary .mul (n := .multiplicative) (by decide) (spells_paren second)
      (Extent.spells_term rows)
    have sum : Spells .additive _ _ := (first.paren.of_simple .additive).binary (u := "+") (by decide)
      (by decide +kernel) product
    exact sum.loosen 11
  unfold offset offsetPhrase
  cases m.transposed <;> cases m.layout
  · exact byRows spelledRow spelledCol
  · exact byCols spelledRow spelledCol
  · exact byRows spelledCol spelledRow
  · exact byCols spelledCol spelledRow

theorem MatrixOperand.locates_offsetPhrase (m : MatrixOperand) (row col : Phrase) :
    m.Locates row col (m.offsetPhrase row col) := by
  intro R _ names others bindings i j rows cols atRow atCol
  have sum (a b : Phrase) : (Phrase.binary "+" a b).value names others =
      a.value names others + b.value names others := by rw [Phrase.value, if_pos rfl]
  have product (a b : Phrase) : (Phrase.binary "*" a b).value names others =
      a.value names others * b.value names others := by
    rw [Phrase.value, if_neg (by decide), if_pos rfl]
  unfold offsetPhrase position
  cases m.transposed <;> cases m.layout
  all_goals
    simp only [Bool.false_eq_true, if_false, if_true, sum, product, atRow, atCol,
      Extent.value_phrase rows, Extent.value_phrase cols, Nat.cast_add, Nat.cast_mul]

/-! ### Trees -/

/-- The phrases that a scope stands for. -/
structure Places where
  index : Phrase
  row : Phrase
  col : Phrase
  product : Phrase

/-- The texts of a scope spell these phrases. Only the product has to stand in one piece. -/
structure Scope.Spelled (scope : Scope) (places : Places) : Prop where
  index : ∀ t ∈ scope.index, Spells .expression t.text places.index
  row : ∀ t ∈ scope.row, Spells .expression t.text places.row
  col : ∀ t ∈ scope.col, Spells .expression t.text places.col
  product : ∀ t ∈ scope.product, Spells .simple t.text places.product

/-- Whether a phrase is the tree of an expression. -/
def Expr.IsTree (type : NumericType) (places : Places) : Expr → Phrase → Prop
  | scalar (.host x), tree => tree = .name x
  | scalar (.device x), tree => tree = .subscript (.name x) (.numeral "0")
  | scalar (.literal text), tree => tree = .numeral text
  | vector v, tree => tree = .subscript (.name v.name) places.index
  | matrix m, tree => ∃ index, tree = .subscript (.name m.name) index ∧
      m.Locates places.row places.col index
  | binary op lhs rhs, tree => ∃ left right, tree = op.phrase left right ∧
      lhs.IsTree type places left ∧ rhs.IsTree type places right
  | unary func operand, tree => ∃ inner, tree = func.phrase type inner ∧
      operand.IsTree type places inner
  | fold .., tree | product .., tree => tree = places.product

/-- Whether a phrase is the tree of one term of a product. -/
def Product.IsTree (type : NumericType) (places : Places) (p : Product) (tree : Phrase) : Prop :=
  match p.rhs with
  | some rhs => ∃ left right, tree = p.combine.phrase left right ∧ p.lhs.IsTree type places left ∧
      rhs.IsTree type places right
  | none => p.lhs.IsTree type places tree

/-- A leaf whose names are identifiers, and whose literal is a numeral without a sign. -/
def Expr.Spellable : Expr → Prop
  | scalar (.host x) | scalar (.device x) => isName x
  | scalar (.literal text) => isUnsignedNumeral text.toList
  | vector v => isName v.name
  | matrix m => isName m.name ∧ (∀ s ∈ m.internalRows.symbol?, isName s) ∧
      ∀ s ∈ m.internalCols.symbol?, isName s
  | _ => True

section terms

variable {scope : Scope} {places : Places}

/-- **The text of an expression spells its tree**, as a simple expression. -/
theorem Scope.Spelled.spells_term (spelled : scope.Spelled places) {e : Expr} {t : Term}
    (spellable : ∀ leaf ∈ e.leaves, leaf.Spellable) (ok : e.term scope = .ok t) :
    ∃ tree, e.IsTree scope.numericType places tree ∧ Spells .simple t.text tree := by
  induction e generalizing t with
  | scalar s =>
    cases Except.ok.inj ok
    have plain := spellable _ List.mem_cons_self
    cases s with
    | host x => exact ⟨_, rfl, Spells.name plain⟩
    | device x => exact ⟨_, rfl, (Spells.name plain).subscript ((Spells.numeral (by decide)).of_simple _)⟩
    | literal text => exact ⟨_, rfl, Spells.numeral plain⟩
  | vector v =>
    have plain : isName v.name := spellable _ List.mem_cons_self
    rw [Expr.term, VectorOperand.term] at ok
    cases index : scope.index with
    | none =>
      rw [index] at ok
      cases ok
    | some i =>
      rw [index] at ok
      cases Except.ok.inj ok
      exact ⟨_, rfl, (Spells.name plain).subscript (spelled.index i index)⟩
  | matrix m =>
    obtain ⟨plain, rows, cols⟩ : (Expr.matrix m).Spellable := spellable _ List.mem_cons_self
    rw [Expr.term, MatrixOperand.term] at ok
    cases row : scope.row with
    | none =>
      rw [row] at ok
      cases ok
    | some r =>
      cases col : scope.col with
      | none =>
        rw [row, col] at ok
        cases ok
      | some c =>
        rw [row, col] at ok
        cases Except.ok.inj ok
        have offset := MatrixOperand.spells_offset rows cols (spelled.row r row) (spelled.col c col)
        have element := (Spells.name plain).subscript offset
        exact ⟨_, ⟨_, rfl, m.locates_offsetPhrase places.row places.col⟩, element⟩
  | binary op lhs rhs ihLeft ihRight =>
    obtain ⟨left, okLeft, ok⟩ := bind_eq_ok_iff.mp ok
    obtain ⟨right, okRight, ok⟩ := bind_eq_ok_iff.mp ok
    cases ok
    obtain ⟨p, isLeft, spellsLeft⟩ :=
      ihLeft (fun leaf member => spellable leaf (List.mem_append_left _ member)) okLeft
    obtain ⟨q, isRight, spellsRight⟩ :=
      ihRight (fun leaf member => spellable leaf (List.mem_append_right _ member)) okRight
    exact ⟨_, ⟨p, q, rfl, isLeft, isRight⟩, op.spells_apply spellsLeft spellsRight⟩
  | unary func operand ih =>
    obtain ⟨inner, okInner, ok⟩ := bind_eq_ok_iff.mp ok
    cases ok
    obtain ⟨p, isInner, spellsInner⟩ := ih spellable okInner
    exact ⟨_, ⟨p, rfl, isInner⟩, func.spells_apply scope.numericType spellsInner⟩
  | fold combine reduce lhs | product combine reduce lhs rhs =>
    rw [Expr.term, Scope.productTerm] at ok
    cases product : scope.product with
    | none =>
      rw [product] at ok
      cases ok
    | some stands =>
      rw [product] at ok
      cases Except.ok.inj ok
      exact ⟨_, rfl, spelled.product t product⟩

theorem Scope.Spelled.spells_productTerm (spelled : scope.Spelled places) {p : Product} {t : Term}
    (spellable : ∀ leaf ∈ p.leaves, leaf.Spellable) (ok : p.term scope = .ok t) :
    ∃ tree, p.IsTree scope.numericType places tree ∧ Spells .simple t.text tree := by
  obtain ⟨left, okLeft, ok⟩ := bind_eq_ok_iff.mp ok
  obtain ⟨l, isLeft, spellsLeft⟩ :=
    spelled.spells_term (fun leaf member => spellable leaf (List.mem_append_left _ member)) okLeft
  unfold Product.IsTree
  cases second : p.rhs with
  | none =>
    rw [second] at ok
    cases ok
    exact ⟨l, isLeft, spellsLeft⟩
  | some rhs =>
    rw [second] at ok
    obtain ⟨right, okRight, ok⟩ := bind_eq_ok_iff.mp ok
    cases ok
    obtain ⟨r, isRight, spellsRight⟩ := spelled.spells_term (fun leaf member =>
      spellable leaf (List.mem_append_right _ (by rw [second]; exact member))) okRight
    exact ⟨_, ⟨l, r, rfl, isLeft, isRight⟩, p.combine.spells_apply spellsLeft spellsRight⟩

/-- **Texts of expressions are read as their trees.** In a scope whose texts spell phrases, the text of
an expression and of one term of a product is read as its tree and as nothing else, and so is an
accumulated value with such a term. -/
theorem Scope.Spelled.reads_terms (spelled : scope.Spelled places) :
    (∀ (e : Expr) (t : Term), (∀ leaf ∈ e.leaves, leaf.Spellable) → e.term scope = .ok t →
      ∃ tree, e.IsTree scope.numericType places tree ∧ Reads .simple t.text tree) ∧
    ∀ (p : Product) (t : Term), (∀ leaf ∈ p.leaves, leaf.Spellable) → p.term scope = .ok t →
      ∃ tree, p.IsTree scope.numericType places tree ∧ Reads .simple t.text tree ∧
        ∀ (op : ReduceOp) (accumulated : Term) (sum : Phrase), Spells .simple accumulated.text sum →
          Reads .additive (op.combine accumulated t).text (op.phrase sum tree) := by
  refine ⟨fun e t spellable ok => ?_, fun p t spellable ok => ?_⟩
  · obtain ⟨tree, isTree, spells⟩ := spelled.spells_term spellable ok
    exact ⟨tree, isTree, spells.reads (spells.of_simple _)⟩
  · obtain ⟨tree, isTree, spells⟩ := spelled.spells_productTerm spellable ok
    refine ⟨tree, isTree, spells.reads (spells.of_simple _), fun op accumulated sum front => ?_⟩
    have combined := op.spells_combine front spells
    exact combined.reads (combined.loosen 11)

/-- A row that is a sum stays one operand: the brackets of the offset hold it. -/
theorem Scope.Spelled.reads_terms_offset :
    ∃ tree,
      (Expr.binary .mul (.unary .neg (.matrix (MatrixOperand.plain "A" (.symbol "m") (.fixed 8)).columnMajor))
        (.fold .mul .max (.vector ⟨"x", .fixed 8⟩))).IsTree .float
          ⟨.name "i", .binary "+" (.name "gm") (.name "lid0"), .name "k",
            .subscript (.name "rC") (.name "n")⟩ tree ∧
      Reads .simple "((-A[(gm + lid0) + (k) * m]) * rC[n])" tree := by
  have name (x : String) (is : isName x) : Spells .simple x (.name x) := Spells.name is
  have row : Spells .additive "gm + lid0" (.binary "+" (.name "gm") (.name "lid0")) :=
    ((name "gm" (by decide)).of_simple _).binary (u := "+") (by decide) (by decide +kernel)
      ((name "lid0" (by decide)).of_simple _)
  have spelled : Scope.Spelled
      ⟨.float, some (.name "i"), some (.name "gm" + .name "lid0"), some (.name "k"),
        some (.index (.name "rC") (.name "n"))⟩
      ⟨.name "i", .binary "+" (.name "gm") (.name "lid0"), .name "k",
        .subscript (.name "rC") (.name "n")⟩ := by
    refine ⟨?_, ?_, ?_, ?_⟩ <;> rintro t ⟨⟩
    · exact (name "i" (by decide)).of_simple _
    · exact row.loosen 11
    · exact (name "k" (by decide)).of_simple _
    · exact (name "rC" (by decide)).subscript ((name "n" (by decide)).of_simple _)
  obtain ⟨tree, isTree, reads⟩ := spelled.reads_terms.1
    (.binary .mul (.unary .neg (.matrix (MatrixOperand.plain "A" (.symbol "m") (.fixed 8)).columnMajor))
      (.fold .mul .max (.vector ⟨"x", .fixed 8⟩))) _ (fun leaf member => by
        cases List.mem_singleton.mp member
        refine ⟨by decide, ?_, ?_⟩ <;> rintro s ⟨⟩
        decide) rfl
  exact ⟨tree, isTree, reads⟩

end terms

end TunedKernel
