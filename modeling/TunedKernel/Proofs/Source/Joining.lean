/-
**What stands side by side stays apart, except for a minus.**

* `BinaryOp.parted_apply`, `UnaryFn.parted_apply` — operators keep the pieces of their operands apart; only a
  negation has no bracket or gap in front of its operand.
* `Expr.pieces`, `Expr.joins` — the pieces of an expression, and whether one of its negations is joined with
  its operand.
* `Expr.parted_term`, `Product.parted_term` — by induction on the expression: the text of its term is made of
  its pieces, and they stay apart just when no negation is joined.
* `Scope.lexemes_terms` — so the lexemes of expressions and of the terms of products are those of their
  pieces, but for a minus in front of a literal with a minus, or of what a scope puts in for a product.
-/

import TunedKernel.Proofs.Execution.Operands
import TunedKernel.Proofs.Source.Pieces

namespace TunedKernel

open TunedKernel.Text

/-! ### The pieces of operators -/

/-- The pieces of an operator between two operands. -/
def BinaryOp.pieces (op : BinaryOp) (lhs rhs : List String) : List String :=
  match op with
  | .add => ["("] ++ (lhs ++ ["+"] ++ rhs) ++ [")"]
  | .sub => ["("] ++ (lhs ++ ["-"] ++ rhs) ++ [")"]
  | .mul => ["("] ++ (lhs ++ ["*"] ++ rhs) ++ [")"]
  | .div => ["("] ++ (lhs ++ ["/"] ++ rhs) ++ [")"]
  | .max => ["max", "("] ++ (lhs ++ [","] ++ rhs) ++ [")"]
  | .min => ["min", "("] ++ (lhs ++ [","] ++ rhs) ++ [")"]

/-- The pieces of a function of an operand. -/
def UnaryFn.pieces (func : UnaryFn) (type : NumericType) (operand : List String) : List String :=
  match func with
  | .neg => ["("] ++ "-" :: operand ++ [")"]
  | .abs => [if type.isFloat then "fabs" else "abs", "("] ++ operand ++ [")"]
  | .sqrt => ["sqrt", "("] ++ operand ++ [")"]
  | .exp => ["exp", "("] ++ operand ++ [")"]
  | .log => ["log", "("] ++ operand ++ [")"]

section operators

variable {l r : Term} {ps qs : List String} {p q : Prop}

theorem parted_call₂ (function : String) (first : Parted l.text ps p) (second : Parted r.text qs q) :
    Parted (Term.call₂ function l r).text ([function, "("] ++ (ps ++ [","] ++ qs) ++ [")"]) (p ∧ q) :=
  ((first.pair second).call function).congr (by simp only [Term.text, String.append_assoc]) rfl Iff.rfl

theorem BinaryOp.parted_apply (op : BinaryOp) (lhs : Parted l.text ps p) (rhs : Parted r.text qs q) :
    Parted (op.apply l r).text (op.pieces ps qs) (p ∧ q) := by
  cases op with
  | add => exact (lhs.binary "+" rhs).paren
  | sub => exact (lhs.binary "-" rhs).paren
  | mul => exact (lhs.binary "*" rhs).paren
  | div => exact (lhs.binary "/" rhs).paren
  | max => exact parted_call₂ "max" lhs rhs
  | min => exact parted_call₂ "min" lhs rhs

/-- Only a negation has no bracket or gap in front of its operand. -/
theorem UnaryFn.parted_apply (func : UnaryFn) (type : NumericType) (operand : Parted l.text ps p) :
    Parted (func.apply l type).text (func.pieces type ps)
      ((func = .neg → continuesMinus l.text = false) ∧ p) := by
  cases func with
  | neg => exact operand.minus.paren.congr rfl rfl (by simp)
  | abs => exact (operand.call _).congr rfl rfl (by simp)
  | sqrt => exact (operand.call _).congr rfl rfl (by simp)
  | exp => exact (operand.call _).congr rfl rfl (by simp)
  | log => exact (operand.call _).congr rfl rfl (by simp)

end operators

/-! ### Operators behind a minus -/

theorem BinaryOp.beginsPlainly_apply (op : BinaryOp) (l r : Term) : BeginsPlainly (op.apply l r).text := by
  have bracket (s : String) : BeginsPlainly ("(" ++ s ++ ")") :=
    ((by decide : BeginsPlainly "(").append _).append _
  have call (function : String) (word : isWord function) : BeginsPlainly (Term.call₂ function l r).text :=
    (((((beginsPlainly_of_word word).append _).append _).append _).append _).append _
  cases op with
  | add | sub | mul | div => exact bracket _
  | max => exact call "max" (by decide)
  | min => exact call "min" (by decide)

theorem UnaryFn.beginsPlainly_apply (func : UnaryFn) (type : NumericType) (l : Term) :
    BeginsPlainly (func.apply l type).text := by
  have call (function : String) (word : isWord function) : BeginsPlainly (Term.call function l).text :=
    (((beginsPlainly_of_word word).append _).append _).append _
  cases func with
  | neg => exact ((by decide : BeginsPlainly "(").append _).append _
  | abs => exact call _ (by split <;> decide)
  | sqrt => exact call _ (by decide)
  | exp => exact call _ (by decide)
  | log => exact call _ (by decide)

/-! ### The pieces of expressions -/

/-- The text of what a scope addresses, empty for what it does not address. -/
def Scope.textOf (place : Option Term) : String := (place.map Term.text).getD ""

theorem VectorOperand.term_eq_ok_iff {v : VectorOperand} {scope : Scope} {t : Term} :
    v.term scope = .ok t ↔ ∃ i, scope.index = some i ∧ .index (.name v.name) i = t := by
  rw [VectorOperand.term]
  cases scope.index <;> simp

theorem MatrixOperand.term_eq_ok_iff {m : MatrixOperand} {scope : Scope} {t : Term} :
    m.term scope = .ok t ↔
      ∃ row col, scope.row = some row ∧ scope.col = some col ∧ m.element row col = t := by
  rw [MatrixOperand.term]
  cases scope.row <;> cases scope.col <;> simp

theorem Scope.productTerm_eq_ok_iff {scope : Scope} {lhs : Expr} {t : Term} :
    scope.productTerm lhs = .ok t ↔ scope.product = some t := by
  rw [productTerm]
  cases scope.product <;> simp

/-- The pieces of the place of an element. -/
def MatrixOperand.offsetPieces (m : MatrixOperand) (row col : String) : List String :=
  let (r, c) := if m.transposed then (col, row) else (row, col)
  match m.layout with
  | .rowMajor => ["(", r, ")", "*", m.internalCols.term.text, "+", "(", c, ")"]
  | .columnMajor => ["(", r, ")", "+", "(", c, ")", "*", m.internalRows.term.text]

theorem MatrixOperand.parted_offset (m : MatrixOperand) (row col : Term) :
    Parted (m.offset row col).text (m.offsetPieces row.text col.text) True := by
  have byRows (r c : Term) : Parted (Term.paren r * m.internalCols.term + .paren c).text
      ["(", r.text, ")", "*", m.internalCols.term.text, "+", "(", c.text, ")"] True :=
    (((Parted.whole r.text).paren.binary "*" (Parted.whole m.internalCols.term.text)).binary "+"
      (Parted.whole c.text).paren).congr rfl rfl (by simp)
  have byCols (r c : Term) : Parted (Term.paren r + .paren c * m.internalRows.term).text
      ["(", r.text, ")", "+", "(", c.text, ")", "*", m.internalRows.term.text] True :=
    ((Parted.whole r.text).paren.binary "+" ((Parted.whole c.text).paren.binary "*"
      (Parted.whole m.internalRows.term.text))).congr rfl rfl (by simp)
  unfold offset offsetPieces
  cases m.transposed <;> cases m.layout
  · exact byRows row col
  · exact byCols row col
  · exact byRows col row
  · exact byCols col row

namespace Expr

/-- The texts that an expression puts side by side: its names and literals, the texts of the scope as they
are, and the signs and functions of its operators. -/
def pieces (scope : Scope) : Expr → List String
  | scalar (.host x) => [x]
  | scalar (.device x) => [x, "["] ++ ["0"] ++ ["]"]
  | scalar (.literal text) => [text]
  | vector v => [v.name, "["] ++ [Scope.textOf scope.index] ++ ["]"]
  | matrix m => [m.name, "["] ++ m.offsetPieces (Scope.textOf scope.row) (Scope.textOf scope.col) ++ ["]"]
  | binary op lhs rhs => op.pieces (lhs.pieces scope) (rhs.pieces scope)
  | unary func operand => func.pieces scope.numericType (operand.pieces scope)
  | fold .. | product .. => [Scope.textOf scope.product]

/-- Whether the text of an expression begins with a character that continues a minus: literals and the value
of the product stand there as they are. -/
def continuesMinus (scope : Scope) : Expr → Bool
  | scalar (.literal text) => Text.continuesMinus text
  | fold .. | product .. => Text.continuesMinus (Scope.textOf scope.product)
  | _ => false

/-- Whether a negation in an expression is joined with its operand. -/
def joins (scope : Scope) : Expr → Bool
  | binary _ lhs rhs => lhs.joins scope || rhs.joins scope
  | unary func operand => func == .neg && operand.continuesMinus scope || operand.joins scope
  | _ => false

/-- A leaf whose names are words, and whose literal is a numeral with a minus before it or without. -/
def Lexical : Expr → Prop
  | scalar (.host x) | scalar (.device x) => isWord x
  | scalar (.literal text) => ∃ sign numeral, (sign = "" ∨ sign = "-") ∧ isUnsignedNumeral numeral.toList ∧
      text = sign ++ numeral
  | vector v => isWord v.name
  | matrix m => isWord m.name ∧ (∀ s ∈ m.internalRows.symbol?, isWord s) ∧
      ∀ s ∈ m.internalCols.symbol?, isWord s
  | _ => True

theorem continuesMinus_text {scope : Scope} {e : Expr} {t : Term} (lexical : ∀ leaf ∈ e.leaves, leaf.Lexical)
    (ok : e.term scope = .ok t) : Text.continuesMinus t.text = e.continuesMinus scope := by
  have element {name : String} (word : isWord name) (s : String) :
      Text.continuesMinus (name ++ "[" ++ s ++ "]") = false :=
    ((((beginsPlainly_of_word word).append _).append _).append _).2
  cases e with
  | scalar s =>
    cases Except.ok.inj ok
    have plain := lexical _ List.mem_cons_self
    cases s with
    | host x => exact (beginsPlainly_of_word plain).2
    | device x => exact element plain _
    | literal text => rfl
  | vector v =>
    obtain ⟨i, -, rfl⟩ := VectorOperand.term_eq_ok_iff.mp ok
    exact element (lexical _ List.mem_cons_self) _
  | matrix m =>
    obtain ⟨row, col, -, -, rfl⟩ := MatrixOperand.term_eq_ok_iff.mp ok
    exact element (lexical _ List.mem_cons_self : (Expr.matrix m).Lexical).1 _
  | binary op lhs rhs =>
    obtain ⟨left, -, ok⟩ := bind_eq_ok_iff.mp ok
    obtain ⟨right, -, ok⟩ := bind_eq_ok_iff.mp ok
    cases ok
    exact (op.beginsPlainly_apply left right).2
  | unary func operand =>
    obtain ⟨inner, -, ok⟩ := bind_eq_ok_iff.mp ok
    cases ok
    exact (func.beginsPlainly_apply scope.numericType inner).2
  | fold combine reduce lhs | product combine reduce lhs rhs =>
    have stands : scope.product = some t := Scope.productTerm_eq_ok_iff.mp ok
    rw [continuesMinus, stands]
    rfl

/-- **The text of an expression is made of its pieces**, which stay apart just when no negation is joined
with its operand. -/
theorem parted_term {scope : Scope} {e : Expr} {t : Term} (lexical : ∀ leaf ∈ e.leaves, leaf.Lexical)
    (ok : e.term scope = .ok t) : Parted t.text (e.pieces scope) (e.joins scope = false) := by
  induction e generalizing t with
  | scalar s =>
    cases Except.ok.inj ok
    cases s with
    | host x => exact (Parted.whole x).congr rfl rfl (by simp [joins])
    | device x => exact ((Parted.whole "0").subscript x).congr rfl rfl (by simp [joins])
    | literal text => exact (Parted.whole text).congr rfl rfl (by simp [joins])
  | vector v =>
    obtain ⟨i, index, rfl⟩ := VectorOperand.term_eq_ok_iff.mp ok
    rw [pieces, index]
    exact ((Parted.whole i.text).subscript v.name).congr rfl rfl (by simp [joins])
  | matrix m =>
    obtain ⟨row, col, rows, cols, rfl⟩ := MatrixOperand.term_eq_ok_iff.mp ok
    rw [pieces, rows, cols]
    exact ((m.parted_offset row col).subscript m.name).congr rfl rfl (by simp [joins])
  | binary op lhs rhs ihLeft ihRight =>
    obtain ⟨left, okLeft, ok⟩ := bind_eq_ok_iff.mp ok
    obtain ⟨right, okRight, ok⟩ := bind_eq_ok_iff.mp ok
    cases ok
    obtain ⟨lexicalLeft, lexicalRight⟩ := List.forall_mem_append.mp lexical
    refine (op.parted_apply (ihLeft lexicalLeft okLeft) (ihRight lexicalRight okRight)).congr rfl rfl ?_
    rw [joins, Bool.or_eq_false_iff]
  | unary func operand ih =>
    obtain ⟨inner, okInner, ok⟩ := bind_eq_ok_iff.mp ok
    cases ok
    refine (func.parted_apply scope.numericType (ih lexical okInner)).congr rfl rfl ?_
    rw [continuesMinus_text (e := operand) lexical okInner, joins, Bool.or_eq_false_iff]
    cases func <;> simp
  | fold combine reduce lhs | product combine reduce lhs rhs =>
    have stands : scope.product = some t := Scope.productTerm_eq_ok_iff.mp ok
    rw [pieces, stands]
    exact (Parted.whole t.text).congr rfl rfl (by simp [joins])

end Expr

/-! ### The pieces of products -/

namespace Product

/-- The pieces of one term of a product. -/
def pieces (scope : Scope) (p : Product) : List String :=
  match p.rhs with
  | some rhs => p.combine.pieces (p.lhs.pieces scope) (rhs.pieces scope)
  | none => p.lhs.pieces scope

/-- Whether a negation on either side is joined with its operand. -/
def joins (scope : Scope) (p : Product) : Bool := p.lhs.joins scope || p.rhs.any (Expr.joins scope)

theorem parted_term {scope : Scope} {p : Product} {t : Term} (lexical : ∀ leaf ∈ p.leaves, leaf.Lexical)
    (ok : p.term scope = .ok t) : Parted t.text (p.pieces scope) (p.joins scope = false) := by
  obtain ⟨left, okLeft, ok⟩ := bind_eq_ok_iff.mp ok
  obtain ⟨lexicalLeft, lexicalRight⟩ := List.forall_mem_append.mp lexical
  have front := Expr.parted_term lexicalLeft okLeft
  unfold pieces joins
  cases second : p.rhs with
  | none =>
    rw [second] at ok
    cases ok
    exact front.congr rfl rfl (by simp)
  | some rhs =>
    rw [second] at ok lexicalRight
    obtain ⟨right, okRight, ok⟩ := bind_eq_ok_iff.mp ok
    cases ok
    refine (p.combine.parted_apply front (Expr.parted_term lexicalRight okRight)).congr rfl rfl ?_
    rw [Option.any_some, Bool.or_eq_false_iff]

end Product

/-! ### What the pieces are -/

/-- The texts that a scope puts in. -/
def Scope.texts (scope : Scope) : List String :=
  (scope.index.toList ++ scope.row.toList ++ scope.col.toList ++ scope.product.toList).map Term.text

/-- A piece that a scope puts in, or that is made of lexemes which do not count up or down. -/
def Scope.Allows (scope : Scope) (piece : String) : Prop := piece ∈ scope.texts ∨ isSteady piece

/-- The pieces that operators and elements add to those of their operands. -/
def ownPieces : List String :=
  ["(", ")", "[", "]", ",", "0", "+", "-", "*", "/", "max", "min", "fabs", "abs", "sqrt", "exp", "log"]

theorem Scope.allows_own (scope : Scope) : ∀ s ∈ ownPieces, scope.Allows s := by
  have steady : ∀ s ∈ ownPieces, isSteady s := by decide
  exact fun s member => .inr (steady s member)

theorem BinaryOp.forall_mem_pieces (op : BinaryOp) {scope : Scope} {ps qs : List String}
    (left : ∀ s ∈ ps, scope.Allows s) (right : ∀ s ∈ qs, scope.Allows s) :
    ∀ s ∈ op.pieces ps qs, scope.Allows s := by
  have own := scope.allows_own
  simp only [ownPieces, List.forall_mem_cons] at own
  cases op <;> simpa [pieces, own, or_imp, forall_and] using ⟨left, right⟩

theorem UnaryFn.forall_mem_pieces (func : UnaryFn) (type : NumericType) {scope : Scope} {ps : List String}
    (inner : ∀ s ∈ ps, scope.Allows s) : ∀ s ∈ func.pieces type ps, scope.Allows s := by
  have own := scope.allows_own
  simp only [ownPieces, List.forall_mem_cons] at own
  have magnitude : scope.Allows (if type.isFloat then "fabs" else "abs") := by split <;> simp [own]
  cases func <;> simpa [pieces, own, magnitude, or_imp, forall_and] using inner

theorem Extent.isSteady_text {x : Extent} (words : ∀ s ∈ x.symbol?, isWord s) : isSteady x.term.text := by
  cases x with
  | fixed n => exact isSteady_numeral (isUnsignedNumeral_toString_append n.toNat (by decide))
  | symbol name => exact isSteady_word (words name rfl)

theorem MatrixOperand.forall_mem_offsetPieces {m : MatrixOperand} {scope : Scope} {row col : String}
    (rows : ∀ s ∈ m.internalRows.symbol?, isWord s) (cols : ∀ s ∈ m.internalCols.symbol?, isWord s)
    (first : scope.Allows row) (second : scope.Allows col) :
    ∀ s ∈ m.offsetPieces row col, scope.Allows s := by
  have own := scope.allows_own
  simp only [ownPieces, List.forall_mem_cons] at own
  have extents : scope.Allows m.internalRows.term.text ∧ scope.Allows m.internalCols.term.text :=
    ⟨.inr (Extent.isSteady_text rows), .inr (Extent.isSteady_text cols)⟩
  unfold offsetPieces
  cases m.transposed <;> cases m.layout <;> simp [own, extents, first, second]

theorem Expr.forall_mem_pieces {scope : Scope} {e : Expr} {t : Term}
    (lexical : ∀ leaf ∈ e.leaves, leaf.Lexical) (ok : e.term scope = .ok t) :
    ∀ s ∈ e.pieces scope, scope.Allows s := by
  have own := scope.allows_own
  simp only [ownPieces, List.forall_mem_cons] at own
  induction e generalizing t with
  | scalar s =>
    have plain := lexical _ List.mem_cons_self
    cases s with
    | host x => exact List.forall_mem_singleton.mpr (.inr (isSteady_word plain))
    | device x =>
      have name : scope.Allows x := .inr (isSteady_word plain)
      simp [pieces, own, name]
    | literal text =>
      obtain ⟨sign, numeral, rfl | rfl, is, rfl⟩ := plain
      · exact List.forall_mem_singleton.mpr (.inr (String.empty_append ▸ isSteady_numeral is))
      · exact List.forall_mem_singleton.mpr (.inr (isSteady_minus is))
  | vector v =>
    have name : scope.Allows v.name := .inr (isSteady_word (lexical _ List.mem_cons_self))
    obtain ⟨i, index, -⟩ := VectorOperand.term_eq_ok_iff.mp ok
    have place : scope.Allows (Scope.textOf scope.index) := .inl (by simp [Scope.texts, Scope.textOf, index])
    simp [pieces, own, name, place]
  | matrix m =>
    obtain ⟨word, extentRows, extentCols⟩ : (Expr.matrix m).Lexical := lexical _ List.mem_cons_self
    have name : scope.Allows m.name := .inr (isSteady_word word)
    obtain ⟨row, col, rows, cols, -⟩ := MatrixOperand.term_eq_ok_iff.mp ok
    have first : scope.Allows (Scope.textOf scope.row) := .inl (by simp [Scope.texts, Scope.textOf, rows])
    have second : scope.Allows (Scope.textOf scope.col) := .inl (by simp [Scope.texts, Scope.textOf, cols])
    have offset := MatrixOperand.forall_mem_offsetPieces extentRows extentCols first second
    simpa [pieces, own, name, or_imp, forall_and] using offset
  | binary op lhs rhs ihLeft ihRight =>
    obtain ⟨left, okLeft, ok⟩ := bind_eq_ok_iff.mp ok
    obtain ⟨right, okRight, -⟩ := bind_eq_ok_iff.mp ok
    obtain ⟨lexicalLeft, lexicalRight⟩ := List.forall_mem_append.mp lexical
    exact op.forall_mem_pieces (ihLeft lexicalLeft okLeft) (ihRight lexicalRight okRight)
  | unary func operand ih =>
    obtain ⟨inner, okInner, -⟩ := bind_eq_ok_iff.mp ok
    exact func.forall_mem_pieces scope.numericType (ih lexical okInner)
  | fold combine reduce lhs | product combine reduce lhs rhs =>
    have stands : scope.product = some t := Scope.productTerm_eq_ok_iff.mp ok
    exact List.forall_mem_singleton.mpr (.inl (by simp [Scope.texts, Scope.textOf, stands]))

theorem Product.forall_mem_pieces {scope : Scope} {p : Product} {t : Term}
    (lexical : ∀ leaf ∈ p.leaves, leaf.Lexical) (ok : p.term scope = .ok t) :
    ∀ s ∈ p.pieces scope, scope.Allows s := by
  obtain ⟨left, okLeft, ok⟩ := bind_eq_ok_iff.mp ok
  obtain ⟨lexicalLeft, lexicalRight⟩ := List.forall_mem_append.mp lexical
  have front := Expr.forall_mem_pieces lexicalLeft okLeft
  unfold pieces
  cases second : p.rhs with
  | none => exact front
  | some rhs =>
    rw [second] at ok lexicalRight
    obtain ⟨right, okRight, -⟩ := bind_eq_ok_iff.mp ok
    exact p.combine.forall_mem_pieces front (Expr.forall_mem_pieces lexicalRight okRight)

/-! ### Lexemes of terms -/

namespace Scope

/-- What is known of the lexemes of a text that is made of pieces. -/
structure Lexed (scope : Scope) (text : String) (pieces : List String) (joins : Bool) : Prop where
  /-- The pieces have lexemes if the texts of the scope do. -/
  found : (∀ s ∈ scope.texts, (lexemes s).isSome) → (lexemesOf pieces).isSome
  /-- The lexemes of the text are those of the pieces. -/
  apart : joins = false → lexemes text = lexemesOf pieces
  /-- They are others when a minus is joined with what stands behind it. -/
  joined : joins = true → ∀ ts, lexemesOf pieces = some ts → lexemes text ≠ some ts
  /-- Otherwise signs that count up or down stand in the texts of the scope already. -/
  counting : joins = false → ∀ ts, lexemes text = some ts → ∀ sign ∈ countingSigns, sign ∈ ts →
    ∃ s ∈ scope.texts, ∃ us, lexemes s = some us ∧ sign ∈ us

theorem lexed_of_parted {scope : Scope} {text : String} {pieces : List String} {joins : Bool}
    (parted : Parted text pieces (joins = false)) (allowed : ∀ s ∈ pieces, scope.Allows s) :
    scope.Lexed text pieces joins where
  found split := by
    refine isSome_lexemesOf fun s member => ?_
    rcases allowed s member with own | steady
    · exact split s own
    · obtain ⟨us, found, -⟩ := (Option.any_eq_true _ _).mp steady
      rw [found]
      rfl
  apart := parted.eq
  joined joins ts found same := Bool.false_ne_true ((parted.of_eq ts same found).symm.trans joins)
  counting apart ts found sign among member := by
    obtain ⟨s, piece, us, of, inside⟩ := mem_lexemesOf ((parted.eq apart).symm.trans found) member
    rcases allowed s piece with own | steady
    · exact ⟨s, own, us, of, inside⟩
    · rw [isSteady, of, Option.any_some, List.all_eq_true] at steady
      have absent := steady sign inside
      rw [Bool.not_eq_true', ← Bool.not_eq_true, List.contains_iff_mem] at absent
      exact absurd among absent

/-- **What stands side by side stays apart.** The lexemes of an expression are those of its pieces, which are
its names and literals, the texts of the scope and the signs and functions of its operators, whatever those
texts are; and no `++` or `--` comes about. The one exception is a negation in front of a literal with a
minus, or of a text for the product that continues a minus: with one of these the lexemes are others. It is
the same with the terms of products. -/
theorem lexemes_terms (scope : Scope) :
    (∀ (e : Expr) (t : Term), (∀ leaf ∈ e.leaves, leaf.Lexical) → e.term scope = .ok t →
      scope.Lexed t.text (e.pieces scope) (e.joins scope)) ∧
    ∀ (p : Product) (t : Term), (∀ leaf ∈ p.leaves, leaf.Lexical) → p.term scope = .ok t →
      scope.Lexed t.text (p.pieces scope) (p.joins scope) :=
  ⟨fun _ _ lexical ok => lexed_of_parted (Expr.parted_term lexical ok) (Expr.forall_mem_pieces lexical ok),
    fun _ _ lexical ok => lexed_of_parted (Product.parted_term lexical ok) (Product.forall_mem_pieces lexical ok)⟩

/-- A literal with a minus stands apart from the sign in front of it, and the index of the scope counts down
by itself; but a negation in front of such a literal is joined with it. -/
theorem lexemes_terms_subtrahend :
    let scope : Scope := (bare .int).withIndex (.verbatim "i--")
    let one : Expr := .scalar (.literal "-1")
    let e : Expr := .binary .sub (.unary .neg (.vector ⟨"x", .fixed 4⟩)) one
    let p : Product := ⟨e, some (.scalar (.host "a")), .mul, .add⟩
    e.joins scope = false ∧ lexemes "((-x[i--]) - -1)" = lexemesOf (e.pieces scope) ∧
      (∃ s ∈ scope.texts, ∃ us, lexemes s = some us ∧ "--" ∈ us) ∧
      p.joins scope = false ∧ lexemes "(((-x[i--]) - -1) * a)" = lexemesOf (p.pieces scope) ∧
      (Expr.unary .neg one).joins scope = true ∧ lexemes "(--1)" ≠ some ["(", "-", "-", "1", ")"] := by
  intro scope one e p
  have literal : one.Lexical := ⟨"-", "1", .inr rfl, by decide, rfl⟩
  have vector : (Expr.vector ⟨"x", .fixed 4⟩).Lexical := show isWord "x" by decide
  have host : (Expr.scalar (.host "a")).Lexical := show isWord "a" by decide
  have inner : ∀ leaf ∈ e.leaves, leaf.Lexical :=
    List.forall_mem_cons.mpr ⟨vector, List.forall_mem_singleton.mpr literal⟩
  have outer : ∀ leaf ∈ p.leaves, leaf.Lexical :=
    List.forall_mem_append.mpr ⟨inner, List.forall_mem_singleton.mpr host⟩
  obtain ⟨expressions, products⟩ := lexemes_terms scope
  have difference := expressions e _ inner rfl
  have product := products p _ outer rfl
  have negation := expressions (.unary .neg one) _ (List.forall_mem_singleton.mpr literal) rfl
  have text : lexemes "((-x[i--]) - -1)" =
      some ["(", "(", "-", "x", "[", "i", "--", "]", ")", "-", "-", "1", ")"] := by decide +kernel
  exact ⟨rfl, difference.apart rfl, difference.counting rfl _ text "--" (by decide) (by decide), rfl,
    product.apart rfl, rfl, negation.joined rfl _ (by decide +kernel)⟩

/-- **A negated literal with a minus counts down.** All leaves are numerals, and the pieces have lexemes of
their own; but the two minus signs become one sign. -/
theorem negated_literal_joined :
    let e : Expr := .unary .neg (.scalar (.literal "-1"))
    (∀ leaf ∈ e.leaves, leaf.Lexical) ∧ e.term (bare .int) = .ok (.paren (.negate (.verbatim "-1"))) ∧
      lexemesOf (e.pieces (bare .int)) = some ["(", "-", "-", "1", ")"] ∧
      lexemes (Term.paren (.negate (.verbatim "-1"))).text = some ["(", "--", "1", ")"] := by
  refine ⟨List.forall_mem_singleton.mpr ⟨"-", "1", .inr rfl, by decide, rfl⟩, rfl, by decide +kernel,
    by decide +kernel⟩

end Scope

end TunedKernel
