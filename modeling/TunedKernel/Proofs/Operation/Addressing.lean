/-
**A matrix operand is a faithful view of its allocation.**

The offset of an element is written over the terms of its row and column. Whatever these terms are, what it
stands for depends on their numbers only, so its laws are laws of two numbers.

* `MatrixOperand.Keeps` — the offset of a row and a column stands for a place, whatever terms they are;
  `keeps_iff` — the place is the element's position.
* `MatrixOperand.position_lt` — positions lie in the allocation.
* `MatrixOperand.mirror` — the transposed allocation in the other storage order, read transposed;
  `number?_offset_mirror` — it has the same offsets.
* `MatrixOperand.position_succ_row`, `position_succ_col` — what lies side by side.
* `MatrixOperand.offset_faithful` — all of it, for the term and for its text.
-/

import TunedKernel.Proofs.Source.Rendering

namespace TunedKernel

open TunedKernel.Text

/-- The other storage order. -/
def Layout.other : Layout → Layout
  | rowMajor => columnMajor
  | columnMajor => rowMajor

namespace MatrixOperand

variable {α : Type} {m : MatrixOperand} {w : Worker} {names : Names α} {bindings : Bindings}
  {i j n : Nat}

/-- The offset of a row and a column stands for a place, whatever terms stand for the two. -/
def Keeps (m : MatrixOperand) (w : Worker) (names : Names α) (i j n : Nat) : Prop :=
  ∀ row col : Term, row.number? w names = some i → col.number? w names = some j →
    (m.offset row col).number? w names = some n

/-- The transposed allocation in the other storage order, read transposed. -/
def mirror (m : MatrixOperand) : MatrixOperand where
  name := m.name
  rows := m.cols
  cols := m.rows
  internalRows := m.internalCols
  internalCols := m.internalRows
  layout := m.layout.other
  transposed := !m.transposed

/-- The place of an element is its position. -/
theorem keeps_iff (rows : m.internalRows.Known bindings names) (cols : m.internalCols.Known bindings names) :
    m.Keeps w names i j n ↔ m.position bindings i j = n := by
  constructor
  · intro keeps
    have here : (m.offset (.number i) (.number j)).number? w names = some (m.position bindings i j) :=
      number?_offset rows cols rfl rfl
    exact Option.some.inj (here.symm.trans (keeps _ _ rfl rfl))
  · rintro rfl row col atRow atCol
    exact number?_offset rows cols atRow atCol

/-! ### Inside the allocation -/

/-- A number of two digits is below the product of their bases. -/
theorem digits_lt {a b x y : Nat} (high : x < a) (low : y < b) : x * b + y < a * b :=
  calc x * b + y < x * b + b := Nat.add_lt_add_left low _
    _ = (x + 1) * b := (Nat.succ_mul ..).symm
    _ ≤ a * b := Nat.mul_le_mul_right _ high

/-- **Positions lie in the allocation**, where it is as large as what is stored. -/
theorem position_lt (rows : m.rows.size bindings ≤ m.internalRows.size bindings)
    (cols : m.cols.size bindings ≤ m.internalCols.size bindings)
    (row : i < m.logicalRows.size bindings) (col : j < m.logicalCols.size bindings) :
    m.position bindings i j < m.internalRows.size bindings * m.internalCols.size bindings := by
  have byRows {r c : Nat} (first : r < m.rows.size bindings) (second : c < m.cols.size bindings) :
      r * m.internalCols.size bindings + c <
        m.internalRows.size bindings * m.internalCols.size bindings :=
    digits_lt (first.trans_le rows) (second.trans_le cols)
  have byCols {r c : Nat} (first : r < m.rows.size bindings) (second : c < m.cols.size bindings) :
      r + c * m.internalRows.size bindings <
        m.internalRows.size bindings * m.internalCols.size bindings := by
    rw [Nat.add_comm, Nat.mul_comm (m.internalRows.size bindings)]
    exact digits_lt (second.trans_le cols) (first.trans_le rows)
  unfold logicalRows at row
  unfold logicalCols at col
  unfold position
  cases turned : m.transposed with
  | false =>
    rw [turned] at row col
    cases m.layout with
    | rowMajor => exact byRows row col
    | columnMajor => exact byCols row col
  | true =>
    rw [turned] at row col
    cases m.layout with
    | rowMajor => exact byRows col row
    | columnMajor => exact byCols col row

/-! ### Views of the same elements -/

theorem logicalRows_transpose : m.transpose.logicalRows = m.logicalCols := by
  unfold transpose logicalRows logicalCols
  cases m.transposed <;> rfl

theorem logicalCols_transpose : m.transpose.logicalCols = m.logicalRows := by
  unfold transpose logicalRows logicalCols
  cases m.transposed <;> rfl

/-- Read transposed, a matrix has the offsets with row and column exchanged. -/
theorem offset_transpose (row col : Term) : m.transpose.offset row col = m.offset col row := by
  unfold transpose offset
  cases m.transposed <;> rfl

theorem logicalRows_mirror : m.mirror.logicalRows = m.logicalRows := by
  unfold mirror logicalRows
  cases m.transposed <;> rfl

theorem logicalCols_mirror : m.mirror.logicalCols = m.logicalCols := by
  unfold mirror logicalCols
  cases m.transposed <;> rfl

theorem rowsAdjacent_mirror : m.mirror.rowsAdjacent = m.rowsAdjacent := by
  unfold mirror rowsAdjacent
  cases m.layout <;> cases m.transposed <;> rfl

/-- The order of a sum does not matter. -/
theorem number?_add_comm (s t : Term) : (s + t).number? w names = (t + s).number? w names := by
  show (s.number? w names).bind (fun a => (t.number? w names).bind fun b => some (a + b)) =
    (t.number? w names).bind fun b => (s.number? w names).bind fun a => some (b + a)
  cases s.number? w names with
  | none => cases t.number? w names <;> rfl
  | some a =>
    cases t.number? w names with
    | none => rfl
    | some b => exact congrArg some (Nat.add_comm a b)

/-- **The mirrored matrix has the same offsets.** They are written with the two parts exchanged. -/
theorem number?_offset_mirror (row col : Term) :
    (m.mirror.offset row col).number? w names = (m.offset row col).number? w names := by
  unfold mirror offset
  cases m.layout <;> cases m.transposed <;> exact number?_add_comm ..

/-! ### What lies side by side -/

theorem position_succ_row (adjacent : m.rowsAdjacent = true) (i j : Nat) :
    m.position bindings (i + 1) j = m.position bindings i j + 1 := by
  unfold rowsAdjacent at adjacent
  unfold position
  cases order : m.layout <;> cases turned : m.transposed <;> rw [order, turned] at adjacent
  · cases adjacent
  · exact (Nat.add_assoc ..).symm
  · exact Nat.add_right_comm ..
  · cases adjacent

theorem position_succ_col (apart : m.rowsAdjacent = false) (i j : Nat) :
    m.position bindings i (j + 1) = m.position bindings i j + 1 := by
  unfold rowsAdjacent at apart
  unfold position
  cases order : m.layout <;> cases turned : m.transposed <;> rw [order, turned] at apart
  · exact (Nat.add_assoc ..).symm
  · cases apart
  · cases apart
  · exact Nat.add_right_comm ..

/-! ### The view -/

/-- **A matrix operand is a faithful view of its allocation.** Where the allocation is as large as what is
stored, each element as the operation reads it has a place of its own in the allocation. Reading the matrix
transposed exchanges rows and columns, the mirrored matrix is the same view, and rows lie side by side
exactly where `rowsAdjacent` says so, columns elsewhere. If the sizes are named by identifiers, the text of
the offset is read as one expression, which has the place as its value, whatever expressions the row and the
column are. -/
theorem offset_faithful (rows : m.rows.size bindings ≤ m.internalRows.size bindings)
    (cols : m.cols.size bindings ≤ m.internalCols.size bindings)
    (rowsKnown : m.internalRows.Known bindings names) (colsKnown : m.internalCols.Known bindings names) :
    (∀ i < m.logicalRows.size bindings, ∀ j < m.logicalCols.size bindings,
      ∃ n < m.internalRows.size bindings * m.internalCols.size bindings, m.Keeps w names i j n) ∧
    (∀ i < m.logicalRows.size bindings, ∀ j < m.logicalCols.size bindings,
      ∀ i' < m.logicalRows.size bindings, ∀ j' < m.logicalCols.size bindings, ∀ n,
        m.Keeps w names i j n → m.Keeps w names i' j' n → i = i' ∧ j = j') ∧
    (m.transpose.logicalRows = m.logicalCols ∧ m.transpose.logicalCols = m.logicalRows ∧
      ∀ row col, m.transpose.offset row col = m.offset col row) ∧
    (m.mirror.logicalRows = m.logicalRows ∧ m.mirror.logicalCols = m.logicalCols ∧
      m.mirror.rowsAdjacent = m.rowsAdjacent ∧
      ∀ row col, (m.mirror.offset row col).number? w names = (m.offset row col).number? w names) ∧
    (m.rowsAdjacent = true → ∀ i j n, m.Keeps w names i j n → m.Keeps w names (i + 1) j (n + 1)) ∧
    (m.rowsAdjacent = false → ∀ i j n, m.Keeps w names i j n → m.Keeps w names i (j + 1) (n + 1)) ∧
    ((∀ s ∈ m.internalRows.symbol?, isName s) → (∀ s ∈ m.internalCols.symbol?, isName s) →
      ∀ (row col : Term) (r c : Phrase), Spells .expression row.text r → Spells .expression col.text c →
        ∃ tree, Reads .expression (m.offset row col).text tree ∧
          ∀ (values : String → Nat) (others : Phrase → Nat), m.internalRows.Named bindings values →
            m.internalCols.Named bindings values →
              m.Keeps w names (r.value values others) (c.value values others) (tree.value values others)) := by
  have keeps {i j n : Nat} : m.Keeps w names i j n ↔ m.position bindings i j = n :=
    keeps_iff rowsKnown colsKnown
  refine ⟨fun i row j col => ?_, fun i row j col i' row' j' col' n here there => ?_, ?_, ?_, ?_, ?_, ?_⟩
  · exact ⟨_, position_lt rows cols row col, keeps.mpr rfl⟩
  · exact position_injective rows cols ⟨row, col⟩ ⟨row', col'⟩
      ((keeps.mp here).trans (keeps.mp there).symm)
  · exact ⟨logicalRows_transpose, logicalCols_transpose, offset_transpose⟩
  · exact ⟨logicalRows_mirror, logicalCols_mirror, rowsAdjacent_mirror, number?_offset_mirror⟩
  · intro adjacent i j n here
    rw [keeps, position_succ_row adjacent, keeps.mp here]
  · intro apart i j n here
    rw [keeps, position_succ_col apart, keeps.mp here]
  · intro rowName colName row col r c spelledRow spelledCol
    have spelled := spells_offset rowName colName spelledRow spelledCol
    refine ⟨_, spelled.reads spelled, fun values others rowsNamed colsNamed => ?_⟩
    have located := m.locates_offsetPhrase r c values others bindings _ _ rowsNamed colsNamed rfl rfl
    exact keeps.mpr located.symm

/-- A matrix of two by three elements in an allocation of five by four, stored by columns and read
transposed. -/
theorem offset_faithful_padded :
    let m := ((MatrixOperand.plain "A" (.symbol "M") (.fixed 3)).padded (.symbol "LD")
      (.fixed 4)).columnMajor.transpose
    let bindings : Bindings := fun x => if x = "M" then some 2 else if x = "LD" then some 5 else none
    let names : Names Unit := Names.bind (fun _ => none) "LD" (.index 5)
    let keeps := m.Keeps ⟨⟨1, 1, 1⟩, ⟨1, 1, 1⟩, ⟨0, 0, 0⟩, ⟨0, 0, 0⟩⟩ names
    (m.logicalRows.size bindings = 3 ∧ m.logicalCols.size bindings = 2) ∧
      (∀ i < 3, ∀ j < 2, ∃ n < 5 * 4, keeps i j n) ∧
      (∀ i < 3, ∀ j < 2, ∀ i' < 3, ∀ j' < 2, ∀ n, keeps i j n → keeps i' j' n → i = i' ∧ j = j') ∧
      (∀ i j n, keeps i j n → keeps i (j + 1) (n + 1)) ∧
      ∃ tree, Reads .expression "(b) + (a) * LD" tree ∧
        ∀ (values : String → Nat) (others : Phrase → Nat), values "LD" = 5 →
          keeps (values "a") (values "b") (tree.value values others) := by
  intro m bindings names keeps
  obtain ⟨inside, apart, -, -, -, cols, text⟩ := @offset_faithful Unit m
    ⟨⟨1, 1, 1⟩, ⟨1, 1, 1⟩, ⟨0, 0, 0⟩, ⟨0, 0, 0⟩⟩ names bindings (by decide) (by decide) rfl trivial
  have name (x : String) (is : isName x) : Spells .expression x (.name x) := (Spells.name is).of_simple _
  obtain ⟨tree, reads, value⟩ := text (by rintro s ⟨⟩; decide) (by rintro s ⟨⟩) (.name "a") (.name "b")
    _ _ (name "a" (by decide)) (name "b" (by decide))
  refine ⟨⟨rfl, rfl⟩, inside, apart, cols rfl, tree, reads, fun values others named => ?_⟩
  exact value values others (by rintro s ⟨⟩; exact named) (by rintro s ⟨⟩)

end MatrixOperand

end TunedKernel
