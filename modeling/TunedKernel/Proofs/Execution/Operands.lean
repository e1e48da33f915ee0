/-
**What the expressions of an operation mean, and that their terms mean the same.**

* `Reading` — what an expression is read against: the meaning of elements, the host's values, the
  bound sizes and the contents of memory.
* `Point` — the index, row and column of an element.
* `MatrixOperand.position` — where a matrix keeps an element.
* `Expr.value`, `Product.value` — the value of an expression, and of one term of a product.
* `Expr.place?` — the place of a leaf; `Expr.leaves` — the leaves that stand in no product;
  `Product.leaves` — those of its operands.
* `Expr.Known` — the names of a kernel give a leaf its meaning.
* `Expr.gives`, `Expr.at_place` — in a scope that names a point, the term of an expression has its
  value there, and the term of a leaf names its place.
* `Statement.outcome` — what a statement makes of an element; `Statement.leads` — its step does so.
-/

import TunedKernel.Generator.Requirements
import TunedKernel.Proofs.Execution.Worker

namespace TunedKernel

variable {α : Type}

/-! ### Values of expressions -/

/-- What an expression is read against. -/
structure Reading (α : Type) where
  elements : Elements α
  host : String → α
  bindings : Bindings
  memory : Memory α

/-- An element: its index in vectors, and its row and column in matrices. -/
structure Point where
  index : Nat := 0
  row : Nat := 0
  col : Nat := 0

/-- The size of an extent, zero where its symbol is not bound. -/
def Extent.size (x : Extent) (bindings : Bindings) : Nat := (x.value? bindings).getD 0

/-- Where a matrix keeps the element at a row and column, as the operation reads it. -/
def MatrixOperand.position (m : MatrixOperand) (bindings : Bindings) (row col : Nat) : Nat :=
  let (r, c) := if m.transposed then (col, row) else (row, col)
  match m.layout with
  | .rowMajor => r * m.internalCols.size bindings + c
  | .columnMajor => r + c * m.internalRows.size bindings

/-- An element of a buffer. -/
def Reading.element (r : Reading α) (buffer : String) (index : Nat) : α :=
  (r.memory (.global buffer index)).value

/-- Quotient and remainder are found in one way only. -/
theorem digits_unique {n a b a' b' : Nat} (below : b < n) (below' : b' < n)
    (same : a * n + b = a' * n + b') : a = a' ∧ b = b' := by
  have positive := Nat.zero_lt_of_lt below
  have one := (Nat.div_mod_unique positive).mpr ⟨(Nat.add_comm b (n * a)).trans
    (congrArg (· + b) (Nat.mul_comm n a)), below⟩
  have two := (Nat.div_mod_unique positive).mpr ⟨(Nat.add_comm b' (n * a')).trans
    (congrArg (· + b') (Nat.mul_comm n a')), below'⟩
  rw [same] at one
  exact ⟨one.1.symm.trans two.1, one.2.symm.trans two.2⟩

/-- **A matrix keeps each of its elements in a place of its own**, where its allocation is as large
as what is stored. -/
theorem MatrixOperand.position_injective {m : MatrixOperand} {bindings : Bindings}
    (rows : m.rows.size bindings ≤ m.internalRows.size bindings)
    (cols : m.cols.size bindings ≤ m.internalCols.size bindings) {row col row' col' : Nat}
    (below : row < m.logicalRows.size bindings ∧ col < m.logicalCols.size bindings)
    (below' : row' < m.logicalRows.size bindings ∧ col' < m.logicalCols.size bindings)
    (same : m.position bindings row col = m.position bindings row' col') :
    row = row' ∧ col = col' := by
  have byRows {r c r' c' : Nat} (c₁ : c < m.cols.size bindings) (c₂ : c' < m.cols.size bindings)
      (same : r * m.internalCols.size bindings + c = r' * m.internalCols.size bindings + c') :
      r = r' ∧ c = c' := digits_unique (c₁.trans_le cols) (c₂.trans_le cols) same
  have byCols {r c r' c' : Nat} (r₁ : r < m.rows.size bindings) (r₂ : r' < m.rows.size bindings)
      (same : r + c * m.internalRows.size bindings = r' + c' * m.internalRows.size bindings) :
      r = r' ∧ c = c' := by
    rw [Nat.add_comm, Nat.add_comm r'] at same
    exact (digits_unique (r₁.trans_le rows) (r₂.trans_le rows) same).symm
  unfold logicalRows logicalCols at below below'
  unfold position at same
  cases turned : m.transposed with
  | false =>
    rw [turned] at below below' same
    cases order : m.layout with
    | rowMajor =>
      rw [order] at same
      exact byRows below.2 below'.2 same
    | columnMajor =>
      rw [order] at same
      exact byCols below.1 below'.1 same
  | true =>
    rw [turned] at below below' same
    cases order : m.layout with
    | rowMajor =>
      rw [order] at same
      exact (byRows below.1 below'.1 same).symm
    | columnMajor =>
      rw [order] at same
      exact (byCols below.2 below'.2 same).symm

/-- The value of an expression at a point, given the value of the product there. -/
def Expr.value (r : Reading α) (product : α) (point : Point) : Expr → α
  | scalar (.host name) => r.host name
  | scalar (.device name) => r.element name 0
  | scalar (.literal text) => r.elements.literal text
  | vector v => r.element v.name point.index
  | matrix m => r.element m.name (m.position r.bindings point.row point.col)
  | binary op lhs rhs =>
    r.elements.binary op (lhs.value r product point) (rhs.value r product point)
  | unary func operand => r.elements.unary func (operand.value r product point)
  | fold _ _ _ | .product _ _ _ _ => product

/-- The value of one term of a product, its left and right operands each read at a point. No operand
holds a further product. -/
def Product.value (r : Reading α) (p : Product) (left right : Point) : α :=
  let absent := r.elements.number 0
  match p.rhs with
  | some rhs => r.elements.binary p.combine (p.lhs.value r absent left) (rhs.value r absent right)
  | none => p.lhs.value r absent left

namespace Expr

/-- The leaves that stand in no product. -/
def leaves : Expr → List Expr
  | e@(scalar _) | e@(vector _) | e@(matrix _) => [e]
  | binary _ lhs rhs => lhs.leaves ++ rhs.leaves
  | unary _ operand => operand.leaves
  | fold _ _ _ | product _ _ _ _ => []

/-- The place of a leaf that is kept in memory. -/
def place? (bindings : Bindings) (point : Point) : Expr → Option Place
  | scalar (.device name) => some (.global name 0)
  | vector v => some (.global v.name point.index)
  | matrix m => some (.global m.name (m.position bindings point.row point.col))
  | _ => none

theorem leaves_sub_nodes {x leaf : Expr} (member : leaf ∈ x.leaves) : leaf ∈ x.nodes := by
  induction x with
  | scalar s => exact member
  | vector v => exact member
  | matrix m => exact member
  | binary op lhs rhs left right =>
    refine List.mem_cons_of_mem _ (List.mem_append.mpr ?_)
    exact (List.mem_append.mp member).imp left right
  | unary func operand ih => exact List.mem_cons_of_mem _ (ih member)
  | fold combine reduce lhs => cases member
  | product combine reduce lhs rhs => cases member

theorem mem_nodes_self (x : Expr) : x ∈ x.nodes := by
  cases x <;> exact List.mem_cons_self

/-- The operands of a product stand among the nodes. -/
theorem product_sub_nodes {x operand node : Expr} {p : Product} (member : p ∈ x.products)
    (isOperand : p.lhs = operand ∨ p.rhs = some operand) (inside : node ∈ operand.nodes) :
    node ∈ x.nodes := by
  induction x with
  | scalar s => cases member
  | vector v => cases member
  | matrix m => cases member
  | binary op lhs rhs left right =>
    refine List.mem_cons_of_mem _ (List.mem_append.mpr ?_)
    exact (List.mem_append.mp member).imp left right
  | unary func operand ih => exact List.mem_cons_of_mem _ (ih member)
  | fold combine reduce lhs =>
    cases List.mem_singleton.mp member
    rcases isOperand with rfl | none
    · exact List.mem_cons_of_mem _ inside
    · cases none
  | product combine reduce lhs rhs =>
    cases List.mem_singleton.mp member
    refine List.mem_cons_of_mem _ (List.mem_append.mpr ?_)
    rcases isOperand with rfl | same
    · exact Or.inl inside
    · cases same
      exact Or.inr inside

/-- Leaves are kept in buffers. -/
theorem exists_global_of_place {x : Expr} {bindings : Bindings} {point : Point} {p : Place}
    (stored : x.place? bindings point = some p) : ∃ buffer n, p = .global buffer n := by
  cases x with
  | scalar s =>
    cases s with
    | device name => exact ⟨_, _, (Option.some.inj stored).symm⟩
    | host name => cases stored
    | literal text => cases stored
  | vector v => exact ⟨_, _, (Option.some.inj stored).symm⟩
  | matrix m => exact ⟨_, _, (Option.some.inj stored).symm⟩
  | binary op lhs rhs => cases stored
  | unary func operand => cases stored
  | fold combine reduce lhs => cases stored
  | product combine reduce lhs rhs => cases stored

/-- The value of an expression depends on the places of its leaves. -/
theorem value_congr {r r' : Reading α} {product : α} {point : Point} (x : Expr)
    (elements : r'.elements = r.elements) (host : r'.host = r.host)
    (bindings : r'.bindings = r.bindings)
    (same : ∀ leaf ∈ x.leaves, ∀ p, leaf.place? r.bindings point = some p →
      r'.memory p = r.memory p) : x.value r' product point = x.value r product point := by
  induction x with
  | scalar s =>
    cases s with
    | host name => rw [value, value, host]
    | device name =>
      rw [value, value, Reading.element, same _ List.mem_cons_self _ rfl]
      rfl
    | literal text => rw [value, value, elements]
  | vector v =>
    rw [value, value, Reading.element, same _ List.mem_cons_self _ rfl]
    rfl
  | matrix m =>
    rw [value, value, Reading.element, bindings, same _ List.mem_cons_self _ rfl]
    rfl
  | binary op lhs rhs left right =>
    rw [value, value, elements, left fun leaf member => same leaf (List.mem_append_left _ member),
      right fun leaf member => same leaf (List.mem_append_right _ member)]
  | unary func operand ih => rw [value, value, elements, ih same]
  | fold combine reduce lhs => rfl
  | product combine reduce lhs rhs => rfl

end Expr

/-- The leaves of the operands of a product. -/
def Product.leaves (p : Product) : List Expr := p.lhs.leaves ++ p.rhs.elim [] Expr.leaves

/-! ### Names that give leaves their meaning -/

/-- The names of a kernel give an extent its size. -/
def Extent.Known (bindings : Bindings) (names : Names α) : Extent → Prop
  | fixed _ => True
  | symbol name => names name = some (.index ((symbol name).size bindings))

theorem Extent.number?_term {x : Extent} {bindings : Bindings} {names : Names α} {w : Worker}
    (known : x.Known bindings names) : x.term.number? w names = some (x.size bindings) := by
  cases x with
  | fixed n => rfl
  | symbol name =>
    rw [term, Term.number?, show names name = _ from known]

/-- The bound of a loop over packed elements is the number of them. -/
theorem packedBound_number? {kind : Operation.Kind} {x : Extent} {width : Nat} {bound : Term}
    {bindings : Bindings} {names : Names α} {w : Worker} (ok : packedBound kind x width = .ok bound)
    (positive : 0 < width) (known : x.Known bindings names) :
    bound.number? w names = some (x.size bindings / width) := by
  have size := Extent.number?_term (w := w) known
  unfold packedBound at ok
  split at ok
  · next one => rw [← Except.ok.inj ok, size, one, Nat.div_one]
  · split at ok
    · next n =>
      split at ok
      · rw [← Except.ok.inj ok]
        rfl
      · cases ok
    · next name =>
      rw [← Except.ok.inj ok]
      exact Term.number?_div size rfl positive

/-- The names of a kernel give a leaf its meaning. Vectors are passed in elements of a width. -/
def Expr.Known (width : Nat) (host : String → α) (bindings : Bindings) (names : Names α) :
    Expr → Prop
  | scalar (.host name) => names name = some (.value fun _ => host name)
  | scalar (.device name) => names name = some (.buffer 1)
  | scalar (.literal text) => Term.isNumeral text
  | vector v => names v.name = some (.buffer width)
  | matrix m => names m.name = some (.buffer 1) ∧ m.internalRows.Known bindings names ∧
      m.internalCols.Known bindings names
  | _ => True

/-! ### Terms of operators -/

namespace Station.Gives

variable {q : Station α} {names : Names α} {m : Memory α}

theorem name {identifier : String} {x : Nat → α} (bound : names identifier = some (.value x)) :
    q.Gives names m (.name identifier) x := by
  refine ⟨?_, trivial⟩
  rw [Term.value?, bound]

theorem number (n : Nat) : q.Gives names m (.number n) fun _ => q.elements.number n :=
  ⟨rfl, trivial⟩

theorem constant {identifier : String} (known : identifier ∈ Term.constants)
    (free : names identifier = none) :
    q.Gives names m (.name identifier) fun _ => q.elements.constant identifier := by
  refine ⟨?_, trivial⟩
  rw [Term.value?, free]
  exact if_pos known

theorem paren {t : Term} {x : Nat → α} (inner : q.Gives names m t x) :
    q.Gives names m (.paren t) x := inner

theorem cast {type : String} {t : Term} {x : Nat → α} (inner : q.Gives names m t x) :
    q.Gives names m (.cast type t) x := inner

theorem lane {t : Term} {x : Nat → α} (inner : q.Gives names m t x) (n : Nat) :
    q.Gives names m (.lane t n) fun _ => x n := by
  refine ⟨?_, inner.2⟩
  rw [Term.value?, inner.1]
  rfl

theorem negate {t : Term} {x : Nat → α} (inner : q.Gives names m t x) :
    q.Gives names m (.negate t) fun l => q.elements.unary .neg (x l) := by
  refine ⟨?_, inner.2⟩
  rw [Term.value?, inner.1]
  rfl

theorem call {function : String} {func : UnaryFn} {t : Term} {x : Nat → α}
    (known : Term.elementFn? function = some func) (inner : q.Gives names m t x) :
    q.Gives names m (.call function t) fun l => q.elements.unary func (x l) := by
  refine ⟨?_, inner.2⟩
  rw [Term.value?, known, inner.1]
  rfl

theorem call₂ {function : String} {op : BinaryOp} {s t : Term} {x y : Nat → α}
    (known : Term.elementFn₂? function = some op) (left : q.Gives names m s x)
    (right : q.Gives names m t y) :
    q.Gives names m (.call₂ function s t) fun l => q.elements.binary op (x l) (y l) := by
  refine ⟨?_, left.2, right.2⟩
  rw [Term.value?, known, left.1, right.1]
  rfl

theorem binary {sign : TermOp} {op : BinaryOp} {s t : Term} {x y : Nat → α}
    (known : Term.elementOp? sign = some op) (left : q.Gives names m s x)
    (right : q.Gives names m t y) :
    q.Gives names m (.binary sign s t) fun l => q.elements.binary op (x l) (y l) := by
  refine ⟨?_, left.2, right.2⟩
  rw [Term.value?, known, left.1, right.1]
  rfl

/-- The element that an access names. -/
theorem element {base subscript : Term} {spot : Spot}
    (found : (Term.index base subscript).spot? q.worker names = some spot)
    (inside : ∀ l, spot.place l ∈ q.reads) :
    q.Gives names m (.index base subscript) fun l => (m (spot.place l)).value := by
  refine ⟨?_, fun spot' found' l => ?_⟩
  · rw [Term.value?, found]
    rfl
  · cases found.symm.trans found'
    exact inside l

/-- The element at a single place. -/
theorem «at» {base subscript : Term} {p : Place} (here : q.At names (.index base subscript) p)
    (inside : p ∈ q.reads) :
    q.Gives names m (.index base subscript) fun _ => (m p).value :=
  element here fun _ => inside

theorem apply {op : BinaryOp} {s t : Term} {x y : Nat → α} (left : q.Gives names m s x)
    (right : q.Gives names m t y) :
    q.Gives names m (op.apply s t) fun l => q.elements.binary op (x l) (y l) := by
  cases op with
  | add => exact paren (binary rfl left right)
  | sub => exact paren (binary rfl left right)
  | mul => exact paren (binary rfl left right)
  | div => exact paren (binary rfl left right)
  | max => exact call₂ rfl left right
  | min => exact call₂ rfl left right

theorem applyFn {func : UnaryFn} {t : Term} {x : Nat → α} {type : NumericType}
    (inner : q.Gives names m t x) :
    q.Gives names m (func.apply t type) fun l => q.elements.unary func (x l) := by
  cases func with
  | neg => exact paren (negate inner)
  | abs =>
    refine call ?_ inner
    cases type.isFloat <;> rfl
  | sqrt => exact call rfl inner
  | exp => exact call rfl inner
  | log => exact call rfl inner

/-- An accumulated value with a further one. -/
theorem combine {op : ReduceOp} {s t : Term} {x y : Nat → α} (left : q.Gives names m s x)
    (right : q.Gives names m t y) :
    q.Gives names m (op.combine s t) fun l => q.elements.reduce op (x l) (y l) := by
  cases op with
  | add => exact binary rfl left right
  | mul => exact binary rfl left right
  | max => exact call₂ rfl left right
  | min => exact call₂ rfl left right

/-- The value that a folding operator starts from, where no name hides a constant. -/
theorem neutral {op : ReduceOp} {type : NumericType}
    (free : ∀ x ∈ Term.constants, names x = none) :
    q.Gives names m (op.neutral type) fun _ => q.elements.neutral type op := by
  have constant' {x : String} (known : x ∈ Term.constants) :
      q.Gives names m (.name x) fun _ => q.elements.constant x := constant known (free x known)
  cases op with
  | add => exact number 0
  | mul => exact number 1
  | max =>
    cases type with
    | int => exact constant' (by decide)
    | uint => exact number 0
    | long => exact constant' (by decide)
    | ulong => exact number 0
    | float => exact negate (constant' (by decide))
    | double => exact negate (constant' (by decide))
  | min =>
    cases type with
    | int => exact constant' (by decide)
    | uint => exact constant' (by decide)
    | long => exact constant' (by decide)
    | ulong => exact constant' (by decide)
    | float => exact constant' (by decide)
    | double => exact constant' (by decide)

end Station.Gives

/-! ### Terms of expressions -/

/-- The element of a buffer that an index selects. -/
theorem Term.spot?_buffer {w : Worker} {names : Names α} {buffer : String} {width n : Nat}
    {subscript : Term} (bound : names buffer = some (.buffer width))
    (number : subscript.number? w names = some n) :
    (Term.index (.name buffer) subscript).spot? w names = some (Spot.packed buffer width n) := by
  simp [spot?, access?, resolve, bound, number]

/-- The offset of an element is its position. -/
theorem MatrixOperand.number?_offset {m : MatrixOperand} {w : Worker} {names : Names α}
    {bindings : Bindings} {row col : Term} {i j : Nat} (rows : m.internalRows.Known bindings names)
    (cols : m.internalCols.Known bindings names) (atRow : row.number? w names = some i)
    (atCol : col.number? w names = some j) :
    (m.offset row col).number? w names = some (m.position bindings i j) := by
  have rowCount := Extent.number?_term (w := w) rows
  have colCount := Extent.number?_term (w := w) cols
  have byRows {r c : Term} {i j : Nat} (atR : r.number? w names = some i)
      (atC : c.number? w names = some j) :
      (Term.paren r * m.internalCols.term + Term.paren c).number? w names =
        some (i * m.internalCols.size bindings + j) :=
    Term.number?_add (Term.number?_mul atR colCount) atC
  have byCols {r c : Term} {i j : Nat} (atR : r.number? w names = some i)
      (atC : c.number? w names = some j) :
      (Term.paren r + Term.paren c * m.internalRows.term).number? w names =
        some (i + j * m.internalRows.size bindings) :=
    Term.number?_add atR (Term.number?_mul atC rowCount)
  unfold offset position
  cases m.transposed <;> cases m.layout
  · exact byRows atRow atCol
  · exact byCols atRow atCol
  · exact byRows atCol atRow
  · exact byCols atCol atRow

/-- What a scope makes addressable lies, for every lane, at a point, and its product has a value. -/
structure Scope.Means (scope : Scope) (q : Station α) (names : Names α) (m : Memory α) (width : Nat)
    (points : Nat → Point) (products : Nat → α) : Prop where
  index : ∀ t, scope.index = some t → ∃ n, t.number? q.worker names = some n ∧
    ∀ l, (points l).index = n * width + l % width
  row : ∀ t, scope.row = some t → ∃ n, t.number? q.worker names = some n ∧ ∀ l, (points l).row = n
  col : ∀ t, scope.col = some t → ∃ n, t.number? q.worker names = some n ∧ ∀ l, (points l).col = n
  product : ∀ t, scope.product = some t → q.Gives names m t products

namespace Expr

variable {q : Station α} {names : Names α} {m : Memory α} {scope : Scope} {width : Nat}
  {points : Nat → Point} {products : Nat → α} {host : String → α} {bindings : Bindings}

/-- A leaf that is kept in memory has the value of its place. -/
theorem value_of_place {r : Reading α} {product : α} {point : Point} {x : Expr} {p : Place}
    (stored : x.place? r.bindings point = some p) :
    x.value r product point = (r.memory p).value := by
  cases x with
  | scalar s =>
    cases s with
    | device name =>
      cases stored
      rfl
    | host name => cases stored
    | literal text => cases stored
  | vector v =>
    cases stored
    rfl
  | matrix a =>
    cases stored
    rfl
  | binary op lhs rhs => cases stored
  | unary func operand => cases stored
  | fold combine reduce lhs => cases stored
  | product combine reduce lhs rhs => cases stored

/-- The term of a leaf that is kept in memory names, for every lane, the leaf's place. -/
theorem exists_spot (means : scope.Means q names m width points products) {x : Expr} {t : Term} {p : Place}
    (ok : x.term scope = .ok t) (known : x.Known width host bindings names)
    (stored : x.place? bindings (points 0) = some p) :
    ∃ base subscript spot, t = .index base subscript ∧ t.spot? q.worker names = some spot ∧
      (∀ l, x.place? bindings (points l) = some (spot.place l)) ∧
      (width = 1 → spot = Spot.single p) := by
  cases x with
  | scalar s =>
    cases s with
    | host name => cases stored
    | literal text => cases stored
    | device name =>
      cases ok
      cases stored
      have found : (Term.index (.name name) (.number 0)).spot? q.worker names = _ :=
        Term.spot?_buffer known rfl
      rw [Spot.packed_one] at found
      exact ⟨_, _, _, rfl, found, fun l => rfl, fun _ => rfl⟩
  | vector v =>
    cases addressed : scope.index with
    | none => simp [term, VectorOperand.term, addressed] at ok
    | some index =>
      simp only [term, VectorOperand.term, addressed] at ok
      cases ok
      obtain ⟨n, number, lanes⟩ := means.index index addressed
      refine ⟨_, _, _, rfl, Term.spot?_buffer known number, fun l => ?_, fun one => ?_⟩
      · rw [place?, lanes l]
        rfl
      · subst one
        rw [Spot.packed_one]
        rw [place?, lanes 0, Nat.mul_one, Nat.zero_mod, Nat.add_zero] at stored
        cases stored
        rfl
  | matrix a =>
    obtain ⟨here, rows, cols⟩ := known
    cases atRow : scope.row with
    | none => simp [term, MatrixOperand.term, atRow] at ok
    | some row =>
      cases atCol : scope.col with
      | none => simp [term, MatrixOperand.term, atRow, atCol] at ok
      | some col =>
        simp only [term, MatrixOperand.term, atRow, atCol] at ok
        cases ok
        obtain ⟨i, rowNumber, rowLanes⟩ := means.row row atRow
        obtain ⟨j, colNumber, colLanes⟩ := means.col col atCol
        have found := Term.spot?_buffer here
          (MatrixOperand.number?_offset rows cols rowNumber colNumber)
        rw [Spot.packed_one] at found
        rw [place?, rowLanes, colLanes] at stored
        cases stored
        refine ⟨_, _, _, rfl, found, fun l => ?_, fun _ => rfl⟩
        rw [place?, rowLanes, colLanes]
        rfl
  | binary op lhs rhs => cases stored
  | unary func operand => cases stored
  | fold combine reduce lhs => cases stored
  | product combine reduce lhs rhs => cases stored

/-- The term of a leaf that is kept in memory has the leaf's value. -/
theorem gives_of_place (means : scope.Means q names m width points products) {x : Expr} {t : Term}
    {p : Place} (ok : x.term scope = .ok t) (known : x.Known width host bindings names)
    (stored : x.place? bindings (points 0) = some p)
    (inside : ∀ l p, x.place? bindings (points l) = some p → p ∈ q.reads) :
    q.Gives names m t fun l => x.value ⟨q.elements, host, bindings, m⟩ (products l) (points l) := by
  obtain ⟨base, subscript, spot, rfl, found, places, -⟩ := exists_spot means ok known stored
  have gives := Station.Gives.element (m := m) found fun l => inside l _ (places l)
  have same : (fun l => x.value ⟨q.elements, host, bindings, m⟩ (products l) (points l)) =
      fun l => (m (spot.place l)).value := funext fun l => value_of_place (places l)
  rw [same]
  exact gives

/-- **The term of an expression has the expression's value**, for every lane at the point of the
scope. -/
theorem gives (means : scope.Means q names m width points products) (x : Expr) {t : Term}
    (ok : x.term scope = .ok t)
    (known : ∀ leaf ∈ x.leaves, leaf.Known width host bindings names)
    (inside : ∀ leaf ∈ x.leaves, ∀ l p, leaf.place? bindings (points l) = some p → p ∈ q.reads) :
    q.Gives names m t fun l => x.value ⟨q.elements, host, bindings, m⟩ (products l) (points l) := by
  induction x generalizing t with
  | scalar s =>
    cases s with
    | host name =>
      cases ok
      exact .name (known _ List.mem_cons_self)
    | device name =>
      exact gives_of_place means ok (known _ List.mem_cons_self) rfl (inside _ List.mem_cons_self)
    | literal text =>
      cases ok
      refine ⟨if_pos (known _ List.mem_cons_self), trivial⟩
  | vector v =>
    exact gives_of_place means ok (known _ List.mem_cons_self) rfl (inside _ List.mem_cons_self)
  | matrix a =>
    exact gives_of_place means ok (known _ List.mem_cons_self) rfl (inside _ List.mem_cons_self)
  | binary op lhs rhs left right =>
    cases first : lhs.term scope with
    | error refusal => simp [term, first, bind, Except.bind] at ok
    | ok s =>
      cases second : rhs.term scope with
      | error refusal => simp [term, first, second, bind, Except.bind] at ok
      | ok t =>
        simp only [term, first, second, bind, Except.bind, pure, Except.pure] at ok
        cases ok
        exact .apply
          (left first (fun leaf member => known leaf (List.mem_append_left _ member))
            fun leaf member => inside leaf (List.mem_append_left _ member))
          (right second (fun leaf member => known leaf (List.mem_append_right _ member))
            fun leaf member => inside leaf (List.mem_append_right _ member))
  | unary func operand ih =>
    cases inner : operand.term scope with
    | error refusal => simp [term, inner, bind, Except.bind] at ok
    | ok s =>
      simp only [term, inner, bind, Except.bind, pure, Except.pure] at ok
      cases ok
      exact .applyFn (ih inner known inside)
  | fold combine reduce lhs =>
    cases addressed : scope.product with
    | none => simp [term, Scope.productTerm, addressed] at ok
    | some folded =>
      simp only [term, Scope.productTerm, addressed] at ok
      cases ok
      exact means.product t addressed
  | product combine reduce lhs rhs =>
    cases addressed : scope.product with
    | none => simp [term, Scope.productTerm, addressed] at ok
    | some folded =>
      simp only [term, Scope.productTerm, addressed] at ok
      cases ok
      exact means.product t addressed

/-- **The term of a leaf names the leaf's place**, where elements are passed one by one. -/
theorem at_place (means : scope.Means q names m 1 points products) {x : Expr} {t : Term} {p : Place}
    (ok : x.term scope = .ok t) (known : x.Known 1 host bindings names)
    (stored : x.place? bindings (points 0) = some p) :
    q.At names t p ∧ ∀ name, t ≠ .name name := by
  obtain ⟨base, subscript, spot, rfl, found, -, single⟩ := exists_spot means ok known stored
  refine ⟨?_, fun name => Term.noConfusion⟩
  rw [Station.At, found, single rfl]

end Expr

/-! ### Statements -/

/-- The content of the target's element after a step that carries out the statement at a point, given
the value of the product there. -/
def Statement.outcome (s : Statement) (r : Reading α) (product : α) (point : Point) (store : Step)
    (before : Cell α) : Cell α :=
  ⟨r.elements.store s.assign before.value (s.value.value r product point),
    before.history ++ [store]⟩

/-- The outcome depends on the places of the value's leaves. -/
theorem Statement.outcome_congr (s : Statement) {r r' : Reading α} {product : α} {point : Point}
    {store : Step} {before : Cell α} (elements : r'.elements = r.elements)
    (host : r'.host = r.host) (bindings : r'.bindings = r.bindings)
    (same : ∀ leaf ∈ s.value.leaves, ∀ p, leaf.place? r.bindings point = some p →
      r'.memory p = r.memory p) :
    s.outcome r' product point store before = s.outcome r product point store before := by
  unfold outcome
  rw [s.value.value_congr elements host bindings same, elements]

theorem Statement.storeStep_eq_ok {s : Statement} {scope : Scope} {store : Step}
    (ok : s.storeStep scope = .ok store) : ∃ target value, s.target.term scope = .ok target ∧
      s.value.term scope = .ok value ∧ store = .store target s.assign value := by
  obtain ⟨target, first, ok⟩ := bind_eq_ok_iff.mp ok
  obtain ⟨value, second, ok⟩ := bind_eq_ok_iff.mp ok
  cases ok
  exact ⟨target, value, accepted_eq_ok_iff.mp first, accepted_eq_ok_iff.mp second, rfl⟩

/-- **The step of a statement carries it out** at the point of the scope. -/
theorem Statement.leads {q : Station α} {names : Names α} {m : Memory α} {scope : Scope}
    {points : Nat → Point} {products : Nat → α} {host : String → α} {bindings : Bindings}
    {s : Statement} {store : Step} {p : Place} (ok : s.storeStep scope = .ok store)
    (means : scope.Means q names m 1 points products)
    (target : s.target.Known 1 host bindings names)
    (stored : s.target.place? bindings (points 0) = some p) (inside : p ∈ q.reads ∩ q.writes)
    (known : ∀ leaf ∈ s.value.leaves, leaf.Known 1 host bindings names)
    (reads : ∀ leaf ∈ s.value.leaves, ∀ l p, leaf.place? bindings (points l) = some p →
      p ∈ q.reads) :
    q.Leads (Code.ofSteps [store]) names m fun names' m' => names' = names ∧
      m' = Function.update m p (s.outcome ⟨q.elements, host, bindings, m⟩ (products 0) (points 0)
        store (m p)) := by
  obtain ⟨targetTerm, valueTerm, first, second, rfl⟩ := storeStep_eq_ok ok
  obtain ⟨here, access⟩ := Expr.at_place means first target stored
  exact .put access here inside (Expr.gives means s.value second known reads) (.done ⟨rfl, rfl⟩)

end TunedKernel
