/-
**What the names of a kernel stand for.**

* `collectArguments_find` — the arguments of an operation hold every node in the way of its role,
  and the symbols of its extents as sizes; `collectArguments_role` — a name has one role only.
* `Kernel.Proper` — the names of the arguments are identifiers, and the code of the kernel binds none
  of them.
* `Kernel.known` — the names of a kernel give every node of its operation its meaning.
-/

import TunedKernel.Proofs.Batch.Collecting
import TunedKernel.Proofs.Execution.Operands

namespace TunedKernel

variable {α : Type}

/-! ### The arguments of an operation -/

theorem MatrixOperand.logicalRows_mem_extents (m : MatrixOperand) :
    m.logicalRows ∈ (Expr.matrix m).extents := by
  unfold logicalRows
  split <;> simp [Expr.extents]

theorem MatrixOperand.logicalCols_mem_extents (m : MatrixOperand) :
    m.logicalCols ∈ (Expr.matrix m).extents := by
  unfold logicalCols
  split <;> simp [Expr.extents]

/-- The argument of a name. -/
def findArgument (arguments : List Argument) (name : String) : Option Argument :=
  arguments.find? fun a => a.name == name

/-- Further arguments behind the others leave them as they are. -/
theorem findArgument_append {arguments : List Argument} {name : String} {a : Argument}
    (found : findArgument arguments name = some a) (further : List Argument) :
    findArgument (arguments ++ further) name = some a := by
  rw [findArgument] at found ⊢
  rw [List.find?_append, found]
  rfl

/-- Arguments of different names are found by these. -/
theorem findArgument_of_mem {arguments : List Argument} (nodup : (arguments.map Argument.name).Nodup)
    {a : Argument} (member : a ∈ arguments) : findArgument arguments a.name = some a := by
  cases found : findArgument arguments a.name with
  | none => exact absurd (beq_self_eq_true a.name) (List.find?_eq_none.mp found a member)
  | some b =>
    have holds := List.find?_some found
    have named : b.name = a.name := beq_iff_eq.mp holds
    rw [List.inj_on_of_nodup_map nodup (List.mem_of_find?_eq_some found) member named]

/-- **The arguments of an operation hold every node in the way of its role**, and the symbols of its
extents as sizes. -/
theorem collectArguments_find {op : Operation} {width : Nat} {arguments : List Argument}
    (ok : collectArguments op width = .ok arguments) {node : Expr} (member : node ∈ op.nodes) :
    (∀ role name, node.role? = some (role, name) →
      findArgument arguments name = some ⟨name, role.kind op.numericType.text
        ((op.numericType.vectorName? width).getD op.numericType.text)⟩) ∧
    ∀ name, .symbol name ∈ node.extents → findArgument arguments name = some ⟨name, .size⟩ := by
  have passed {role : Role} {name : String} (uses : op.Uses role name) :
      findArgument arguments name = some ⟨name, role.kind op.numericType.text
        ((op.numericType.vectorName? width).getD op.numericType.text)⟩ := by
    have argument : (⟨name, _⟩ : Argument) ∈ arguments := (mem_collectArguments ok).mpr ⟨role, uses, rfl⟩
    exact findArgument_of_mem (collectArguments_nodup ok) argument
  exact ⟨fun role name some => passed ⟨node, member, Or.inl some⟩,
    fun name symbol => passed ⟨node, member, Or.inr ⟨rfl, symbol⟩⟩⟩

/-- **A name has one role only.** -/
theorem collectArguments_role {op : Operation} {width : Nat} {arguments : List Argument}
    (ok : collectArguments op width = .ok arguments) {node node' : Expr} (member : node ∈ op.nodes)
    (member' : node' ∈ op.nodes) {role role' : Role} {name : String}
    (first : node.role? = some (role, name)) (second : node'.role? = some (role', name)) :
    role = role' :=
  (collectArguments_eq_ok_iff.mp ok).1 role role' name ⟨node, member, Or.inl first⟩
    ⟨node', member', Or.inl second⟩

/-! ### Names of a kernel -/

/-- The names that the code of kernels takes from the kernel language. -/
def languageNames : List String :=
  Term.constants ++
    ["get_global_id", "get_local_id", "get_group_id", "get_global_size", "get_local_size", "barrier",
      "CLK_LOCAL_MEM_FENCE", "max", "min", "fabs", "abs", "sqrt", "exp", "log", "if", "for", "void",
      "unsigned", "int", "uint", "long", "ulong", "float", "double"]

/-- Whether a text is a name that an operand or a size may have: letters, digits and underscores, no
digit in front, and none of the language's own names. -/
def isIdentifier (s : String) : Bool :=
  match s.toList with
  | [] => false
  | first :: rest => (first.isAlpha || first == '_') &&
      rest.all (fun c => c.isAlphanum || c == '_') && !languageNames.contains s

namespace Kernel

variable {kernel : Kernel} {host : String → α} {bindings : Bindings} {names : Names α}

/-- The names of the arguments are identifiers, and the code of the kernel binds none of them. -/
def Proper (kernel : Kernel) : Prop :=
  ∀ a ∈ kernel.arguments, isIdentifier a.name ∧ a.name ∉ kernel.body.binders

/-- Every size that is passed is bound. -/
def Sized (kernel : Kernel) (bindings : Bindings) : Prop :=
  ∀ a ∈ kernel.arguments, a.kind = .size → (bindings a.name).isSome

instance : Decidable kernel.Proper :=
  inferInstanceAs (Decidable (∀ a ∈ kernel.arguments, _ ∧ _))

instance : Decidable (kernel.Sized bindings) :=
  inferInstanceAs (Decidable (∀ a ∈ kernel.arguments, _ → _))

/-- What an argument stands for outlasts all code of the kernel. -/
theorem Proper.kept (proper : kernel.Proper)
    (same : (kernel.names host bindings).Same kernel.body.binders names) {x : String}
    {binding : Binding α} (bound : kernel.names host bindings x = some binding) :
    names x = some binding := by
  obtain ⟨a, found, -⟩ := Option.bind_eq_some_iff.mp bound
  have holds := List.find?_some found
  have named : a.name = x := beq_iff_eq.mp holds
  rw [same x, bound]
  rw [← named]
  exact (proper a (List.mem_of_find?_eq_some found)).2

/-- No argument hides a name of the language. -/
theorem Proper.free (proper : kernel.Proper)
    (same : (kernel.names host bindings).Same kernel.body.binders names) {x : String}
    (known : x ∈ Term.constants) (fresh : x ∉ kernel.body.binders) : names x = none := by
  rw [same x fresh, Kernel.names]
  have absent : kernel.arguments.find? (fun a => a.name == x) = none := by
    rw [List.find?_eq_none]
    intro a member equal
    have identifier := (proper a member).1
    rw [beq_iff_eq.mp equal] at identifier
    unfold isIdentifier at identifier
    cases chars : x.toList with
    | nil => simp [chars] at identifier
    | cons first rest =>
      rw [chars] at identifier
      simp only [Bool.and_eq_true, Bool.not_eq_true', List.contains_eq_mem, decide_eq_false_iff_not]
        at identifier
      exact identifier.2 (List.mem_append_left _ known)
  rw [absent]
  rfl

variable (host bindings) in
/-- A buffer that is passed stands for itself. -/
theorem names_buffer {x element : String}
    (found : findArgument kernel.arguments x = some ⟨x, .buffer element⟩) :
    kernel.names host bindings x = some (.buffer (NumericType.lanes element)) :=
  Option.bind_eq_some_iff.mpr ⟨_, found, rfl⟩

/-- A value that is passed stands for the host's. -/
theorem names_value {x type : String}
    (found : findArgument kernel.arguments x = some ⟨x, .value type⟩) :
    kernel.names host bindings x = some (.value fun _ => host x) :=
  Option.bind_eq_some_iff.mpr ⟨_, found, rfl⟩

/-- A size that is passed stands for what its symbol is bound to. -/
theorem Sized.names_size (sized : kernel.Sized bindings) {x : String}
    (found : findArgument kernel.arguments x = some ⟨x, .size⟩) :
    kernel.names host bindings x = some (.index ((Extent.symbol x).size bindings)) := by
  obtain ⟨n, bound⟩ := Option.isSome_iff_exists.mp (sized _ (List.mem_of_find?_eq_some found) rfl)
  refine Option.bind_eq_some_iff.mpr ⟨_, found, ?_⟩
  simp only [Argument.binding?, Extent.size, Extent.value?, bound, Option.map_some, Option.getD_some]

/-- An extent of a node has its size. -/
theorem Sized.known_extent (sized : kernel.Sized bindings) {x : Extent}
    (found : ∀ name, .symbol name = x → findArgument kernel.arguments name = some ⟨name, .size⟩) :
    x.Known bindings (kernel.names host bindings) := by
  cases x with
  | fixed n => trivial
  | symbol name => exact sized.names_size (found name rfl)

end Kernel

/-- The literals of an operation are unsigned numerals. -/
def Operation.Numerals (op : Operation) : Prop :=
  ∀ text, .scalar (.literal text) ∈ op.nodes → Term.isNumeral text

theorem Extent.Known.mono {bindings : Bindings} {names names' : Names α} {x : Extent}
    (known : x.Known bindings names)
    (kept : ∀ {y binding}, names y = some binding → names' y = some binding) :
    x.Known bindings names' := by
  cases x with
  | fixed n => trivial
  | symbol name => exact kept known

/-- What a node means outlasts names that are bound besides. -/
theorem Expr.Known.mono {width : Nat} {host : String → α} {bindings : Bindings}
    {names names' : Names α} {x : Expr} (known : x.Known width host bindings names)
    (kept : ∀ {y binding}, names y = some binding → names' y = some binding) :
    x.Known width host bindings names' := by
  cases x with
  | scalar s =>
    cases s with
    | host name => exact kept known
    | device name => exact kept known
    | literal text => exact known
  | vector v => exact kept known
  | matrix m => exact ⟨kept known.1, known.2.1.mono kept, known.2.2.mono kept⟩
  | binary op lhs rhs => trivial
  | unary func operand => trivial
  | fold combine reduce lhs => trivial
  | product combine reduce lhs rhs => trivial

/-- The names of a kernel give a matrix of its operation its meaning. -/
theorem Kernel.known_matrix {kernel : Kernel} {op : Operation} {width : Nat} {arguments : List Argument}
    {host : String → α} {bindings : Bindings} (collected : collectArguments op width = .ok arguments)
    (keeps : ∀ name a, findArgument arguments name = some a →
      findArgument kernel.arguments name = some a)
    (sized : kernel.Sized bindings) {m : MatrixOperand} (member : .matrix m ∈ op.nodes) :
    (Expr.matrix m).Known width host bindings (kernel.names host bindings) := by
  obtain ⟨has, symbols⟩ := collectArguments_find collected member
  have scalarName : op.numericType.vectorName? 1 = some op.numericType.text := rfl
  have found := names_buffer host bindings (keeps _ _ (has _ _ rfl))
  rw [NumericType.lanes_vectorName scalarName] at found
  refine ⟨found, sized.known_extent fun name same => ?_, sized.known_extent fun name same => ?_⟩
  · exact keeps _ _ (symbols name (by rw [same]; simp [Expr.extents]))
  · exact keeps _ _ (symbols name (by rw [same]; simp [Expr.extents]))

/-- **The names of a kernel give every node of its operation its meaning**, when its arguments hold
those of the operation. -/
theorem Kernel.known {kernel : Kernel} {op : Operation} {width : Nat} {arguments : List Argument}
    {host : String → α} {bindings : Bindings} (collected : collectArguments op width = .ok arguments)
    (keeps : ∀ name a, findArgument arguments name = some a →
      findArgument kernel.arguments name = some a)
    (vectors : NumericType.isVectorWidth width) (numerals : op.Numerals)
    (sized : kernel.Sized bindings) {node : Expr} (member : node ∈ op.nodes) :
    node.Known width host bindings (kernel.names host bindings) := by
  obtain ⟨has, -⟩ := collectArguments_find collected member
  have scalarName : op.numericType.vectorName? 1 = some op.numericType.text := rfl
  obtain ⟨packed, packedName⟩ : ∃ packed, op.numericType.vectorName? width = some packed := by
    unfold NumericType.vectorName?
    split_ifs
    · exact ⟨_, rfl⟩
    · exact ⟨_, rfl⟩
  cases node with
  | scalar s =>
    cases s with
    | host name => exact names_value (keeps _ _ (has _ _ rfl))
    | device name =>
      have found := names_buffer host bindings (keeps _ _ (has _ _ rfl))
      rw [NumericType.lanes_vectorName scalarName] at found
      exact found
    | literal text => exact numerals text member
  | vector v =>
    have found := names_buffer host bindings (keeps _ _ (has _ _ rfl))
    rw [packedName, Option.getD_some, NumericType.lanes_vectorName packedName] at found
    exact found
  | matrix m => exact Kernel.known_matrix collected keeps sized member
  | binary op lhs rhs => trivial
  | unary func operand => trivial
  | fold combine reduce lhs => trivial
  | product combine reduce lhs rhs => trivial

/-- **The names of a kernel give the extents of every node their sizes.** -/
theorem Kernel.known_extent {kernel : Kernel} {op : Operation} {width : Nat}
    {arguments : List Argument} {host : String → α} {bindings : Bindings}
    (collected : collectArguments op width = .ok arguments)
    (keeps : ∀ name a, findArgument arguments name = some a →
      findArgument kernel.arguments name = some a)
    (sized : kernel.Sized bindings) {node : Expr} (member : node ∈ op.nodes) {x : Extent}
    (extent : x ∈ node.extents) : x.Known bindings (kernel.names host bindings) := by
  refine sized.known_extent fun name same => keeps _ _ ?_
  exact (collectArguments_find collected member).2 name (same ▸ extent)

/-- A kernel with its sizes bound gives the extents of every node a value. -/
theorem Kernel.Sized.value? {kernel : Kernel} {op : Operation} {width : Nat}
    {arguments : List Argument} {bindings : Bindings}
    (collected : collectArguments op width = .ok arguments)
    (keeps : ∀ name a, findArgument arguments name = some a →
      findArgument kernel.arguments name = some a)
    (sized : kernel.Sized bindings) {node : Expr} (member : node ∈ op.nodes) {x : Extent}
    (extent : x ∈ node.extents) : x.value? bindings = some (x.size bindings) := by
  cases x with
  | fixed n => rfl
  | symbol name =>
    have found := keeps _ _ ((collectArguments_find collected member).2 name extent)
    obtain ⟨n, bound⟩ := Option.isSome_iff_exists.mp
      (sized _ (List.mem_of_find?_eq_some found) rfl)
    simp only [Extent.size, Extent.value?, bound, Option.map_some, Option.getD_some]

end TunedKernel
