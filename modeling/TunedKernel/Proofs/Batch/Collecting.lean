/-
**The arguments of an operation.**

* `Role.kind`, `Expr.role?`, `Expr.extents` — how a role is passed, the role and the name of a node, and the
  extents of a node.
* `Operation.Uses`, `Operation.OneRole` — the roles in which an operation uses a name; no name has two.
  `OneRole.of_sub` — the names of some of the statements have one role each if those of all of them do.
* `Operation.uses`, `Operation.arguments` — the names that are used, operands before sizes, each where it is
  used first; and the arguments that they are passed as.
* `Signature.Collects` — what is known once certain operands and symbols have been met. `Collects.leaf` says
  what a node adds to that, `Collects.leaves` what all nodes do, and `Collects.sizes` what the symbols do.
* `collectArguments_eq_ok_iff`, `collectArguments_eq_error` — when arguments can be collected, which these are,
  and which names are refused; `argumentCollection_exact` — all of that.
-/

import Mathlib.Data.List.Induction
import Mathlib.Data.List.Nodup
import TunedKernel.Generator.Arguments
import TunedKernel.Proofs.Batch.Acceptance

namespace TunedKernel

/-! ### Lists without repetitions -/

section Repetitions

variable {β : Type} [BEq β] [LawfulBEq β] {xs : List β} {x : β}

theorem nodup_eraseDups (xs : List β) : xs.eraseDups.Nodup := by
  induction n : xs.length using Nat.strongRecOn generalizing xs with
  | ind n ih =>
    cases xs with
    | nil => exact List.nodup_nil
    | cons x xs =>
      subst n
      rw [List.eraseDups_cons, List.nodup_cons]
      refine ⟨fun again => ?_, ih _ (Nat.lt_succ_of_le (List.length_filter_le _ xs)) _ rfl⟩
      have other := (List.mem_filter.mp (List.mem_eraseDups.mp again)).2
      simp at other

/-- A member of a list is a repetition behind it. -/
theorem eraseDups_concat_of_mem (member : x ∈ xs) : (xs ++ [x]).eraseDups = xs.eraseDups := by
  simp [List.eraseDups_append, List.removeAll, member]

theorem eraseDups_concat_of_notMem (fresh : x ∉ xs) : (xs ++ [x]).eraseDups = xs.eraseDups ++ [x] := by
  simp [List.eraseDups_append, List.removeAll, List.eraseDups_cons, fresh]

theorem eraseDups_of_nodup (nodup : xs.Nodup) : xs.eraseDups = xs := by
  induction xs using List.reverseRecOn with
  | nil => rfl
  | append_singleton xs x ih =>
    obtain ⟨before, -, other⟩ := List.nodup_append.mp nodup
    rw [eraseDups_concat_of_notMem fun again => other x again x List.mem_cons_self rfl, ih before]

end Repetitions

/-! ### What operations name -/

/-- How a role is passed. -/
def Role.kind (scalar packed : String) : Role → Argument.Kind
  | hostScalar => .value scalar
  | deviceScalar | matrix => .buffer scalar
  | vector => .buffer packed
  | size => .size

/-- The role of a node, and the name that has it. -/
def Expr.role? : Expr → Option (Role × String)
  | .scalar (.host name) => some (.hostScalar, name)
  | .scalar (.device name) => some (.deviceScalar, name)
  | vector v => some (.vector, v.name)
  | matrix m => some (.matrix, m.name)
  | _ => none

/-- The extents of a node. -/
def Expr.extents : Expr → List Extent
  | vector v => [v.size]
  | matrix m => [m.rows, m.cols, m.internalRows, m.internalCols]
  | _ => []

theorem Expr.role?_ne_size {node : Expr} {name : String} : node.role? ≠ some (.size, name) := by
  cases node with
  | scalar s => cases s <;> nofun
  | _ => nofun

theorem Extent.symbol?_eq_some_iff {x : Extent} {name : String} :
    x.symbol? = some name ↔ x = .symbol name := by
  cases x <;> simp [symbol?]

namespace Operation

variable (op : Operation)

/-- A node of an operation uses a name in a role: as that of an operand, or as the symbol of a size. -/
def Uses (role : Role) (name : String) : Prop :=
  ∃ node ∈ op.nodes, node.role? = some (role, name) ∨ role = .size ∧ .symbol name ∈ node.extents

/-- A name is used in two different roles. -/
def Conflicts (name : String) : Prop := ∃ role role', role ≠ role' ∧ op.Uses role name ∧ op.Uses role' name

/-- No name of an operation is used in two roles. -/
def OneRole : Prop := ∀ role role' name, op.Uses role name → op.Uses role' name → role = role'

/-- The operands of an operation, in the order of the nodes. -/
def operands : List (Role × String) := op.nodes.filterMap Expr.role?

/-- The symbols of the extents of an operation, in the order of the nodes. -/
def symbols : List String := op.nodes.flatMap fun node => node.extents.filterMap Extent.symbol?

/-- The names that an operation uses in their roles: the operands, and the symbols as sizes, each where it is
used first. -/
def uses : List (Role × String) := op.operands.eraseDups ++ op.symbols.eraseDups.map (Role.size, ·)

/-- The names that an operation uses, passed in the way of their roles. Vectors are passed in elements of the
width given, as long as there is such a type. -/
def arguments (width : Nat) : List Argument :=
  let scalar := op.numericType.text
  let packed := (op.numericType.vectorName? width).getD scalar
  op.uses.map fun (role, name) => ⟨name, role.kind scalar packed⟩

variable {op op' : Operation} {role : Role} {name : String}

theorem mem_operands : (role, name) ∈ op.operands ↔ ∃ node ∈ op.nodes, node.role? = some (role, name) :=
  List.mem_filterMap

theorem mem_symbols : name ∈ op.symbols ↔ ∃ node ∈ op.nodes, .symbol name ∈ node.extents := by
  simp [symbols, List.mem_flatMap, Extent.symbol?_eq_some_iff]

theorem mem_uses : (role, name) ∈ op.uses ↔ op.Uses role name := by
  simp only [uses, List.mem_append, List.mem_map, List.mem_eraseDups, mem_operands, mem_symbols, Uses,
    Prod.mk.injEq, exists_eq_right_right, and_or_left, exists_or]
  refine or_congr_right ⟨?_, ?_⟩
  · rintro ⟨⟨node, member, size⟩, rfl⟩
    exact ⟨node, member, rfl, size⟩
  · rintro ⟨node, member, rfl, size⟩
    exact ⟨⟨node, member, size⟩, rfl⟩

end Operation

/-! ### Signatures -/

namespace Signature

variable {scalar packed : String} {operands : List (Role × String)} {symbols : List String}

/-- The signature of operands and symbols, each of which stands where it was met first. -/
def of (scalar packed : String) (operands : List (Role × String)) (symbols : List String) : Signature where
  bound := operands.eraseDups.map fun (role, name) => (role, ⟨name, role.kind scalar packed⟩)
  symbols := symbols.eraseDups

/-- Binds an operand in the way of its role. -/
def claim (scalar packed : String) (signature : Signature) (operand : Role × String) :
    Except Refusal Signature :=
  signature.bind operand.1 operand.2 (operand.1.kind scalar packed)

/-- A node adds its symbols, and then its name. -/
theorem leaf_eq (signature : Signature) (node : Expr) : signature.leaf scalar packed node =
    node.role?.toList.foldlM (claim scalar packed) (node.extents.foldl meet signature) := by
  cases node with
  | scalar s =>
    cases s with
    | literal text => rfl
    | _ => simp [leaf, Expr.role?, Expr.extents, claim, Role.kind]
  | vector _ | matrix _ => simp [leaf, Expr.role?, Expr.extents, claim, Role.kind]
  | _ => rfl

theorem of_meet (x : Extent) : (of scalar packed operands symbols).meet x =
    of scalar packed operands (symbols ++ x.symbol?.toList) := by
  unfold meet
  cases x.symbol? with
  | none => simp
  | some name =>
    by_cases known : name ∈ symbols
    · simp [of, eraseDups_concat_of_mem, known]
    · simp [of, eraseDups_concat_of_notMem, known]

theorem of_foldl_meet (extents : List Extent) :
    extents.foldl meet (of scalar packed operands symbols) =
      of scalar packed operands (symbols ++ extents.filterMap Extent.symbol?) := by
  induction extents generalizing symbols with
  | nil => rw [List.foldl_nil, List.filterMap_nil, List.append_nil]
  | cons x extents ih =>
    rw [List.foldl_cons, of_meet, ih, List.append_assoc]
    cases found : x.symbol? <;> simp [found]

/-- No name of a list has two roles. -/
def Single (operands : List (Role × String)) : Prop :=
  ∀ role role' name, (role, name) ∈ operands → (role', name) ∈ operands → role = role'

variable {role taken : Role} {name : String}

/-- A name that is bound has the role already, or is refused. -/
theorem of_claim_taken (single : Single operands) (member : (taken, name) ∈ operands) :
    (of scalar packed operands symbols).claim scalar packed (role, name) =
      if taken = role then .ok (of scalar packed operands symbols)
      else .error (.conflictingOperand name) := by
  unfold claim bind
  simp only [of, List.find?_map]
  cases found : operands.eraseDups.find? ((fun entry : Role × Argument => entry.2.name == name) ∘ _) with
  | none =>
    have differs := List.find?_eq_none.mp found _ (List.mem_eraseDups.mpr member)
    exact absurd (beq_self_eq_true name) differs
  | some operand =>
    obtain ⟨other, same⟩ := operand
    have holds := List.find?_some found
    obtain rfl : same = name := beq_iff_eq.mp holds
    obtain rfl := single _ _ _ (List.mem_eraseDups.mp (List.mem_of_find?_eq_some found)) member
    rfl

/-- A name that is not bound is bound behind the others. -/
theorem of_claim_fresh (fresh : ∀ taken, (taken, name) ∉ operands) :
    (of scalar packed operands symbols).claim scalar packed (role, name) =
      .ok (of scalar packed (operands ++ [(role, name)]) symbols) := by
  unfold claim bind
  simp only [of, List.find?_map, eraseDups_concat_of_notMem (fresh role), List.map_append]
  cases found : operands.eraseDups.find? ((fun entry : Role × Argument => entry.2.name == name) ∘ _) with
  | none => rfl
  | some operand =>
    obtain ⟨other, same⟩ := operand
    have holds := List.find?_some found
    obtain rfl : same = name := beq_iff_eq.mp holds
    exact absurd (List.mem_eraseDups.mp (List.mem_of_find?_eq_some found)) (fresh other)

/-- What is known once operands and symbols have been met: the signature of them if no name has two roles, and
else the refusal of a name that has. -/
inductive Collects (scalar packed : String) (operands : List (Role × String)) (symbols : List String) :
    Except Refusal Signature → Prop
  | bound (single : Single operands) :
      Collects scalar packed operands symbols (.ok (of scalar packed operands symbols))
  | refused {role role' : Role} {name : String} (other : role ≠ role') (first : (role, name) ∈ operands)
      (second : (role', name) ∈ operands) :
      Collects scalar packed operands symbols (.error (.conflictingOperand name))

namespace Collects

variable {result : Except Refusal Signature}

/-- Nothing has been met yet. -/
theorem nil (scalar packed : String) : Collects scalar packed [] [] (.ok empty) :=
  .bound fun _ _ _ none => absurd none List.not_mem_nil

/-- **What an operand adds**: its name, unless that has the role already, and a refusal if it has another
one. -/
theorem claim (collects : Collects scalar packed operands symbols result) (operand : Role × String) :
    Collects scalar packed (operands ++ [operand]) symbols
      (result >>= fun signature => signature.claim scalar packed operand) := by
  obtain ⟨role, name⟩ := operand
  cases collects with
  | refused other first second =>
    exact .refused other (List.mem_append_left _ first) (List.mem_append_left _ second)
  | bound single =>
    show Collects _ _ _ _ (Signature.claim _ _ _ _)
    by_cases known : ∃ taken, (taken, name) ∈ operands
    · obtain ⟨taken, member⟩ := known
      rw [of_claim_taken single member]
      split
      · next same =>
        subst same
        have again : of scalar packed (operands ++ [(taken, name)]) symbols =
            of scalar packed operands symbols := by
          unfold of
          rw [eraseDups_concat_of_mem member]
        rw [← again]
        have sub : operands ++ [(taken, name)] ⊆ operands :=
          List.append_subset.mpr ⟨List.Subset.refl _, List.cons_subset.mpr ⟨member, List.nil_subset _⟩⟩
        exact .bound fun first second x one two => single first second x (sub one) (sub two)
      · next other =>
        exact .refused other (List.mem_append_left _ member) (List.mem_append_right _ List.mem_cons_self)
    · have fresh (taken : Role) : (taken, name) ∉ operands := fun member => known ⟨taken, member⟩
      rw [of_claim_fresh fresh]
      refine .bound fun first second x one two => ?_
      simp only [List.mem_append, List.mem_singleton, Prod.mk.injEq] at one two
      rcases one with one | ⟨rfl, rfl⟩ <;> rcases two with two | ⟨rfl, same⟩
      · exact single first second x one two
      · exact absurd (same ▸ one) (fresh first)
      · exact absurd two (fresh second)
      · rfl

/-- What a list of operands adds. -/
theorem claims (collects : Collects scalar packed operands symbols result) (more : List (Role × String)) :
    Collects scalar packed (operands ++ more) symbols
      (result >>= fun signature => more.foldlM (Signature.claim scalar packed) signature) := by
  induction more generalizing operands result with
  | nil =>
    rw [List.append_nil]
    exact (bind_pure result).symm ▸ collects
  | cons operand more ih =>
    have first := ih (collects.claim operand)
    rw [List.append_assoc, bind_assoc] at first
    exact first

/-- What the extents of a node add. -/
theorem meets (collects : Collects scalar packed operands symbols result) (extents : List Extent) :
    Collects scalar packed operands (symbols ++ extents.filterMap Extent.symbol?)
      (result.map (extents.foldl meet)) := by
  cases collects with
  | refused other first second => exact .refused other first second
  | bound single =>
    rw [Except.map, of_foldl_meet]
    exact .bound single

/-- **What a node adds**: the symbols of its extents, and its name. -/
theorem leaf (collects : Collects scalar packed operands symbols result) (node : Expr) :
    Collects scalar packed (operands ++ node.role?.toList)
      (symbols ++ node.extents.filterMap Extent.symbol?)
      (result >>= fun signature => signature.leaf scalar packed node) := by
  have both := (collects.meets node.extents).claims node.role?.toList
  cases result with
  | error reason => exact both
  | ok signature =>
    show Collects _ _ _ _ (Signature.leaf _ _ _ _)
    rw [leaf_eq]
    exact both

/-- **What all nodes add.** -/
theorem leaves (collects : Collects scalar packed operands symbols result) (nodes : List Expr) :
    Collects scalar packed (operands ++ nodes.filterMap Expr.role?)
      (symbols ++ nodes.flatMap fun node => node.extents.filterMap Extent.symbol?)
      (result >>= fun signature => nodes.foldlM (Signature.leaf scalar packed) signature) := by
  induction nodes generalizing operands symbols result with
  | nil =>
    rw [List.filterMap_nil, List.flatMap_nil, List.append_nil, List.append_nil]
    exact (bind_pure result).symm ▸ collects
  | cons node nodes ih =>
    have first := ih (collects.leaf node)
    rw [List.append_assoc, List.append_assoc, bind_assoc] at first
    have roles : (node :: nodes).filterMap Expr.role? = node.role?.toList ++ nodes.filterMap Expr.role? := by
      cases found : node.role? <;> simp [found]
    rw [roles, List.flatMap_cons]
    exact first

/-- **What the symbols add**: their names, as sizes. -/
theorem sizes (collects : Collects scalar packed operands symbols result) :
    Collects scalar packed (operands ++ symbols.eraseDups.map (Role.size, ·)) symbols
      (result >>= fun signature =>
        signature.symbols.foldlM (fun signature name => signature.bind .size name .size) signature) := by
  have all := collects.claims (symbols.eraseDups.map (Role.size, ·))
  cases collects with
  | refused other first second => exact all
  | bound single =>
    simp only [List.foldlM_map] at all
    exact all

/-- What is bound in the end. -/
theorem finish (collects : Collects scalar packed operands symbols result) :
    let uses := operands ++ symbols.eraseDups.map (Role.size, ·)
    Single uses ∧ result >>= Signature.finish =
        .ok (uses.eraseDups.map fun (role, name) => ⟨name, role.kind scalar packed⟩) ∨
      ∃ role role' name, role ≠ role' ∧ (role, name) ∈ uses ∧ (role', name) ∈ uses ∧
        result >>= Signature.finish = .error (.conflictingOperand name) := by
  intro uses
  have last : result >>= Signature.finish = (result >>= fun signature => signature.symbols.foldlM
      (fun signature name => signature.bind .size name .size) signature) >>=
      fun signature => .ok (signature.bound.map Prod.snd) := (bind_assoc _ _ _).symm
  rw [last]
  have sizes := collects.sizes
  generalize (result >>= fun signature : Signature => signature.symbols.foldlM
    (fun signature name => signature.bind .size name .size) signature) = bound at sizes ⊢
  cases sizes with
  | bound single => exact Or.inl ⟨single, congrArg Except.ok (List.map_map ..)⟩
  | refused other first second => exact Or.inr ⟨_, _, _, other, first, second, rfl⟩

end Collects

end Signature

/-! ### Exactness -/

namespace Operation

variable {op op' : Operation}

theorem oneRole_iff : op.OneRole ↔ ∀ name, ¬op.Conflicts name := by
  constructor
  · rintro one name ⟨role, role', other, uses, uses'⟩
    exact other (one role role' name uses uses')
  · intro none role role' name uses uses'
    by_contra other
    exact none name ⟨role, role', other, uses, uses'⟩

/-- Every name is used once in a role. -/
theorem nodup_uses (op : Operation) : op.uses.Nodup := by
  refine List.nodup_append.mpr ⟨nodup_eraseDups _, ?_, ?_⟩
  · exact (nodup_eraseDups _).map fun x y same => (Prod.mk.inj same).2
  · rintro ⟨role, name⟩ operand _ size rfl
    obtain ⟨_, -, same⟩ := List.mem_map.mp size
    cases same
    obtain ⟨node, -, is⟩ := mem_operands.mp (List.mem_eraseDups.mp operand)
    exact Expr.role?_ne_size is

/-- The names that are used are the operands, and then the symbols. -/
theorem uses_eq (op : Operation) :
    op.uses = (op.operands ++ op.symbols.eraseDups.map (Role.size, ·)).eraseDups := by
  have other : (op.symbols.eraseDups.map (Role.size, ·)).removeAll op.operands =
      op.symbols.eraseDups.map (Role.size, ·) := by
    refine List.filter_eq_self.mpr ?_
    rintro _ size
    obtain ⟨name, -, rfl⟩ := List.mem_map.mp size
    have free : (Role.size, name) ∉ op.operands := fun operand =>
      let ⟨_, _, is⟩ := mem_operands.mp operand
      Expr.role?_ne_size is
    simpa using free
  rw [List.eraseDups_append, other, uses, eraseDups_of_nodup (List.nodup_append.mp op.nodup_uses).2.1]

/-- In the way of their roles, no name is passed twice. -/
theorem OneRole.nodup_arguments (one : op.OneRole) (width : Nat) :
    ((op.arguments width).map Argument.name).Nodup := by
  rw [arguments, List.map_map]
  refine List.Nodup.map_on ?_ op.nodup_uses
  rintro ⟨role, name⟩ here ⟨role', name'⟩ there same
  obtain rfl : name = name' := same
  rw [one role role' name (mem_uses.mp here) (mem_uses.mp there)]

end Operation

variable {op : Operation} {width : Nat}

/-- **Arguments are collected, or refused with a name that has two roles.** -/
theorem collectArguments_cases (op : Operation) (width : Nat) :
    op.OneRole ∧ collectArguments op width = .ok (op.arguments width) ∨
      ∃ name, op.Conflicts name ∧ collectArguments op width = .error (.conflictingOperand name) := by
  have used {role : Role} {name : String} (member : (role, name) ∈ op.operands ++
      op.symbols.eraseDups.map (Role.size, ·)) : op.Uses role name := by
    rw [← Operation.mem_uses, op.uses_eq]
    exact List.mem_eraseDups.mpr member
  have ends := ((Signature.Collects.nil op.numericType.text
    ((op.numericType.vectorName? width).getD op.numericType.text)).leaves op.nodes).finish
  rcases ends with ⟨single, ok⟩ | ⟨role, role', name, other, first, second, error⟩
  · refine Or.inl ⟨fun role role' name uses uses' => ?_, ?_⟩
    · rw [← Operation.mem_uses, op.uses_eq, List.mem_eraseDups] at uses uses'
      exact single role role' name uses uses'
    · rw [Operation.arguments, op.uses_eq]
      exact ok
  · exact Or.inr ⟨name, ⟨role, role', other, used first, used second⟩, error⟩

/-- **The arguments of an operation can be collected exactly if no name has two roles**, and are the names that
it uses. -/
theorem collectArguments_eq_ok_iff {arguments : List Argument} :
    collectArguments op width = .ok arguments ↔ op.OneRole ∧ arguments = op.arguments width := by
  rcases collectArguments_cases op width with ⟨one, ok⟩ | ⟨name, conflicts, error⟩
  · rw [ok, and_iff_right one]
    exact ⟨fun same => (Except.ok.inj same).symm, fun same => congrArg Except.ok same.symm⟩
  · rw [error]
    exact iff_of_false nofun fun both => Operation.oneRole_iff.mp both.1 name conflicts

theorem exists_collectArguments_iff :
    (∃ arguments, collectArguments op width = .ok arguments) ↔ op.OneRole := by
  simp only [collectArguments_eq_ok_iff, exists_and_left, exists_eq, and_true]

variable {arguments : List Argument}

/-- The arguments of an operation have different names. -/
theorem collectArguments_nodup (ok : collectArguments op width = .ok arguments) :
    (arguments.map Argument.name).Nodup := by
  obtain ⟨one, rfl⟩ := collectArguments_eq_ok_iff.mp ok
  exact one.nodup_arguments width

/-- **The arguments of an operation** are the names that its nodes use, each passed in the way of its
role. -/
theorem mem_collectArguments (ok : collectArguments op width = .ok arguments) {a : Argument} :
    a ∈ arguments ↔ ∃ role, op.Uses role a.name ∧ a.kind = role.kind op.numericType.text
      ((op.numericType.vectorName? width).getD op.numericType.text) := by
  obtain ⟨-, rfl⟩ := collectArguments_eq_ok_iff.mp ok
  constructor
  · intro member
    obtain ⟨⟨role, name⟩, used, rfl⟩ := List.mem_map.mp member
    exact ⟨role, Operation.mem_uses.mp used, rfl⟩
  · rintro ⟨role, uses, kind⟩
    exact List.mem_map.mpr ⟨(role, a.name), Operation.mem_uses.mpr uses,
      congrArg (Argument.mk a.name) kind.symm⟩

/-! ### Some of the statements -/

namespace Operation

variable {op' : Operation}

/-- The nodes of some of the statements are nodes of the operation. -/
theorem nodes_sub (sub : op'.statements ⊆ op.statements) : op'.nodes ⊆ op.nodes := by
  intro node inside
  rcases List.mem_append.mp inside with target | value
  · obtain ⟨s, member, here⟩ := List.mem_flatMap.mp target
    exact List.mem_append_left _ (List.mem_flatMap.mpr ⟨s, sub member, here⟩)
  · obtain ⟨s, member, here⟩ := List.mem_flatMap.mp value
    exact List.mem_append_right _ (List.mem_flatMap.mpr ⟨s, sub member, here⟩)

theorem Uses.of_sub {role : Role} {name : String} (uses : op'.Uses role name)
    (sub : op'.statements ⊆ op.statements) : op.Uses role name := by
  obtain ⟨node, member, named⟩ := uses
  exact ⟨node, nodes_sub sub member, named⟩

/-- The names of some of the statements have one role each if those of all of them do. -/
theorem OneRole.of_sub (one : op.OneRole) (sub : op'.statements ⊆ op.statements) : op'.OneRole :=
  fun _ _ _ uses uses' => one _ _ _ (uses.of_sub sub) (uses'.of_sub sub)

end Operation

/-- **Argument collection is exact.** It fails exactly if some name is used in two roles, and reports such a
name. Otherwise it returns every name once: the operands as they are used first, and then the sizes. -/
theorem argumentCollection_exact (op : Operation) (width : Nat) :
    ((∃ refusal, collectArguments op width = .error refusal) ↔ ∃ name, op.Conflicts name) ∧
    (∀ refusal, collectArguments op width = .error refusal →
      ∃ name, refusal = .conflictingOperand name ∧ op.Conflicts name) ∧
    ((∀ name, ¬op.Conflicts name) → collectArguments op width = .ok (op.arguments width) ∧
      ((op.arguments width).map Argument.name).Nodup) := by
  rcases collectArguments_cases op width with ⟨one, ok⟩ | ⟨name, conflicts, error⟩
  · have none := Operation.oneRole_iff.mp one
    rw [ok]
    exact ⟨iff_of_false nofun fun ⟨name, conflicts⟩ => none name conflicts, nofun,
      fun _ => ⟨rfl, one.nodup_arguments width⟩⟩
  · rw [error]
    refine ⟨iff_of_true ⟨_, rfl⟩ ⟨name, conflicts⟩, ?_, fun none => absurd conflicts (none name)⟩
    rintro _ ⟨⟩
    exact ⟨name, rfl, conflicts⟩

end TunedKernel
