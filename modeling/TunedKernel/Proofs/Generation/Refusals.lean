/-
**Which statements refusals are about.**

* `Fails` — a computation ends in no other errors than those allowed; it composes along the steps of a
  computation. `Refuses` says the same of the refusals of a generator, which may overflow besides.
* `Refusal.statement?` — the number of the statement that a refusal is about, if it is about one.
* `Refusal.Silent`, `Refusal.About` — a refusal that is about no statement, or about none but one.
* `VectorStatements.generate_refuses`, `MatrixStatements.generate_refuses`, `Reduction.generate_refuses`,
  `RowReduction.generateFor_refuses`, `MatrixProduct.generate_refuses` — once its statements are
  checked, an operation is refused by silent refusals only.
-/

import TunedKernel.Generator.MatrixProduct
import TunedKernel.Generator.MatrixStatements
import TunedKernel.Generator.Reduction
import TunedKernel.Generator.RowReduction
import TunedKernel.Generator.VectorStatements

namespace TunedKernel

/-! ### The errors of a computation -/

/-- Whatever error a computation ends in is allowed. -/
def Fails {ε α : Type} (allowed : ε → Prop) (result : Except ε α) : Prop :=
  ∀ error, result = .error error → allowed error

namespace Fails

variable {ε α β γ : Type} {allowed : ε → Prop}

theorem ok (a : α) : Fails allowed (.ok a) := nofun

theorem of_eq_ok {result : Except ε α} {a : α} (found : result = .ok a) : Fails allowed result :=
  found ▸ ok a

theorem error {e : ε} (here : allowed e) : Fails (α := α) allowed (.error e) := by
  intro e' same
  cases same
  exact here

theorem mono {other : ε → Prop} {result : Except ε α} (fails : Fails allowed result)
    (weaker : ∀ e, allowed e → other e) : Fails other result :=
  fun e ended => weaker e (fails e ended)

/-- The errors of two steps are those of the first one, and those of the second one at the value that
the first one leaves. -/
theorem bind {first : Except ε α} {next : α → Except ε β} (here : Fails allowed first)
    (later : ∀ a, first = .ok a → Fails allowed (next a)) : Fails allowed (first >>= next) := by
  cases first with
  | error e => exact error (here e rfl)
  | ok a => exact later a rfl

theorem mapM {f : β → Except ε γ} (each : ∀ b, Fails allowed (f b)) (xs : List β) :
    Fails allowed (xs.mapM f) := by
  induction xs with
  | nil => exact ok []
  | cons b xs ih =>
    rw [List.mapM_cons]
    exact (each b).bind fun y _ => ih.bind fun ys _ => ok (y :: ys)

theorem foldlM {f : α → β → Except ε α} {xs : List β} (each : ∀ a, ∀ b ∈ xs, Fails allowed (f a b))
    (start : α) : Fails allowed (xs.foldlM f start) := by
  induction xs generalizing start with
  | nil => exact ok start
  | cons b xs ih =>
    rw [List.foldlM_cons]
    exact (each start b List.mem_cons_self).bind fun next _ =>
      ih (fun a b' member => each a b' (List.mem_cons_of_mem _ member)) next

end Fails

/-- A fault that is an overflow, or a refusal that is allowed. -/
def Fault.Within {ε : Type} (allowed : ε → Prop) : Fault ε → Prop
  | .overflow _ => True
  | .refused reason => allowed reason

/-- Whatever a generator refuses is allowed. It may overflow as well. -/
abbrev Refuses {α : Type} (allowed : Refusal → Prop) (result : Generated α) : Prop :=
  Fails (Fault.Within allowed) result

namespace Fails

variable {ε α : Type} {allowed other : ε → Prop}

theorem refuse {reason : ε} (here : allowed reason) :
    Fails (α := α) (Fault.Within allowed) (refuse reason) := error here

/-- A check fails only with its own reason. -/
theorem require {condition : Bool} {reason : ε} (otherwise : condition = false → allowed reason) :
    Fails (Fault.Within allowed) (require condition reason) := by
  cases condition with
  | false => exact refuse (otherwise rfl)
  | true => exact ok ()

theorem accepted {allowed : Refusal → Prop} {answer : Except Refusal α} (fails : Fails allowed answer) :
    Refuses allowed (accepted answer) := by
  cases answer with
  | error reason => exact refuse (fails reason rfl)
  | ok a => exact ok a

theorem weaken {result : Except (Fault ε) α} (fails : Fails (Fault.Within allowed) result)
    (weaker : ∀ reason, allowed reason → other reason) : Fails (Fault.Within other) result := by
  refine fails.mono fun fault within => ?_
  cases fault with
  | overflow operation => trivial
  | refused reason => exact weaker reason within

end Fails

/-! ### Numbers that do not fit -/

section Overflows

variable {ε : Type} {allowed : ε → Prop}

theorem Word.fails_mul (w : Word) (a b : Nat) : Fails (Fault.Within allowed) (w.mul a b) := by
  unfold mul
  split
  · exact .ok _
  · exact .error trivial

theorem Word.fails_add (w : Word) (a b : Nat) : Fails (Fault.Within allowed) (w.add a b) := by
  unfold add
  split
  · exact .ok _
  · exact .error trivial

theorem LocalMemory.fails_bytes (m : LocalMemory) (size : Nat) :
    Fails (Fault.Within allowed) (m.bytes size) :=
  Fails.bind (Fails.foldlM (fun n d _ => Word.fails_mul _ n d) 1) fun _ _ => Word.fails_mul _ _ _

theorem Folded.fails_localBytes (type : NumericType) (dims : List Nat) (folded : List Folded) :
    Fails (Fault.Within allowed) (Folded.localBytes type dims folded) :=
  Fails.bind (Fails.mapM (fun _ => LocalMemory.fails_bytes _ _) folded) fun _ _ =>
    Fails.foldlM (fun n m _ => Word.fails_add _ n m) 0

theorem Tree.fails_code (buffers : Tree.Buffers) (before : List Term) (lane : Term) (extent : Nat) :
    Fails (Fault.Within allowed) (Tree.code buffers before lane extent) := by
  refine Fails.bind ?_ fun _ _ => .ok _
  unfold strides
  simp only
  split
  · exact .ok _
  · exact .error trivial

end Overflows

/-! ### Refusals about statements -/

namespace Refusal

/-- The number of the statement that a refusal is about. -/
def statement? : Refusal → Option Nat
  | targetRole _ n _ _ | productCount _ n _ | unexpectedProduct _ n | productShape _ n _ => some n
  | _ => none

/-- A refusal that is about no statement. -/
def Silent (r : Refusal) : Prop := r.statement? = none

/-- A refusal that is about no other statement than the one of this number. -/
def About (n : Nat) (r : Refusal) : Prop := ∀ m, r.statement? = some m → m = n

theorem Silent.about {r : Refusal} (silent : r.Silent) (n : Nat) : r.About n := by
  intro m here
  rw [silent] at here
  cases here

theorem about_of_eq {r : Refusal} {n : Nat} (here : r.statement? = some n) : r.About n :=
  fun _ same => Option.some.inj (same.symm.trans here)

end Refusal

open Refusal (Silent About)

/-! ### Silent refusals -/

theorem Signature.fails_bind (signature : Signature) (role : Role) (name : String)
    (kind : Argument.Kind) : Fails Silent (signature.bind role name kind) := by
  unfold Signature.bind
  split
  · exact .ok _
  · split
    · exact .ok _
    · exact .error rfl

theorem Signature.fails_leaf (scalar packed : String) (signature : Signature) (node : Expr) :
    Fails Silent (signature.leaf scalar packed node) := by
  unfold Signature.leaf
  split
  · exact fails_bind _ _ _ _
  · exact fails_bind _ _ _ _
  · exact fails_bind _ _ _ _
  · exact fails_bind _ _ _ _
  · exact .ok _

/-- Two roles of a name are refused without a statement. -/
theorem fails_collectArguments (op : Operation) (width : Nat) :
    Fails Silent (collectArguments op width) :=
  Fails.bind (Fails.foldlM (fun signature node _ => signature.fails_leaf _ _ node) _) fun _ _ =>
    Fails.bind (Fails.foldlM (fun signature name _ => signature.fails_bind _ name _) _) fun _ _ => .ok _

theorem fails_pushBuffer (arguments : List Argument) (name element : String) :
    Fails Silent (pushBuffer arguments name element) := by
  unfold pushBuffer
  split
  · exact .error rfl
  · exact .ok _

theorem Scope.fails_productTerm (scope : Scope) (lhs : Expr) :
    Fails Silent (scope.productTerm lhs) := by
  unfold Scope.productTerm
  split
  · exact .ok _
  · exact .error rfl

/-- What cannot be addressed is refused without a statement. -/
theorem Expr.fails_term (scope : Scope) (e : Expr) : Fails Silent (e.term scope) := by
  induction e with
  | scalar s => exact .ok _
  | vector v =>
    unfold Expr.term VectorOperand.term
    split
    · exact .ok _
    · exact .error rfl
  | matrix m =>
    unfold Expr.term MatrixOperand.term
    split
    · exact .ok _
    · exact .error rfl
  | binary op lhs rhs left right => exact left.bind fun _ _ => right.bind fun _ _ => .ok _
  | unary func operand inner => exact inner.bind fun _ _ => .ok _
  | fold combine reduce lhs => exact scope.fails_productTerm lhs
  | product combine reduce lhs rhs => exact scope.fails_productTerm lhs

theorem Product.fails_term (scope : Scope) (p : Product) : Fails Silent (p.term scope) := by
  refine (p.lhs.fails_term scope).bind fun _ _ => ?_
  split
  · next rhs _ => exact (rhs.fails_term scope).bind fun _ _ => .ok _
  · exact .ok _

theorem Statement.refuses_storeStep (scope : Scope) (s : Statement) :
    Refuses Silent (s.storeStep scope) :=
  Fails.bind (.accepted (s.target.fails_term scope)) fun _ _ =>
    Fails.bind (.accepted (s.value.fails_term scope)) fun _ _ => .ok _

theorem refuses_packedBound (kind : Operation.Kind) (extent : Extent) (width : Nat) :
    Refuses Silent (packedBound kind extent width) := by
  unfold packedBound
  split
  · exact .ok _
  · split
    · split
      · exact .ok _
      · exact .refuse rfl
    · exact .ok _

theorem refuses_agree {α : Type} [DecidableEq α] (describe : α → α → String) (shape : Option α)
    (next : α) : Refuses Silent (agree describe shape next) := by
  unfold agree
  split
  · exact .ok _
  · split
    · exact .ok _
    · exact .refuse rfl

theorem Reduction.refuses_partialKernel (p : ReductionTuning) (type : NumericType)
    (folded : List Folded) (extent : Extent) :
    Refuses Silent (partialKernel p type folded extent) :=
  Fails.bind (refuses_packedBound _ _ _) fun _ _ =>
    Fails.bind (Fails.mapM (fun f => Fails.bind (.accepted (f.product.fails_term _)) fun _ _ => .ok _)
      folded) fun _ _ =>
    Fails.bind (Tree.fails_code _ _ _ _) fun _ _ => .ok _

theorem Reduction.refuses_finalKernel (p : ReductionTuning) (type : NumericType)
    (folded : List Folded) : Refuses Silent (finalKernel p type folded) :=
  Fails.bind (Tree.fails_code _ _ _ _) fun _ _ =>
    Fails.bind (Fails.mapM (fun f => f.statement.refuses_storeStep _) folded) fun _ _ => .ok _

theorem RowReduction.refuses_code (p : RowTuning) (transposed : Bool) (type : NumericType)
    (dims : List Nat) (folded : List Folded) (rows cols : Extent) :
    Refuses Silent (code p transposed type dims folded rows cols) :=
  Fails.bind (Fails.mapM (fun f => Fails.bind (.accepted (f.product.fails_term _)) fun _ _ => .ok _)
    folded) fun _ _ =>
    Fails.bind (Tree.fails_code _ _ _ _) fun _ _ =>
    Fails.bind (Fails.mapM (fun f => f.statement.refuses_storeStep _) folded) fun _ _ => .ok _

namespace MatrixProduct.Tiling

variable {allowed : Refusal → Prop}

theorem fails_extents (p : ProductTuning) : Refuses allowed (extents p) :=
  Fails.bind (Word.fails_mul _ _ _) fun _ _ => Fails.bind (Word.fails_mul _ _ _) fun _ _ => .ok _

theorem fails_ofRecord (p : ProductTuning) (type : NumericType) (ml nl : Nat) :
    Refuses allowed (ofRecord p type ml nl) :=
  Fails.bind (Word.fails_add _ _ _) fun _ _ => Fails.bind (Word.fails_add _ _ _) fun _ _ => .ok _

theorem fails_bytes (t : Tiling) (type : NumericType) : Refuses allowed (t.bytes type) :=
  Fails.foldlM (fun _ m _ => Fails.bind (m.fails_bytes _) fun _ _ => Word.fails_add _ _ _) 0

end MatrixProduct.Tiling

theorem MatrixProduct.refuses_code (t : Tiling) (type : NumericType) (problem : Problem) :
    Refuses Silent (code t type problem) :=
  Fails.bind (problem.statement.refuses_storeStep _) fun _ _ => .ok _

/-! ### Programs

Each proof takes the steps of its generator one by one: the check of the statements, which may refuse
what it likes, and silent steps before and after it. -/

section Programs

variable {allowed : Refusal → Prop} {op : Operation}

/-- Vector statements are refused by their own check, or silently. -/
theorem VectorStatements.generate_refuses (silent : ∀ r, Silent r → allowed r)
    (checked : Refuses allowed (commonSize op)) (p : VectorTuning) :
    Refuses allowed (generate p op) :=
  Fails.bind checked fun _ _ =>
    Fails.bind (.require fun _ => silent _ rfl) fun _ _ =>
    Fails.bind (.accepted ((fails_collectArguments _ _).mono silent)) fun _ _ =>
    Fails.bind ((refuses_packedBound _ _ _).weaken silent) fun _ _ =>
    Fails.bind (Fails.mapM (fun s => (s.refuses_storeStep _).weaken silent) _) fun _ _ => .ok _

theorem MatrixStatements.generate_refuses (silent : ∀ r, Silent r → allowed r)
    (checked : Refuses allowed (commonShape op)) (p : MatrixTuning) :
    Refuses allowed (generate p op) :=
  Fails.bind (.require fun _ => silent _ rfl) fun _ _ =>
    Fails.bind (.require fun _ => silent _ rfl) fun _ _ =>
    Fails.bind checked fun (_, _) _ =>
    Fails.bind (.accepted ((fails_collectArguments _ _).mono silent)) fun _ _ =>
    Fails.bind (Fails.mapM (fun s => (s.refuses_storeStep _).weaken silent) _) fun _ _ => .ok _

theorem Reduction.generate_refuses (silent : ∀ r, Silent r → allowed r)
    (checked : Refuses allowed (batch op)) (p : ReductionTuning) :
    Refuses allowed (generate p op) :=
  Fails.bind checked fun (_, _) _ =>
    Fails.bind (.require fun _ => silent _ rfl) fun _ _ =>
    Fails.bind (.accepted ((fails_collectArguments _ _).mono silent)) fun _ _ =>
    Fails.bind (.accepted ((fails_pushBuffer _ _ _).mono silent)) fun _ _ =>
    Fails.bind (Folded.fails_localBytes _ _ _) fun _ _ =>
    Fails.bind (Word.fails_mul _ _ _) fun _ _ =>
    Fails.bind ((refuses_partialKernel _ _ _ _).weaken silent) fun _ _ =>
    Fails.bind ((refuses_finalKernel _ _ _).weaken silent) fun _ _ => .ok _

theorem RowReduction.generateFor_refuses {kind : Operation.Kind} {transposed : Bool}
    {demand : Demand} (silent : ∀ r, Silent r → allowed r)
    (checked : Refuses allowed (batch kind transposed demand op)) (p : RowTuning) :
    Refuses allowed (generateFor kind transposed demand p op) :=
  Fails.bind (.require fun _ => silent _ rfl) fun _ _ =>
    Fails.bind (.require fun _ => silent _ rfl) fun _ _ =>
    Fails.bind checked fun (_, _, _) _ =>
    Fails.bind (.accepted ((fails_collectArguments _ _).mono silent)) fun _ _ =>
    Fails.bind (Word.fails_add _ _ _) fun _ _ =>
    Fails.bind (Folded.fails_localBytes _ _ _) fun _ _ =>
    Fails.bind ((refuses_code _ _ _ _ _ _ _).weaken silent) fun _ _ => .ok _

theorem MatrixProduct.generate_refuses {left right : Bool} (silent : ∀ r, Silent r → allowed r)
    (checked : Refuses allowed (Problem.ofOperation left right op)) (p : ProductTuning) :
    Refuses allowed (generate left right p op) :=
  Fails.bind (.require fun _ => silent _ rfl) fun _ _ =>
    Fails.bind (.require fun _ => silent _ rfl) fun _ _ =>
    Fails.bind checked fun _ _ =>
    Fails.bind (Tiling.fails_extents p) fun (_, _) _ =>
    Fails.bind (.accepted ((fails_collectArguments _ _).mono silent)) fun _ _ =>
    Fails.bind (Tiling.fails_ofRecord p _ _ _) fun t _ =>
    Fails.bind (t.fails_bytes _) fun _ _ =>
    Fails.bind ((refuses_code _ _ _).weaken silent) fun _ _ => .ok _

end Programs

end TunedKernel
