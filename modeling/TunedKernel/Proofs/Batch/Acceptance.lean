/-
**What accepted records and batches promise.**

* `checkPositive_eq_ok`, `theProduct_eq_ok_iff`, `agree_eq_ok_iff` — the checks that generators share.
* `exists_map` — a list that was computed item by item is that of a function of the items;
  `exists_mapM_iff` — such a list can be computed exactly if each of its items can.
* `Numbered` — the statements of a batch with their products, numbered from zero.
* `collects` — a batch whose statements are checked one after the other is numbered, and all of its
  statements have the shape that is left at the end.
* `exists_settled_iff` — such checks pass exactly if each statement is accepted with the shape that they
  share; `agrees_iff` says so of checks that only compare shapes.
-/

import Mathlib.Logic.Nonempty
import Mathlib.Tactic.Choose
import TunedKernel.Generator.Accumulators
import TunedKernel.Tuning.Record

namespace TunedKernel

/-! ### Checks -/

/-- No size of a list that passes its check is zero. -/
theorem checkPositive_eq_ok {sizes : List (String × UInt32)} {u : Unit}
    (ok : checkPositive sizes = .ok u) (size : String × UInt32) (member : size ∈ sizes) :
    0 < size.2.toNat := by
  unfold checkPositive at ok
  cases found : sizes.find? fun size => size.2 == 0 with
  | some zero =>
    rw [found] at ok
    cases ok
  | none =>
    have nonzero := List.find?_eq_none.mp found size member
    rw [beq_iff_eq] at nonzero
    exact Nat.pos_of_ne_zero fun zero => nonzero (UInt32.toNat_inj.mp zero)

theorem NumericType.isVectorWidth_iff {width : Nat} :
    isVectorWidth width = true ↔ width ∈ [1, 2, 4, 8, 16] := by
  simp [isVectorWidth, or_assoc]

/-- Vectors of kernel code have lanes. -/
theorem NumericType.isVectorWidth_pos {width : Nat} (packed : isVectorWidth width = true) :
    0 < width := by
  have among := isVectorWidth_iff.mp packed
  simp only [List.mem_cons, List.not_mem_nil, or_false] at among
  omega

theorem theProduct_eq_ok_iff {kind : Operation.Kind} {position : Nat} {s : Statement} {p : Product} :
    theProduct kind position s = .ok p ↔ s.value.products = [p] := by
  unfold theProduct
  split
  · next found =>
    rw [found]
    exact ⟨fun same => congrArg (fun p => [p]) (Except.ok.inj same), fun same =>
      congrArg Except.ok (List.cons.inj same).1⟩
  · next other => exact iff_of_false nofun (other p)

theorem agree_eq_ok_iff {α : Type} [DecidableEq α] {describe : α → α → String}
    {shape found : Option α} {next : α} : agree describe shape next = .ok found ↔
      found = some next ∧ ∀ first, shape = some first → first = next := by
  cases shape with
  | none =>
    exact ⟨fun same => ⟨(Except.ok.inj same).symm, nofun⟩, fun both => congrArg Except.ok both.1.symm⟩
  | some first =>
    simp only [agree]
    split
    · next same =>
      subst same
      exact ⟨fun same => ⟨(Except.ok.inj same).symm, fun _ known => (Option.some.inj known).symm⟩,
        fun both => congrArg Except.ok both.1.symm⟩
    · next other => exact iff_of_false nofun fun both => other (both.2 first rfl)

/-- A result that passes a test is there. -/
theorem exists_ok_of_any {ε β : Type} {result : Except ε β} {test : β → Bool}
    (passes : result.toOption.any test = true) : ∃ x, result = .ok x ∧ test x = true := by
  cases result with
  | error reason => cases passes
  | ok x => exact ⟨x, rfl, passes⟩

/-- **A list that was computed item by item** is that of a function of the items. -/
theorem exists_map {β γ δ ε : Type} [Nonempty δ] {f : β → Except ε γ} {g : β → δ → γ}
    {P : β → δ → Prop} (each : ∀ b y, f b = .ok y → ∃ d, P b d ∧ y = g b d) {xs : List β}
    {ys : List γ} (ok : xs.mapM f = .ok ys) :
    ∃ d : β → δ, ys = xs.map (fun b => g b (d b)) ∧ ∀ b ∈ xs, P b (d b) := by
  have pointwise (b : β) : ∃ d, ∀ y, f b = .ok y → P b d ∧ y = g b d := by
    cases found : f b with
    | error reason => exact ⟨Classical.arbitrary δ, nofun⟩
    | ok y =>
      obtain ⟨d, holds⟩ := each b y found
      refine ⟨d, fun y' same => ?_⟩
      cases same
      exact holds
  choose d spec using pointwise
  refine ⟨d, ?_⟩
  induction xs generalizing ys with
  | nil =>
    cases ok
    exact ⟨rfl, fun _ none => absurd none List.not_mem_nil⟩
  | cons b xs ih =>
    rw [List.mapM_cons] at ok
    obtain ⟨y, first, ok⟩ := bind_eq_ok_iff.mp ok
    obtain ⟨rest, further, ok⟩ := bind_eq_ok_iff.mp ok
    cases ok
    obtain ⟨rfl, all⟩ := ih further
    obtain ⟨holds, rfl⟩ := spec b y first
    refine ⟨rfl, fun b' member => ?_⟩
    rcases List.mem_cons.mp member with rfl | member
    · exact holds
    · exact all b' member

/-- A list can be computed item by item where each item can. -/
theorem exists_mapM {β γ ε : Type} {f : β → Except ε γ} (xs : List β)
    (each : ∀ x ∈ xs, ∃ y, f x = .ok y) : ∃ ys, xs.mapM f = .ok ys := by
  induction xs with
  | nil => exact ⟨[], rfl⟩
  | cons x xs ih =>
    rw [List.forall_mem_cons] at each
    obtain ⟨y, first⟩ := each.1
    obtain ⟨ys, rest⟩ := ih each.2
    refine ⟨y :: ys, ?_⟩
    rw [List.mapM_cons, first, rest]
    rfl

/-- A list can be computed item by item exactly if each item can. -/
theorem exists_mapM_iff {ε β γ : Type} {f : β → Except ε γ} {xs : List β} :
    (∃ ys, xs.mapM f = .ok ys) ↔ ∀ x ∈ xs, ∃ y, f x = .ok y := by
  refine ⟨?_, exists_mapM xs⟩
  rintro ⟨ys, ok⟩
  induction xs generalizing ys with
  | nil => exact nofun
  | cons x xs ih =>
    rw [List.mapM_cons] at ok
    obtain ⟨y, first, ok⟩ := bind_eq_ok_iff.mp ok
    obtain ⟨ys, rest, -⟩ := bind_eq_ok_iff.mp ok
    exact List.forall_mem_cons.mpr ⟨⟨y, first⟩, ih ys rest⟩

/-! ### Batches -/

/-- The statements of a batch with their products, numbered from zero. -/
structure Numbered (statements : List Statement) (folded : List Folded) : Prop where
  entries : folded.map (fun f => (f.statement, f.position)) = statements.zipIdx
  products : ∀ f ∈ folded, f.statement.value.products = [f.product]

namespace Numbered

variable {statements : List Statement} {folded : List Folded}

theorem statements_eq (numbered : Numbered statements folded) :
    folded.map Folded.statement = statements := by
  have first := congrArg (List.map Prod.fst) numbered.entries
  rw [List.map_map, List.zipIdx_map_fst] at first
  exact first

theorem length_eq (numbered : Numbered statements folded) : folded.length = statements.length := by
  rw [← numbered.statements_eq, List.length_map]

theorem positions_eq (numbered : Numbered statements folded) :
    folded.map Folded.position = List.range folded.length := by
  have second := congrArg (List.map Prod.snd) numbered.entries
  rw [List.map_map, List.zipIdx_map_snd] at second
  rw [List.range_eq_range', numbered.length_eq]
  exact second

/-- No two statements of a batch have the same number. -/
theorem nodup (numbered : Numbered statements folded) : (folded.map Folded.position).Nodup := by
  rw [numbered.positions_eq]
  exact List.nodup_range

theorem mem_statements (numbered : Numbered statements folded) {f : Folded} (member : f ∈ folded) :
    f.statement ∈ statements :=
  numbered.statements_eq ▸ List.mem_map_of_mem member

/-- The statements are those of the batch. -/
theorem forall_statements (numbered : Numbered statements folded) {P : Statement → Prop} :
    (∀ s ∈ statements, P s) ↔ ∀ f ∈ folded, P f.statement := by
  rw [← numbered.statements_eq, List.forall_mem_map]

/-- The products of the statements are those of the batch. -/
theorem forall_products (numbered : Numbered statements folded) {P : Product → Prop} :
    (∀ s ∈ statements, ∀ p ∈ s.value.products, P p) ↔ ∀ f ∈ folded, P f.product := by
  rw [numbered.forall_statements]
  refine forall₂_congr fun f member => ?_
  rw [numbered.products f member, List.forall_mem_singleton]

end Numbered

/-- **A batch whose statements are checked one after the other is numbered**, and all its statements
have the shape that is left at the end. -/
theorem collects {S : Type} (accepts : Statement → Product → S → Prop)
    {check : List Folded × Option S → Statement × Nat → Generated (List Folded × Option S)}
    (each : ∀ state entry next, check state entry = .ok next → ∃ product shape,
      entry.1.value.products = [product] ∧ accepts entry.1 product shape ∧
      next = (state.1 ++ [⟨entry.1, product, entry.2⟩], some shape) ∧
      ∀ first, state.2 = some first → first = shape)
    {statements : List Statement} {folded : List Folded} {shape : Option S}
    (ok : statements.zipIdx.foldlM check ([], none) = .ok (folded, shape)) :
    Numbered statements folded ∧
      ∀ f ∈ folded, ∃ s, shape = some s ∧ accepts f.statement f.product s := by
  suffices general : ∀ entries state final, List.foldlM check state entries = .ok final →
      ∃ found, final.1 = state.1 ++ found ∧
        found.map (fun f => (f.statement, f.position)) = entries ∧
        (∀ s, state.2 = some s → final.2 = some s) ∧
        ∀ f ∈ found, f.statement.value.products = [f.product] ∧
          ∃ s, final.2 = some s ∧ accepts f.statement f.product s by
    obtain ⟨found, rfl, numbers, -, all⟩ := general _ _ _ ok
    exact ⟨⟨numbers, fun f member => (all f member).1⟩, fun f member => (all f member).2⟩
  intro entries
  induction entries with
  | nil =>
    intro state final ok
    cases ok
    exact ⟨[], (List.append_nil _).symm, rfl, fun _ => id, fun _ none => absurd none
      List.not_mem_nil⟩
  | cons entry entries ih =>
    intro state final ok
    rw [List.foldlM_cons] at ok
    obtain ⟨next, first, ok⟩ := bind_eq_ok_iff.mp ok
    obtain ⟨product, s, single, accepted, rfl, same⟩ := each _ _ _ first
    obtain ⟨found, all, numbers, keeps, further⟩ := ih _ _ ok
    refine ⟨⟨entry.1, product, entry.2⟩ :: found, ?_, ?_, fun s' known => ?_, fun f member => ?_⟩
    · rw [all, List.append_assoc]
      rfl
    · rw [List.map_cons, numbers]
    · exact (same s' known) ▸ keeps s rfl
    · rcases List.mem_cons.mp member with rfl | member
      · exact ⟨single, s, keeps s rfl, accepted⟩
      · exact further f member

theorem forbidProducts_eq_ok_iff {kind : Operation.Kind} {position : Nat} {s : Statement} {u : Unit} :
    forbidProducts kind position s = .ok u ↔ s.value.products = [] :=
  require_eq_ok_iff.trans List.isEmpty_iff

theorem requireStatements_eq_ok_iff {op : Operation} {u : Unit} :
    requireStatements op = .ok u ↔ op.statements ≠ [] := by
  rw [requireStatements, require_eq_ok_iff, Bool.not_eq_true', List.isEmpty_eq_false_iff]

/-- **Statements that are checked one after the other** pass exactly if each is accepted with the shape that
they share. -/
theorem exists_settled_iff {σ S : Type} {shape? : σ → Option S} (accepts : Statement → S → Prop)
    {check : σ → Statement × Nat → Generated σ}
    (each : ∀ state entry shape, (∃ next, check state entry = .ok next ∧ shape? next = some shape) ↔
      accepts entry.1 shape ∧ ∀ first, shape? state = some first → first = shape)
    (leaves : ∀ state entry next, check state entry = .ok next → ∃ shape, shape? next = some shape)
    {statements : List Statement} {start : σ} (fresh : shape? start = none) {shape : S} :
    (∃ final, statements.zipIdx.foldlM check start = .ok final ∧ shape? final = some shape) ↔
      statements ≠ [] ∧ ∀ s ∈ statements, accepts s shape := by
  -- The shape is the one that was found before, if there was one.
  have general (entries : List (Statement × Nat)) : ∀ state,
      (∃ final, entries.foldlM check state = .ok final ∧ shape? final = some shape) ↔
        (entries = [] → shape? state = some shape) ∧
          (∀ first, shape? state = some first → first = shape) ∧ ∀ entry ∈ entries, accepts entry.1 shape := by
    induction entries with
    | nil =>
      intro state
      constructor
      · rintro ⟨_, ⟨⟩, found⟩
        exact ⟨fun _ => found, fun first known => Option.some.inj (known.symm.trans found), nofun⟩
      · rintro ⟨found, -⟩
        exact ⟨state, rfl, found rfl⟩
    | cons entry entries ih =>
      intro state
      have settled : (∃ final, (entry :: entries).foldlM check state = .ok final ∧
          shape? final = some shape) ↔
          (∃ next, check state entry = .ok next ∧ shape? next = some shape) ∧
            ∀ entry ∈ entries, accepts entry.1 shape := by
        rw [List.foldlM_cons]
        constructor
        · rintro ⟨final, ok, found⟩
          obtain ⟨next, first, ok⟩ := bind_eq_ok_iff.mp ok
          obtain ⟨-, same, all⟩ := (ih next).mp ⟨final, ok, found⟩
          obtain ⟨x, left⟩ := leaves state entry next first
          exact ⟨⟨next, first, same x left ▸ left⟩, all⟩
        · rintro ⟨⟨next, first, left⟩, all⟩
          obtain ⟨final, ok, found⟩ := (ih next).mpr
            ⟨fun _ => left, fun x known => Option.some.inj (known.symm.trans left), all⟩
          exact ⟨final, bind_eq_ok_iff.mpr ⟨next, first, ok⟩, found⟩
      rw [settled, each, List.forall_mem_cons, and_assoc, and_left_comm]
      exact (and_iff_right nofun).symm
  have entries : (∀ s ∈ statements.zipIdx.map Prod.fst, accepts s shape) ↔
      ∀ entry ∈ statements.zipIdx, accepts entry.1 shape := List.forall_mem_map
  rw [List.zipIdx_map_fst] at entries
  rw [general, entries, fresh]
  simp

/-- Checks that only compare shapes pass exactly if each statement is accepted with the shape that they
share. -/
theorem agrees_iff {S : Type} (accepts : Statement → S → Prop)
    {check : Option S → Statement × Nat → Generated (Option S)}
    (each : ∀ state entry next, check state entry = .ok next ↔ ∃ shape, next = some shape ∧
      accepts entry.1 shape ∧ ∀ first, state = some first → first = shape)
    {statements : List Statement} {shape : S} :
    statements.zipIdx.foldlM check none = .ok (some shape) ↔
      statements ≠ [] ∧ ∀ s ∈ statements, accepts s shape := by
  have settles (state : Option S) (entry : Statement × Nat) (shape : S) :
      (∃ next, check state entry = .ok next ∧ id next = some shape) ↔
        accepts entry.1 shape ∧ ∀ first, id state = some first → first = shape := by
    simp only [each, id]
    constructor
    · rintro ⟨_, ⟨x, rfl, accepted⟩, ⟨⟩⟩
      exact accepted
    · exact fun accepted => ⟨_, ⟨shape, rfl, accepted⟩, rfl⟩
  rw [← exists_settled_iff accepts settles (fun state entry next ok => ?leaves) rfl]
  case leaves =>
    obtain ⟨x, left, -⟩ := (each state entry next).mp ok
    exact ⟨x, left⟩
  exact ⟨fun ok => ⟨_, ok, rfl⟩, fun ⟨_, ok, found⟩ => ok.trans (congrArg Except.ok found)⟩

end TunedKernel
