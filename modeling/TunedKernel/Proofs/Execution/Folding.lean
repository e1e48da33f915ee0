/-
**A tree folds every slot once.**

A group runs the stages alone, with one worker to each slot of the rows of its buffers. Its operators are
associative and commutative, but need not have an identity: the fold of the slots is read with one added.

* `slotFold` — the values of slots folded from the left, each taken once; `settled_eq_slotFold` — the stages
  leave it in slot zero.
* `Tree.code_ends` — a group that runs the stages comes to its end in every order of moves.
* `Tree.Slot`, `Tree.accesses_of_run` — on the way it accesses slots below the extent only.
* `Tree.code_folds` — for every extent up to `2 ^ 31`, the stages are there, there are as many as the
  logarithm of the extent, and they fold every slot of every buffer once.
-/

import Mathlib.Algebra.Group.WithOne.Defs
import TunedKernel.Proofs.Batch.Sharing
import TunedKernel.Proofs.Generation.Overflows

namespace TunedKernel

variable {α : Type}

/-! ### Values -/

/-- The values of the slots up to `n`, folded from the left. Each of them is taken once. -/
def slotFold (op : α → α → α) (x : Nat → α) : Nat → α
  | 0 => x 0
  | n + 1 => op (slotFold op x n) (x (n + 1))

section Semigroup

variable [CommSemigroup α]

theorem coe_taken (extent stride : Nat) (x : Nat → α) (j : Nat) :
    ((taken (· * ·) extent stride x j : α) : WithOne α) =
      taken (· * ·) extent stride (fun i => (x i : WithOne α)) j := by
  unfold taken
  split
  · exact WithOne.coe_mul ..
  · rfl

theorem coe_settled (extent n : Nat) (x : Nat → α) (j : Nat) :
    ((settled (· * ·) extent n x j : α) : WithOne α) =
      settled (· * ·) extent n (fun i => (x i : WithOne α)) j := by
  induction n generalizing x with
  | zero => rfl
  | succ n ih =>
    rw [settled, settled, ih]
    congr 1
    exact funext (coe_taken extent (2 ^ n) x)

theorem coe_slotFold (x : Nat → α) (n : Nat) :
    ((slotFold (· * ·) x n : α) : WithOne α) = ∏ j ∈ Finset.range (n + 1), (x j : WithOne α) := by
  induction n with
  | zero => rw [Finset.prod_range_one]; rfl
  | succ n ih => rw [Finset.prod_range_succ, ← ih]; rfl

/-- **The stages leave the fold of all slots in slot zero.** -/
theorem settled_eq_slotFold {extent n : Nat} (positive : 0 < extent) (enough : extent ≤ 2 ^ n)
    (x : Nat → α) : settled (· * ·) extent n x 0 = slotFold (· * ·) x (extent - 1) := by
  have folded := prod_settled extent n fun j => (x j : WithOne α)
  rw [Nat.min_eq_right positive, Nat.min_eq_left enough, Finset.prod_range_one] at folded
  refine WithOne.coe_injective ?_
  rw [coe_settled, folded, coe_slotFold, Nat.sub_add_cancel positive]

end Semigroup

namespace Tree

variable {shape : Shape} {e : Elements α} {g : shape.Group} {layout : Layout shape} {bs : Buffers}
  {before : List Term} {lane : Term} {extent : Nat}

/-! ### A group that runs the stages alone -/

/-- The workers of a group, with no elements of the buffers of the device to themselves. -/
def footing (shape : Shape) : Footing shape := ⟨fun _ _ => ∅, ∅⟩

theorem footing_separate : (footing shape).Separate where
  unique inside := absurd inside (Set.notMem_empty _)
  fresh inside := absurd inside (Set.notMem_empty _)

/-- **A group that runs the stages alone settles its slots** in every order of moves. -/
theorem code_ends {ε : Type} [Nonempty shape.Lane] {code : Code}
    (ok : Tree.code (ε := ε) bs before lane extent = .ok code) (positive : 0 < extent)
    (full : layout.Full extent) (distinct : (bs.map fun b => b.1.name).Nodup)
    {names : shape.Lane → Names α}
    (finds : ∀ l, Finds layout bs before lane extent g l (names l)) (m : Memory α) :
    ∃ n, extent ≤ 2 ^ n ∧
      Inevitable (GroupMove shape e g) (fun threads k => (∀ l, (threads l).todo = []) ∧
        ∀ l, ∀ b ∈ bs, (k (.shared g.triple b.1.name (layout.row l ++ [0]))).value =
          settled (e.reduce b.2) extent n
            (fun j => (m (.shared g.triple b.1.name (layout.row l ++ [j]))).value) 0)
        (fun l => ⟨[.run code], names l⟩) m := by
  have view : (footing shape).Shows g layout.publishing m
      ⟨(footing shape).phase g layout.publishing, m, names, fun _ => m⟩ :=
    ⟨rfl, fun _ _ _ _ => rfl, fun _ _ _ => rfl, fun _ _ _ _ => rfl⟩
  obtain ⟨n, enough, leads⟩ := code_settles (e := e) ok footing_separate full distinct
    (fun b row j => (m (.shared g.triple b.1.name (row ++ [j]))).value) finds view fun _ _ _ => rfl
  have ends : Stage.Leads e g ((footing shape).reads g) ((footing shape).writes g) code
      ⟨(footing shape).phase g layout.publishing, m, names, fun _ => m⟩ fun last =>
        ∀ k, last.phase.Joins last.start last.seen k → ∀ l, ∀ b ∈ bs,
          (k (.shared g.triple b.1.name (layout.row l ++ [0]))).value =
            settled (e.reduce b.2) extent n
              (fun j => (m (.shared g.triple b.1.name (layout.row l ++ [j]))).value) 0 := by
    refine leads.weaken ?_
    rintro last - ⟨-, level⟩ k joins l b member
    obtain ⟨use, view', reads⟩ := level.view
    -- Slot zero belongs to some worker of the row, which still sees it.
    obtain ⟨first, row, zero⟩ := full.full l 0 positive
    have own : layout.row l ++ [0] = layout.own first := by rw [Layout.own, row, zero]
    have below : layout.slot first < 1 := by omega
    rw [view'.phase] at joins
    rw [own, Footing.joins_shared joins (reads first below b member),
      level.values first below b member, row, zero]
  obtain ⟨_, confined⟩ :=
    ends.confined ((footing shape).apart footing_separate full.publishing_apart)
  refine ⟨n, enough, confined.inevitable.weaken ?_⟩
  rintro threads k ⟨⟨ended, k', agree, reached⟩, -⟩
  refine ⟨ended, fun l b member => ?_⟩
  rw [agree rfl]
  exact reached l b member

/-- An access to a slot below an extent, in a row of one of the buffers. -/
def Slot {β : Type} (bs : Buffers) (row : List Nat) (extent : Nat) (w : Worker) (names : Names β)
    (a : Access) : Prop :=
  ∃ b ∈ bs, ∃ j < extent, a.array = b.1.name ∧
    a.subscripts.mapM (fun s => s.number? w names) = some (row ++ [j])

/-- **A group that runs the stages alone accesses slots below the extent only**, in every order of
moves. -/
theorem accesses_of_run {ε : Type} {code : Code}
    (ok : Tree.code (ε := ε) bs before lane extent = .ok code) {names : shape.Lane → Names α}
    (finds : ∀ l, Finds layout bs before lane extent g l (names l)) {m k : Memory α}
    {threads : shape.Lane → Thread α}
    (run : Relation.ReflTransGen
      (fun before after => GroupMove shape e g before.1 before.2 after.1 after.2)
      (fun l => ⟨[.run code], names l⟩, m) (threads, k)) (l : shape.Lane) :
    ∀ a ∈ (threads l).accesses,
      Slot bs (layout.row l) extent (shape.worker g l) (threads l).names a := by
  have row : before.mapM (fun s => s.number? (shape.worker g l) (names l).outline) =
      some (layout.row l) := by
    simp only [Term.number?_outline]
    exact (finds l).row
  have passes : Watch.Passes
      ⟨shape.worker g l, Slot bs (layout.row l) extent (shape.worker g l)⟩ code (names l).outline
      fun _ => True := by
    refine code_passes_slots ok ((Term.number?_outline ..).trans (finds l).slot) ?_
    rintro b member t i number below a inside
    have numbers := Term.mapM_append_singleton row number
    rw [LocalMemory.access, Term.accesses_element
      (List.append_ne_nil_of_right_ne_nil before (List.cons_ne_nil t [])) numbers,
      List.mem_singleton] at inside
    subst inside
    exact ⟨b, member, i, below, rfl, numbers⟩
  intro a member
  obtain ⟨b, inside, j, below, array, numbers⟩ :=
    (passes.keeps _ (GroupMove.outlines_of_run run l)).2 a member
  refine ⟨b, inside, j, below, array, ?_⟩
  rw [← numbers]
  simp only [Thread.outline, Term.number?_outline]

/-! ### The tree -/

/-- A stage has one barrier. -/
theorem barriers_stages (strides : List Nat) :
    (stages bs before lane extent strides).steps.count .barrier = strides.length := by
  have none (stride : Nat) : (bs.map (fold before lane stride)).count .barrier = 0 :=
    List.count_eq_zero.mpr fun member => by
      obtain ⟨b, -, same⟩ := List.mem_map.mp member
      cases same
  rw [stages, Code.steps_join]
  induction strides with
  | nil => rfl
  | cons stride rest ih =>
    have own : (stage bs before lane extent stride).steps =
        .barrier :: bs.map (fold before lane stride) := by
      show Step.barrier :: (Code.ofGuard _ _).steps = _
      rw [Code.steps_ofGuard, Code.steps_ofSteps]
    rw [List.map_cons, List.flatMap_cons, List.count_append, own, List.count_cons_self, none, ih,
      List.length_cons]
    omega

/-- Read as `result` says, a row gives the value of its slot zero. -/
theorem value?_result {names : Names α} {l : shape.Lane} {k : Memory α} {b : LocalMemory × ReduceOp}
    (finds : Finds layout bs before lane extent g l names) (member : b ∈ bs) (positive : 0 < extent) :
    (result b.1 before).value? (shape.worker g l) e names k =
      some fun _ => (k (.shared g.triple b.1.name (layout.row l ++ [0]))).value := by
  have here : Station.At ⟨shape.worker g l, e, Set.univ, Set.univ⟩ names
      (b.1.access (before ++ [.number 0])) (.shared g.triple b.1.name (layout.row l ++ [0])) :=
    finds.at rfl member rfl positive
  exact (gives_access here trivial).1

/-- **A tree folds every slot once.** The workers of a group have one slot each of every row of the
buffers, below an extent of at most `2 ^ 31`, and the operators are associative and commutative. Then the
stages are there: as many strides and barriers as the logarithm of the extent, rounded up, and no sum of a
slot and a stride leaves 32 bits. Whatever the memory holds and in whatever order the workers move, the
group comes to its end, and what `result` names holds the values that the slots of the row had, folded
with the operator of the buffer. On the way no worker accesses anything but slots below the extent. -/
theorem code_folds {shape : Shape} [Nonempty shape.Lane] (g : shape.Group) (e : Elements α)
    (layout : Layout shape) (bs : Buffers) (before : List Term) (lane : Term) (extent : Nat)
    (names : shape.Lane → Names α) (positive : 0 < extent) (small : extent ≤ 2 ^ 31)
    (full : layout.Full extent) (distinct : (bs.map fun b => b.1.name).Nodup)
    (assoc : ∀ b ∈ bs, ∀ x y z,
      e.reduce b.2 (e.reduce b.2 x y) z = e.reduce b.2 x (e.reduce b.2 y z))
    (comm : ∀ b ∈ bs, ∀ x y, e.reduce b.2 x y = e.reduce b.2 y x)
    (finds : ∀ l, Finds layout bs before lane extent g l (names l)) :
    ∃ found code, (strides extent : Generated (List Nat)) = .ok found ∧
      (Tree.code bs before lane extent : Generated Code) = .ok code ∧
      found.length = Nat.clog 2 extent ∧ code = stages bs before lane extent found ∧
      code.steps.count .barrier = Nat.clog 2 extent ∧
      (∀ l, ∀ stride ∈ found, layout.slot l + stride < 2 ^ 32) ∧
      ∀ m : Memory α,
        Inevitable (GroupMove shape e g) (fun threads k => (∀ l, (threads l).todo = []) ∧
          ∀ l, ∀ b ∈ bs, (result b.1 before).value? (shape.worker g l) e (names l) k =
            some fun _ => slotFold (e.reduce b.2)
              (fun j => (m (.shared g.triple b.1.name (layout.row l ++ [j]))).value) (extent - 1))
          (fun l => ⟨[.run code], names l⟩) m ∧
        ∀ threads k, Relation.ReflTransGen
          (fun before after => GroupMove shape e g before.1 before.2 after.1 after.2)
          (fun l => ⟨[.run code], names l⟩, m) (threads, k) →
          ∀ l, ∀ a ∈ (threads l).accesses,
            Slot bs (layout.row l) extent (shape.worker g l) (threads l).names a := by
  obtain ⟨found, strided⟩ : ∃ found, (strides extent : Generated (List Nat)) = .ok found :=
    ⟨_, if_pos (powerAbove_lt_limit.mpr small)⟩
  have ok : (Tree.code bs before lane extent : Generated Code) =
      .ok (stages bs before lane extent found) := by
    rw [Tree.code, strided]
    rfl
  have length : found.length = Nat.clog 2 extent := by
    obtain ⟨k, power, rfl⟩ := strides_eq_ok strided
    rw [List.length_reverse, List.length_map, List.length_range]
    exact Nat.pow_right_injective (le_refl 2) (power.symm.trans (powerAbove_eq extent))
  refine ⟨found, _, strided, ok, length, rfl, (barriers_stages _).trans length, fun l stride member => ?_,
    fun m => ⟨?_, fun threads k run => accesses_of_run ok finds run⟩⟩
  · have own := full.below l
    have further := (strides_small strided stride member).2
    omega
  · obtain ⟨n, enough, ends⟩ := code_ends (e := e) ok positive full distinct finds m
    refine ends.weaken ?_
    rintro threads k ⟨ended, reached⟩
    refine ⟨ended, fun l b member => ?_⟩
    let : CommSemigroup α :=
      { mul := e.reduce b.2, mul_assoc := assoc b member, mul_comm := comm b member }
    rw [value?_result (finds l) member positive, reached l b member]
    exact congrArg some (funext fun _ => settled_eq_slotFold positive enough _)

/-- Two rows of six workers, in the only group. -/
def sixLanes : Shape := ⟨⟨2, 6, 1⟩, ⟨1, 1, 1⟩⟩

/-- The group. -/
def soleGroup : sixLanes.Group := (⟨0, by decide⟩, ⟨0, by decide⟩, ⟨0, by decide⟩)

/-- One slot of a row for each of its workers. -/
def sixSlots : Layout sixLanes := ⟨fun l => [l.1], fun l => l.2.1⟩

/-- Two arrays of rows with a slot more than a row has workers: one is summed, the other one searched for
its greatest value. -/
def sixBuffers : Buffers := [(⟨"sums", "int", [2, 7]⟩, .add), (⟨"tops", "int", [2, 7]⟩, .max)]

/-- The names of the two arrays. -/
def sixNames : Names (BitVec 32) := fun x =>
  if x = "sums" ∨ x = "tops" then some (.sharedArray [2, 7]) else none

/-- Machine words. -/
def sixWords : Elements (BitVec 32) := Elements.words .int (fun _ => 0) fun _ x => x

/-- A memory whose slots count from one, and from eleven in the second row. -/
def countedSlots : Memory (BitVec 32)
  | .shared _ _ [row, j] => ⟨BitVec.ofNat 32 (10 * row + j + 1), []⟩
  | _ => ⟨0, []⟩

theorem sixSlots_full : sixSlots.Full 6 where
  below l := l.2.1.isLt
  unique l l' row slot := by
    have lone (i : Fin 1) : (i : Nat) = 0 := Nat.lt_one_iff.mp i.isLt
    exact Prod.ext (Fin.ext (List.singleton_inj.mp row))
      (Prod.ext (Fin.ext slot) (Fin.ext ((lone l.2.2).trans (lone l'.2.2).symm)))
  full l j below := ⟨(l.1, ⟨j, below⟩, l.2.2), rfl, rfl⟩

theorem sixNames_find (l : sixLanes.Lane) : Finds sixSlots sixBuffers [.query .localId 0]
    (.query .localId 1) 6 soleGroup l sixNames where
  row := rfl
  slot := rfl
  arrays b member := by
    obtain rfl | rfl : b = _ ∨ b = _ := by simpa [sixBuffers] using member
    all_goals rfl
  inside b member j below := by
    have dims : b.1.dims = [2, 7] := by
      revert b
      decide
    have row : (l.1 : Nat) < 2 := l.1.isLt
    have slot : j < 7 := by omega
    rw [dims]
    show (decide ((l.1 : Nat) < 2) && (decide (j < 7) && true)) = true
    rw [decide_eq_true row, decide_eq_true slot]
    rfl

/-- Six slots are folded in three stages: 1 + 2 + … + 6 is 21, the greatest value is 6, and in the second
row they are 81 and 16. -/
theorem code_folds_sixSlots : ∃ code,
    (Tree.code sixBuffers [.query .localId 0] (.query .localId 1) 6 : Generated Code) = .ok code ∧
      code.steps.count .barrier = 3 ∧
      Inevitable (GroupMove sixLanes sixWords soleGroup)
        (fun threads k => (∀ l, (threads l).todo = []) ∧ ∀ l : sixLanes.Lane, ∀ b ∈ sixBuffers,
          (result b.1 [.query .localId 0]).value? (sixLanes.worker soleGroup l) sixWords sixNames k =
            some fun _ => match b.2 with
              | .add => if (l.1 : Nat) = 0 then 21 else 81
              | _ => if (l.1 : Nat) = 0 then 6 else 16)
        (fun _ => ⟨[.run code], sixNames⟩) countedSlots := by
  have : Nonempty sixLanes.Lane := ⟨(⟨0, by decide⟩, ⟨0, by decide⟩, ⟨0, by decide⟩)⟩
  have lawful (op : ReduceOp) : sixWords.Lawful .int op := Elements.words_lawful .int _ _ rfl op
  obtain ⟨found, code, -, ok, -, -, barriers, -, folds⟩ := code_folds soleGroup sixWords sixSlots
    sixBuffers [.query .localId 0] (.query .localId 1) 6 (fun _ => sixNames) (by decide) (by decide)
    sixSlots_full (by decide) (fun b _ => (lawful b.2).assoc) (fun b _ => (lawful b.2).comm)
    sixNames_find
  have values : ∀ i < 2, ∀ b ∈ sixBuffers, slotFold (sixWords.reduce b.2) (fun j =>
      (countedSlots (.shared soleGroup.triple b.1.name ([i] ++ [j]))).value) 5 = match b.2 with
        | .add => if i = 0 then 21 else 81
        | _ => if i = 0 then 6 else 16 := by
    decide +kernel
  refine ⟨code, ok, barriers.trans (by decide +kernel), (folds countedSlots).1.weaken ?_⟩
  rintro threads k ⟨ended, reached⟩
  refine ⟨ended, fun l b member => (reached l b member).trans (congrArg some (funext fun _ => ?_))⟩
  exact values l.1 l.1.isLt b member

end Tree

end TunedKernel
