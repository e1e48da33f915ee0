/-
**Statements over packed elements.**

A packed element of a vector holds so many elements side by side, its lanes. A store into one computes all
lanes from the memory in front of it.

* `lanePoint`, `lanePoints` — the points of the lanes of a packed element.
* `Statement.write_packed` — where no lane reads what is stored into another one, such a store carries the
  statement out at one lane after the other.
* `Statement.packs_lead` — the steps of statements carry them out at the lanes of a packed element.
-/

import TunedKernel.Proofs.Batch.Sweeping

namespace TunedKernel

variable {α : Type}

/-- The point of a lane. The lanes of a value repeat. -/
def lanePoint (width i lane : Nat) : Point := { index := i * width + lane % width }

/-- The points of the lanes of a packed element. -/
def lanePoints (width i : Nat) : List Point := (List.range width).map (lanePoint width i)

theorem lanePoint_of_lt {width i lane : Nat} (below : lane < width) :
    lanePoint width i lane = { index := i * width + lane } :=
  congrArg (fun n => ({ index := i * width + n } : Point)) (Nat.mod_eq_of_lt below)

theorem lanePoint_injOn {width i lane lane' : Nat} (below : lane < width) (below' : lane' < width)
    (same : lanePoint width i lane = lanePoint width i lane') : lane = lane' := by
  rw [lanePoint_of_lt below, lanePoint_of_lt below'] at same
  exact Nat.add_left_cancel (congrArg Point.index same)

theorem nodup_lanePoints (width i : Nat) : (lanePoints width i).Nodup :=
  List.Nodup.map_on (fun _ below _ below' => lanePoint_injOn (List.mem_range.mp below)
    (List.mem_range.mp below')) List.nodup_range

theorem lanePoint_mem {width i lane : Nat} (below : lane < width) :
    lanePoint width i lane ∈ lanePoints width i :=
  List.mem_map_of_mem (List.mem_range.mpr below)

/-- A store into a spot. -/
theorem Station.Leads.putSpot {q : Station α} {names : Names α} {m : Memory α}
    {goal : Names α → Memory α → Prop} {target : Term} {op : AssignOp} {value : Term} {spot : Spot}
    {x : Nat → α} {code : Code} (access : ∀ name, target ≠ .name name)
    (here : target.spot? q.worker names = some spot) (inside : ∀ l, spot.place l ∈ q.reads ∩ q.writes)
    (gives : q.Gives names m value x)
    (next : q.Leads code names (m.write spot fun l cell =>
      ⟨q.elements.store op cell.value (x l), cell.history ++ [.store target op value]⟩) goal) :
    q.Leads (.step (.store target op value) code) names m goal := by
  refine step ((Step.within_store access op value).mpr ⟨gives.2, fun spot' found => ?_⟩) ?_ next
  · cases here.symm.trans found
    exact inside
  · rw [Step.exec?_store access, here, gives.1]
    rfl

namespace Statement

variable {r : Reading α} {entry : Entry α} {v : VectorOperand} {width i : Nat}

/-- **A store into a packed element carries its statement out at one lane after the other**, where no lane
reads what is stored into another one. -/
theorem write_packed (target : entry.statement.target = .vector v)
    (apart : Apart r.bindings {point | point ∈ lanePoints width i} [entry.statement]) :
    r.memory.write (Spot.packed v.name width i) (fun lane =>
      entry.statement.outcome r entry.product (lanePoint width i lane) entry.store) =
        sweep r (lanePoints width i) entry := by
  suffices general : ∀ n ≤ width, (List.range n).foldl (Memory.writeLane (Spot.packed v.name width i)
      fun lane => entry.statement.outcome r entry.product (lanePoint width i lane) entry.store) r.memory =
        sweep r ((List.range n).map (lanePoint width i)) entry from general width le_rfl
  intro n
  induction n with
  | zero => exact fun _ => rfl
  | succ n ih =>
    intro le
    have stored : entry.statement.target.place? r.bindings (lanePoint width i n) =
        some ((Spot.packed v.name width i).place n) := by
      rw [target]
      rfl
    rw [List.range_succ, List.foldl_append, List.map_append, sweep_append, ih (Nat.le_of_succ_le le)]
    -- The lanes so far have left alone what this one reads.
    have kept (leaf : Expr) (reads : leaf ∈ entry.statement.value.leaves) (place : Place)
        (here : leaf.place? r.bindings (lanePoint width i n) = some place) :
        sweep r ((List.range n).map (lanePoint width i)) entry place = r.memory place := by
      refine sweep_of_ne fun point member stored' => ?_
      obtain ⟨lane, earlier, rfl⟩ := List.mem_map.mp member
      replace earlier := List.mem_range.mp earlier
      have one := List.mem_singleton_self entry.statement
      refine Nat.ne_of_lt earlier (lanePoint_injOn (i := i) (earlier.trans le) le ?_)
      exact apart _ one _ one _ (lanePoint_mem (earlier.trans le)) _ (lanePoint_mem le) place stored' leaf
        (List.mem_cons_of_mem _ reads) here
    generalize sweep r ((List.range n).map (lanePoint width i)) entry = before at kept
    show Function.update before _ _ = carry { r with memory := before } (lanePoint width i n) entry
    rw [carry_eq (r := { r with memory := before }) stored]
    refine congrArg (Function.update before _) ?_
    exact Eq.symm (entry.statement.outcome_congr rfl rfl rfl kept)

/-- **The steps of statements carry them out at the lanes of a packed element**, each of them at all lanes
before the next one. -/
theorem packs_lead {q : Station α} {names : Names α} {m : Memory α} {statements : List Statement}
    {store : Statement → Step} {scope : Scope} (host : String → α) (bindings : Bindings)
    (width i : Nat) (product : α)
    (ok : ∀ s ∈ statements, s.storeStep scope = .ok (store s))
    (means : ∀ m', scope.Means q names m' width (lanePoint width i) fun _ => product)
    (index : ∀ t, scope.index = some t → t.number? q.worker names = some i)
    (targets : ∀ s ∈ statements, ∃ v, s.target = .vector v ∧
      ∀ lane, .global v.name (lanePoint width i lane).index ∈ q.reads ∩ q.writes)
    (known : ∀ s ∈ statements, s.target.Known width host bindings names ∧
      ∀ leaf ∈ s.value.leaves, leaf.Known width host bindings names)
    (reads : ∀ s ∈ statements, ∀ leaf ∈ s.value.leaves, ∀ lane place,
      leaf.place? bindings (lanePoint width i lane) = some place → place ∈ q.reads)
    (apart : Apart bindings {point | point ∈ lanePoints width i} statements) :
    q.Leads (Code.ofSteps (statements.map store)) names m fun names' m' => names' = names ∧
      m' = sweepAll ⟨q.elements, host, bindings, m⟩ (lanePoints width i)
        (statements.map fun s => ⟨s, store s, product⟩) := by
  refine Station.Leads.each (fun before names' m' => names' = names ∧
    m' = sweepAll ⟨q.elements, host, bindings, m⟩ (lanePoints width i)
      (before.map fun s => ⟨s, store s, product⟩)) ⟨rfl, rfl⟩ ?_
  rintro before s rest all names' m' ⟨rfl, state⟩
  have member : s ∈ statements := all ▸ List.mem_append_right _ List.mem_cons_self
  obtain ⟨v, target, inside⟩ := targets s member
  obtain ⟨targetTerm, valueTerm, first, second, is⟩ := storeStep_eq_ok (ok s member)
  have single : Apart bindings {point | point ∈ lanePoints width i} [s] := fun s' one s'' other => by
    obtain rfl := List.mem_singleton.mp one
    obtain rfl := List.mem_singleton.mp other
    exact apart _ member _ member
  -- The target is the packed element at the index in scope.
  rw [target] at first
  obtain ⟨here, known'⟩ := known s member
  rw [target] at here
  cases addressed : scope.index with
  | none => simp [Expr.term, VectorOperand.term, addressed] at first
  | some t =>
    simp only [Expr.term, VectorOperand.term, addressed] at first
    cases first
    rw [is]
    refine .putSpot (fun name => Term.noConfusion) (Term.spot?_buffer here (index t addressed)) inside
      (Expr.gives (means m') s.value second known' fun leaf reading => reads s member leaf reading)
      (.done ⟨rfl, ?_⟩)
    rw [List.map_append, List.map_singleton, sweepAll_append_singleton, ← state]
    have written := write_packed (r := ⟨q.elements, host, bindings, m'⟩) (i := i)
      (show (⟨s, store s, product⟩ : Entry _).statement.target = .vector v from target) single
    rw [← written, is]
    rfl

end Statement

end TunedKernel
