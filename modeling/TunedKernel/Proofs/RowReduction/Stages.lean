/-
**What a group does in a row reduction, trip by trip.**

* `Done`, `progress` — the elements that a group has stored into before a trip, and the memory then.
* `Progress` — the state of a group before a trip.
* `trip_leads` — a trip takes the group from one to the next; `walk_leads`, `group_leads` — all trips,
  and the whole code.
-/

import TunedKernel.Proofs.RowReduction.Worker

namespace TunedKernel.RowReduction

variable {α : Type} {r : Reading α} {op : Operation} {k : Parts} {names₀ : Names α}
  {g : (launch k.record).Group} {t : Nat}

/-! ### Progress -/

/-- The elements that the workers of a group have stored into before a trip. -/
def Done (r : Reading α) (k : Parts) (g : (launch k.record).Group) (t : Nat) (x : String) (n : Nat) :
    Prop :=
  x ∈ k.targets ∧ n < k.rows.size r.bindings ∧ ∃ l, ∃ t' < t, n = rowOf g l t'

open Classical in
/-- The memory of a group before a trip. -/
noncomputable def progress (r : Reading α) (k : Parts) (g : (launch k.record).Group) (t : Nat) :
    Memory α
  | .global x n => if Done r k g t x n then carried r k n (.global x n) else r.memory (.global x n)
  | place => r.memory place

theorem progress_done {x : String} {n : Nat} (done : Done r k g t x n) :
    progress r k g t (.global x n) = carried r k n (.global x n) := if_pos done

theorem progress_other {x : String} {n : Nat} (other : ¬ Done r k g t x n) :
    progress r k g t (.global x n) = r.memory (.global x n) := if_neg other

theorem progress_zero (x : String) (n : Nat) :
    progress r k g 0 (.global x n) = r.memory (.global x n) :=
  progress_other fun ⟨_, _, _, _, before, _⟩ => Nat.not_lt_zero _ before

/-- On a trip nothing is stored into but the rows of the workers. -/
theorem progress_succ (x : String) {n : Nat} (other : ∀ l, n ≠ rowOf g l t) :
    progress r k g (t + 1) (.global x n) = progress r k g t (.global x n) := by
  by_cases done : Done r k g t x n
  · obtain ⟨target, inside, l, t', less, same⟩ := done
    rw [progress_done ⟨target, inside, l, t', less, same⟩,
      progress_done ⟨target, inside, l, t', Nat.lt_succ_of_lt less, same⟩]
  · rw [progress_other done, progress_other]
    rintro ⟨target, inside, l, t', less, same⟩
    rcases Nat.lt_succ_iff_lt_or_eq.mp less with earlier | rfl
    · exact done ⟨target, inside, l, t', earlier, same⟩
    · exact other l same

/-- What the workers of a group have stored into are elements of theirs. -/
theorem exists_cell_of_done (setting : Setting r op k names₀) {x : String} {n : Nat}
    (done : Done r k g t x n) :
    ∃ l, (x, n) ∈ (footing k (k.rows.size r.bindings)).cells g l := by
  obtain ⟨target, inside, l, t', -, rfl⟩ := done
  exact ⟨(l.1, ⟨0, setting.valid.localSize1⟩, l.2.2), rfl, target, inside, t', rfl⟩

/-- The state of a group before a trip. -/
structure Progress (r : Reading α) (k : Parts) (names₀ : Names α) (g : (launch k.record).Group)
    (t : Nat) (stage : Stage (launch k.record) α) : Prop where
  view : (footing k (k.rows.size r.bindings)).Shows g (layout k.record).publishing
    (progress r k g t) stage
  named : ∀ l, Named k names₀ l (stage.names l)

/-! ### A trip -/

theorem trip_eq (k : Parts) : Code.ofSteps (Walk.uniform k.outer 0 k.rows.term).inside ++ k.trip =
    k.collect ++ (k.tree ++ (k.finish ++ Code.ofSteps [.barrier])) := by
  show Code.step _ (_ ++ (_ ++ (_ ++ (_ ++ (_ ++ (_ ++ Code.done)))))) =
    Code.step _ ((_ ++ (_ ++ _)) ++ (_ ++ (_ ++ _)))
  rw [Code.append_done, Code.append_assoc, Code.append_assoc]

/-- **On a trip the rows of the workers are folded, and their statements carried out.** -/
theorem trip_leads (setting : Setting r op k names₀) {here : Stage (launch k.record) α}
    (progress' : Progress r k names₀ g t here)
    (counter : ∀ l, here.names l (k.outer ++ "_base") = some (.index
      (g.1 * k.record.localSize0.toNat +
        t * (k.record.numGroups0.toNat * k.record.localSize0.toNat)))) :
    Stage.Leads r.elements g ((footing k (k.rows.size r.bindings)).reads g)
      ((footing k (k.rows.size r.bindings)).writes g) (k.collect ++ (k.tree ++ (k.finish ++
        Code.ofSteps [.barrier]))) here (Progress r k names₀ g (t + 1)) := by
  obtain ⟨view, named⟩ := progress'
  have separate' := separate k (k.rows.size r.bindings)
  have inputs {use : Use (launch k.record)} {stage : Stage (launch k.record) α}
      (view : (footing k (k.rows.size r.bindings)).Shows g use (progress r k g t) stage)
      (l : (launch k.record).Lane) (x : String) (n : Nat) (other : x ∉ k.targets) :
      stage.seen l (.global x n) = r.memory (.global x n) := by
    rw [view.read separate' (Or.inr other), progress_other fun done => other done.1]
  -- Every worker hands its part of a row to the group.
  have each (l : (launch k.record).Lane) : (here.phase.station r.elements g l).Leads k.collect
      (here.names l) (here.seen l) fun names' m' =>
      names' k.outer = some (.index (rowOf g l t)) ∧
      (∀ f ∈ k.folded, (m' (.shared g.triple (f.buffer k.type k.dims).name
        ((layout k.record).own l))).value = content r k f (rowOf g l t) l.2.1) ∧
      ∀ x n, m' (.global x n) = here.seen l (.global x n) := by
    rw [view.phase]
    exact collect_leads setting (named l) (inputs view l) (counter l)
  refine .append ((Stage.Leads.work each).weaken ?_)
  rintro stage₁ same₁ ⟨phase₁, start₁, collected⟩
  have named₁ (l : (launch k.record).Lane) : Named k names₀ l (stage₁.names l) :=
    (named l).after (same₁ l) fun x => active_of_collect
  have view₁ := view.keep phase₁ start₁ fun l => (collected l).2.2
  -- The group folds the parts.
  refine .append ((Folded.tree_leads (x := fun f row lane => content r k f
      (g.1 * k.record.localSize0.toNat +
        t * (k.record.numGroups0.toNat * k.record.localSize0.toNat) + row.headD 0) lane)
    setting.accepted.numbered.nodup setting.accepted.tree setting.valid.localSize1 separate'
    (full k.record) setting.lawful (fun l => (named₁ l).finds) view₁
    fun l => (collected l).2.1).weaken ?_)
  rintro stage₂ - ⟨names₂, ⟨use, view₂, reads⟩, folds⟩
  -- The first worker of a row carries out the statements.
  have finish (l : (launch k.record).Lane) : (stage₂.phase.station r.elements g l).Leads k.finish
      (stage₂.names l) (stage₂.seen l) fun _ m' =>
      (l.2.1.val = 0 → rowOf g l t < k.rows.size r.bindings → ∀ x ∈ k.targets,
        m' (.global x (rowOf g l t)) = carried r k (rowOf g l t) (.global x (rowOf g l t))) ∧
      ∀ x n, ¬ (l.2.1.val = 0 ∧ rowOf g l t < k.rows.size r.bindings ∧ x ∈ k.targets ∧
        n = rowOf g l t) → m' (.global x n) = stage₂.seen l (.global x n) := by
    rw [view₂.phase]
    refine finish_leads setting (names₂ ▸ named₁ l) (names₂ ▸ (collected l).1) ⟨t, rfl⟩
      (inputs view₂ l) (fun x target first inside => ?_) (reads l) fun first inside f member => ?_
    · refine (view₂.cells l x _ ⟨first, target, inside, t, rfl⟩).trans (progress_other ?_)
      rintro ⟨-, -, l', t', less, same⟩
      exact Nat.ne_of_gt less (rowOf_unique same).2.2
    · rw [folds l first f member]
      exact fold_content setting member inside
  refine .append ((Stage.Leads.work finish).weaken ?_)
  rintro stage₃ same₃ ⟨phase₃, start₃, finished⟩
  have view₃ : (footing k (k.rows.size r.bindings)).Shows g use (progress r k g (t + 1)) stage₃ := by
    refine view₂.change phase₃ start₃ ?_ ?_ ?_
    · rintro l x n ⟨first, target, inside, t', rfl⟩
      by_cases now : t' = t
      · subst now
        refine ((finished l).1 first inside x target).trans (progress_done ?_).symm
        exact ⟨target, inside, l, t', Nat.lt_succ_self t', rfl⟩
      · have other (l' : (launch k.record).Lane) : rowOf g l t' ≠ rowOf g l' t :=
          fun same => now (rowOf_unique same).2.2
        refine ((finished l).2 x _ fun here => other l here.2.2.2).trans ?_
        exact (view₂.cells l x _ ⟨first, target, inside, t', rfl⟩).trans
          (progress_succ x other).symm
    · intro l x n other
      refine (finished l).2 x n ?_
      rintro ⟨first, inside, target, rfl⟩
      exact other ⟨first, target, inside, t, rfl⟩
    · intro x n none
      have free (t : Nat) : ¬ Done r k g t x n := fun done => by
        obtain ⟨l, cell⟩ := exists_cell_of_done setting done
        exact none l cell
      rw [progress_other (free _), progress_other (free _)]
  refine (view₃.barrier separate' (full k.record).publishing_apart).weaken ?_
  rintro stage₄ - ⟨view₄, names₄, -⟩
  refine ⟨view₄, fun l => ?_⟩
  rw [names₄]
  exact (names₂ ▸ named₁ l : Named k names₀ l (stage₂.names l)).after (same₃ l) fun x bound => by
    rw [binders_finish setting.accepted] at bound
    cases bound

/-! ### All trips -/

/-- **Trip by trip a group carries out the statements for all of its rows.** -/
theorem walk_leads (setting : Setting r op k names₀) {stage : Stage (launch k.record) α}
    (begun : Progress r k names₀ g 0 stage) :
    Stage.Leads r.elements g ((footing k (k.rows.size r.bindings)).reads g)
      ((footing k (k.rows.size r.bindings)).writes g)
      ((Walk.uniform k.outer 0 k.rows.term).around k.trip) stage
      (Progress r k names₀ g (trips (g.1 * k.record.localSize0.toNat)
        (k.record.numGroups0.toNat * k.record.localSize0.toNat) (k.rows.size r.bindings))) := by
  have positive := Nat.mul_pos setting.valid.numGroups0 setting.valid.localSize0
  have active {x : String} (bound : x ∈ (k.outer ++ "_base") :: (Code.ofSteps
      [.declare .index k.outer (.name (k.outer ++ "_base") + .query .localId 0)] ++
        k.trip).binders) : k.Active x := active_of_binders setting.accepted bound
  have kept : k.outer ++ "_base" ∉ (Code.ofSteps
      [.declare .index k.outer (.name (k.outer ++ "_base") + .query .localId 0)] ++
        k.trip).binders := by
    have distinct := (List.nodup_cons.mp (counters_nodup k)).1
    intro bound
    rcases Code.mem_binders_append.mp bound with outer | bound
    · exact distinct (List.mem_cons.mpr (Or.inl (List.mem_singleton.mp outer)))
    · rcases binders_trip setting.accepted bound with inner | ⟨f, -, same⟩
      · exact distinct (List.mem_cons_of_mem _ (List.mem_singleton.mpr inner))
      · have letter := counters_initial k (x := k.outer ++ "_base") (by simp)
        rw [same, f.initial_sumName] at letter
        exact absurd letter (by decide)
  have rebind {t n : Nat} {here : Stage (launch k.record) α} (now : Progress r k names₀ g t here) :
      Progress r k names₀ g t (here.bind (k.outer ++ "_base") (.index n)) :=
    ⟨now.view.bind _ _, fun l => (now.named l).after
      ((Names.Same.refl [k.outer ++ "_base"] _).bind List.mem_cons_self _) fun x member =>
        List.mem_singleton.mp member ▸ Or.inl List.mem_cons_self⟩
  refine Stage.Leads.range (a := g.1 * k.record.localSize0.toNat)
    (d := k.record.numGroups0.toNat * k.record.localSize0.toNat) (b := k.rows.size r.bindings)
    positive (fun l => ⟨positive, fun _ _ => rfl, fun names' same => ?_,
    fun _ _ => rfl⟩) (Progress r k names₀ g) kept (rebind begun) ?_ ?_
  · exact Extent.number?_term
      (setting.extents names' ((begun.named l).after same fun x => active).settled).1
  · intro t _ here _ counter now
    rw [trip_eq]
    exact (trip_leads setting now counter).weaken fun next _ => rebind
  · exact fun here _ all => .done all

theorem prologue_leads (setting : Setting r op k names₀) {q : Station α}
    {l : (launch k.record).Lane} (worker : q.worker = (launch k.record).worker g l) {m : Memory α} :
    q.Leads k.prologue names₀ m fun names' m' => m' = m ∧ Named k names₀ l names' := by
  have within {x : String} (bound : x ∈ k.prologue.binders) : x ∈ k.body.binders :=
    Code.mem_binders_append.mpr (Or.inl bound)
  have leads : q.Leads k.prologue names₀ m fun names' m' => m' = m ∧
      names' "lid0" = some (.index l.1) ∧ names' "lid1" = some (.index l.2.1) ∧
      ∀ f ∈ k.folded, names' (f.buffer k.type k.dims).name = some (.sharedArray k.dims) := by
    refine .append ((Folded.declareLocals_lead setting.accepted.numbered.nodup).weaken ?_)
    rintro names' _ - ⟨rfl, declared⟩
    have first : (Term.query .localId 0).number? q.worker names' = some l.1 := by
      rw [worker]
      rfl
    have second : (Term.query .localId 1).number? q.worker
        (names'.bind "lid0" (.index l.1)) = some l.2.1 := by
      rw [worker]
      rfl
    refine .declareIndex first (.declareIndex second (.done ⟨rfl, ?_, Names.bind_self .., ?_⟩))
    · rw [Names.bind_of_ne (by decide), Names.bind_self]
    · intro f member
      have other {x : String} (letter : initial x = some 'l') :
          (f.buffer k.type k.dims).name ≠ x := by
        refine ne_of_initial ?_
        rw [f.initial_buffer, letter]
        decide
      rw [Names.bind_of_ne (other (by decide)), Names.bind_of_ne (other (by decide)),
        declared f member]
  refine leads.weaken ?_
  rintro names' m' same ⟨kept, lid0, lid1, arrays⟩
  exact ⟨kept, same.mono fun x => within, lid0, lid1, arrays⟩

/-- **A group carries out the statements for the rows of its workers.** -/
theorem group_leads (setting : Setting r op k names₀) :
    Stage.Leads r.elements g ((footing k (k.rows.size r.bindings)).reads g)
      ((footing k (k.rows.size r.bindings)).writes g) k.body
      (.first ((footing k (k.rows.size r.bindings)).phase g (layout k.record).publishing) names₀
        r.memory) fun last => ∀ m, last.phase.Joins last.start last.seen m → ∀ l x n,
          (x, n) ∈ (footing k (k.rows.size r.bindings)).cells g l →
            m (.global x n) = carried r k n (.global x n) := by
  have positive := Nat.mul_pos setting.valid.numGroups0 setting.valid.localSize0
  refine .append ((Stage.Leads.work fun l => prologue_leads setting rfl).weaken ?_)
  rintro stage - ⟨phase, start, entered⟩
  have view : (footing k (k.rows.size r.bindings)).Shows g (layout k.record).publishing
      (progress r k g 0) stage :=
    ((Footing.Shows.first names₀ r.memory).keep phase start fun l x n => by
      rw [(entered l).1]).congr progress_zero
  refine (walk_leads setting ⟨view, fun l => (entered l).2⟩).weaken ?_
  rintro last - ⟨view', -⟩ m joins l x n cell
  rw [view'.phase] at joins
  rw [Footing.joins_cell joins cell, view'.cells l x n cell]
  obtain ⟨-, target, inside, t, rfl⟩ := cell
  refine progress_done ⟨target, inside, l, t, (lt_trips_iff positive).mpr ?_, rfl⟩
  exact (Nat.le_add_right _ _).trans_lt inside

end TunedKernel.RowReduction
