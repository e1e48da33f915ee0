/-
**What one worker does in a matrix product.**

* `Ready` — the variables of a worker after the prologue; `prologue_leads` sets them up, and no code
  after it binds them anew.
* `clear_leads`, `fetch_leads`, `advance_leads`, `depth_leads`, `finish_leads` — what the parts of the
  code leave in the registers, in the local tiles and in the result.
-/

import TunedKernel.Proofs.Execution.Split
import TunedKernel.Proofs.MatrixProduct.Emission

namespace TunedKernel.MatrixProduct

variable {α : Type} {q : Station α} {p : ProductTuning} {type : NumericType}
  {names names' : Names α} {m : Memory α}

/-! ### Variables of a worker -/

/-- The number of a worker in its group. -/
def flat (p : ProductTuning) (w : Worker) : Nat :=
  w.lane.first + w.lane.second * p.localSize0.toNat

/-- The names that the code after the prologue binds. -/
def loopNames : List String := ["k0", "a", "b", "k", "kk", "m", "n", "row", "col"]

/-- The numbers of a worker in its group and in the launch, and those by which it fetches. -/
structure Numbered (p : ProductTuning) (w : Worker) (names : Names α) : Prop where
  lid0 : names "lid0" = some (.index w.lane.first)
  lid1 : names "lid1" = some (.index w.lane.second)
  gm : names "gm" = some (.index (w.group.first * (p.localSize0.toNat * p.ms.toNat)))
  gn : names "gn" = some (.index (w.group.second * (p.localSize1.toNat * p.ns.toNat)))
  fid0 : p.staged = true → names "fid0" = some (.index (flat p w % p.localFetch0.toNat))
  fid1 : p.staged = true → names "fid1" = some (.index (flat p w / p.localFetch0.toNat))

/-- The variables of a worker after the prologue. -/
structure Ready (p : ProductTuning) (w : Worker) (names : Names α) : Prop extends
    Numbered p w names where
  rC : names "rC" = some (.ownArray [p.ms.toNat, p.ns.toNat])
  rA : names "rA" = some (.ownArray [p.ks.toNat, p.ms.toNat])
  rB : names "rB" = some (.ownArray [p.ks.toNat, p.ns.toNat])
  left : p.stageLeft = true → names "lA" =
    some (.sharedArray [p.kl.toNat, p.localSize0.toNat * p.ms.toNat + 1])
  right : p.stageRight = true → names "lB" =
    some (.sharedArray [p.kl.toNat, p.localSize1.toNat * p.ns.toNat + 1])

/-- The variables outlast all code that binds other names. -/
theorem Ready.after {w : Worker} (ready : Ready p w names) (same : names.Same loopNames names') :
    Ready p w names' where
  lid0 := (same _ (by decide)).trans ready.lid0
  lid1 := (same _ (by decide)).trans ready.lid1
  gm := (same _ (by decide)).trans ready.gm
  gn := (same _ (by decide)).trans ready.gn
  rC := (same _ (by decide)).trans ready.rC
  rA := (same _ (by decide)).trans ready.rA
  rB := (same _ (by decide)).trans ready.rB
  fid0 staged := (same _ (by decide)).trans (ready.fid0 staged)
  fid1 staged := (same _ (by decide)).trans (ready.fid1 staged)
  left staged := (same _ (by decide)).trans (ready.left staged)
  right staged := (same _ (by decide)).trans (ready.right staged)

/-- The declarations of the local tiles in use. -/
theorem memories_leads :
    q.Leads (Code.ofSteps ((Tiling.of p type).memories.map Step.declareLocal)) names m
      fun names' m' => m' = m ∧
        (p.stageLeft = true → names' "lA" =
          some (.sharedArray [p.kl.toNat, p.localSize0.toNat * p.ms.toNat + 1])) ∧
        (p.stageRight = true → names' "lB" =
          some (.sharedArray [p.kl.toNat, p.localSize1.toNat * p.ns.toNat + 1])) := by
  have used : (Tiling.of p type).memories =
      (if p.stageLeft then [(Tiling.of p type).left] else []) ++
        if p.stageRight then [(Tiling.of p type).right] else [] := rfl
  rw [used]
  cases p.stageLeft <;> cases p.stageRight
  · exact .done ⟨rfl, nofun, nofun⟩
  · exact .declareLocal (.done ⟨rfl, nofun, fun _ => Names.bind_self ..⟩)
  · exact .declareLocal (.done ⟨rfl, fun _ => Names.bind_self .., nofun⟩)
  · refine .declareLocal (.declareLocal (.done ⟨rfl, fun _ => ?_, fun _ => Names.bind_self ..⟩))
    exact (Names.bind_of_ne (show "lA" ≠ "lB" by decide)).trans (Names.bind_self ..)

/-- The numbers of a worker in its group and in the launch. -/
def numberSteps (t : Tiling) : List Step :=
  [.declare .index "lid0" (.query .localId 0), .declare .index "lid1" (.query .localId 1),
    .declare .index "gm" (.query .groupId 0 * .count t.ml),
    .declare .index "gn" (.query .groupId 1 * .count t.nl)]

/-- The numbers by which the workers fetch. -/
def fetchSteps (p : ProductTuning) : List Step :=
  if p.staged then
    [.declare .index "flat" (v "lid0" + v "lid1" * .count p.localSize0.toNat),
      .declare .index "fid0" (v "flat" % .count p.localFetch0.toNat),
      .declare .index "fid1" (v "flat" / .count p.localFetch0.toNat)]
  else []

/-- The registers of a worker. -/
def registerSteps (p : ProductTuning) (type : NumericType) : List Step :=
  [.declareArray (.scalar type) "rC" [p.ms.toNat, p.ns.toNat],
    .declareArray (.scalar type) "rA" [p.ks.toNat, p.ms.toNat],
    .declareArray (.scalar type) "rB" [p.ks.toNat, p.ns.toNat]]

theorem prologue_eq (t : Tiling) :
    prologue t type = Code.ofSteps (t.memories.map Step.declareLocal) ++
      (Code.ofSteps (numberSteps t ++ fetchSteps t.record) ++
        Code.ofSteps (registerSteps t.record type)) := by
  unfold prologue
  rw [Code.ofSteps_append, List.append_assoc, Code.ofSteps_append, Code.append_assoc]
  rfl

/-- The declarations of its numbers turn the names of a worker into others. -/
theorem exists_declares_numbers (type : NumericType) (w : Worker) (names : Names α) (positive : 0 < p.localFetch0.toNat) :
    ∃ names', names.Declares w (numberSteps (.of p type) ++ fetchSteps p) names' ∧
      names.Same ["lid0", "lid1", "gm", "gn", "flat", "fid0", "fid1"] names' ∧
      Numbered p w names' := by
  have number₀ : ∀ names' : Names α,
      (Term.query .groupId 0 * .count (Tiling.of p type).ml).number? w names' =
        some (w.group.first * (p.localSize0.toNat * p.ms.toNat)) :=
    fun _ => Term.number?_mul rfl rfl
  have number₁ : ∀ names' : Names α,
      (Term.query .groupId 1 * .count (Tiling.of p type).nl).number? w names' =
        some (w.group.second * (p.localSize1.toNat * p.ns.toNat)) :=
    fun _ => Term.number?_mul rfl rfl
  unfold fetchSteps numberSteps
  cases staged : p.staged with
  | false =>
    refine ⟨_, .index rfl (.index rfl (.index (number₀ _) (.index (number₁ _) .nil))), ?_, ?_⟩
    · intro x other
      simp_all [Names.bind_apply]
    · constructor <;> simp [Names.bind_apply, staged]
  | true =>
    have number (names' : Names α) (lid0 : names' "lid0" = some (.index w.lane.first))
        (lid1 : names' "lid1" = some (.index w.lane.second)) :
        (v "lid0" + v "lid1" * .count p.localSize0.toNat).number? w names' = some (flat p w) :=
      Term.number?_add (Term.number?_name lid0) (Term.number?_mul (Term.number?_name lid1) rfl)
    have residue (names' : Names α) (at' : names' "flat" = some (.index (flat p w))) :
        (v "flat" % .count p.localFetch0.toNat).number? w names' =
          some (flat p w % p.localFetch0.toNat) :=
      Term.number?_mod (Term.number?_name at') rfl positive
    have quotient (names' : Names α) (at' : names' "flat" = some (.index (flat p w))) :
        (v "flat" / .count p.localFetch0.toNat).number? w names' =
          some (flat p w / p.localFetch0.toNat) :=
      Term.number?_div (Term.number?_name at') rfl positive
    refine ⟨_, .index rfl (.index rfl (.index (number₀ _) (.index (number₁ _) (.index (number _ ?_ ?_)
      (.index (residue _ ?_) (.index (quotient _ ?_) .nil)))))), ?_, ?_⟩
    · simp [Names.bind_apply]
    · simp [Names.bind_apply]
    · exact Names.bind_self ..
    · simp [Names.bind_apply]
    · intro x other
      simp_all [Names.bind_apply]
    · constructor <;> simp [Names.bind_apply]

/-- The names of a worker behind the declarations of its registers. -/
theorem Numbered.ready {w : Worker} (numbered : Numbered p w names)
    (left : p.stageLeft = true → names "lA" =
      some (.sharedArray [p.kl.toNat, p.localSize0.toNat * p.ms.toNat + 1]))
    (right : p.stageRight = true → names "lB" =
      some (.sharedArray [p.kl.toNat, p.localSize1.toNat * p.ns.toNat + 1])) :
    Ready p w (((names.bind "rC" (.ownArray [p.ms.toNat, p.ns.toNat])).bind "rA"
      (.ownArray [p.ks.toNat, p.ms.toNat])).bind "rB" (.ownArray [p.ks.toNat, p.ns.toNat])) := by
  have kept {x : String} (fresh : x ∉ ["rC", "rA", "rB"]) :
      (((names.bind "rC" (.ownArray [p.ms.toNat, p.ns.toNat])).bind "rA"
        (.ownArray [p.ks.toNat, p.ms.toNat])).bind "rB" (.ownArray [p.ks.toNat, p.ns.toNat])) x =
        names x := by
    simp only [List.mem_cons, List.not_mem_nil, or_false, not_or] at fresh
    rw [Names.bind_of_ne fresh.2.2, Names.bind_of_ne fresh.2.1, Names.bind_of_ne fresh.1]
  exact {
    lid0 := (kept (by decide)).trans numbered.lid0
    lid1 := (kept (by decide)).trans numbered.lid1
    gm := (kept (by decide)).trans numbered.gm
    gn := (kept (by decide)).trans numbered.gn
    fid0 := fun staged => (kept (by decide)).trans (numbered.fid0 staged)
    fid1 := fun staged => (kept (by decide)).trans (numbered.fid1 staged)
    rC := (Names.bind_of_ne (by decide)).trans ((Names.bind_of_ne (by decide)).trans
      (Names.bind_self ..))
    rA := (Names.bind_of_ne (by decide)).trans (Names.bind_self ..)
    rB := Names.bind_self ..
    left := fun staged => (kept (by decide)).trans (left staged)
    right := fun staged => (kept (by decide)).trans (right staged) }

/-- **The prologue sets up the variables of a worker**, and leaves memory alone. -/
theorem prologue_leads (positive : 0 < p.localFetch0.toNat) :
    q.Leads (prologue (.of p type) type) names m fun names' m' => m' = m ∧
      Ready p q.worker names' := by
  rw [prologue_eq]
  refine .append (memories_leads.weaken ?_)
  rintro names₁ m₁ - ⟨rfl, left, right⟩
  obtain ⟨names₂, declares, same, numbered⟩ :=
    exists_declares_numbers type q.worker names₁ positive
  refine declares.leads (.declareArray (.declareArray (.declareArray (.done ⟨rfl, ?_⟩))))
  exact numbered.ready (fun staged => (same _ (by decide)).trans (left staged))
    fun staged => (same _ (by decide)).trans (right staged)

/-! ### Registers -/

theorem mem_loopNames_of_constants : ∀ x ∈ Term.constants, x ∉ loopNames := by decide

/-- No name hides a constant of the language. -/
def Constants (names : Names α) : Prop := ∀ x ∈ Term.constants, names x = none

theorem Constants.after (constants : Constants names) (same : names.Same loopNames names') :
    Constants names' :=
  fun x known => (same x (mem_loopNames_of_constants x known)).trans (constants x known)

/-- A register at two indices. -/
theorem at_register {array : String} {d₁ d₂ i j : Nat} {row col : Term}
    (bound : names array = some (.ownArray [d₁, d₂])) (first : row.number? q.worker names = some i)
    (second : col.number? q.worker names = some j) (below₁ : i < d₁) (below₂ : j < d₂) :
    q.At names (register array row col) (.own q.worker.group q.worker.lane array [i, j]) :=
  Station.at_own bound (Term.mapM_pair first second) (Term.inside_pair below₁ below₂)

theorem own_injective {w : Worker} {array : String} {i j i' j' : Nat}
    (same : Place.own w.group w.lane array [i, j] = .own w.group w.lane array [i', j']) :
    i = i' ∧ j = j' := by
  simpa using same

/-- **The result's registers start from the neutral value.** -/
theorem clear_leads {op : ReduceOp} (ready : Ready p q.worker names) (owns : q.Owns)
    (constants : Constants names) :
    q.Leads (clear p (op.neutral type)) names m fun _ m' =>
      (∀ i < p.ms.toNat, ∀ j < p.ns.toNat,
        (m' (.own q.worker.group q.worker.lane "rC" [i, j])).value =
          q.elements.neutral type op) ∧ q.worker.Private m m' := by
  show q.Leads (Code.ofLoop (Walk.counted "m" _).loop (Code.ofLoop (Walk.counted "n" _).loop
    (put _ _))) _ _ _
  refine (Station.Leads.grid (fun i j => .own q.worker.group q.worker.lane "rC" [i, j])
    (fun _ _ cell => cell.value = q.elements.neutral type op) (Walk.counts_counted ..)
    (Walk.counts_counted ..) (show "m" ≠ "n" by decide) List.not_mem_nil List.not_mem_nil
    (fun i j i' j' _ _ _ _ => own_injective) ?_).weaken ?_
  · intro i j row col names' m' same atM atN _ _
    have same' : names.Same loopNames names' :=
      same.mono (show ∀ x ∈ ["m", "n"], x ∈ loopNames by decide)
    exact Station.Leads.store (fun _ => Term.noConfusion)
      (at_register (ready.after same').rC (Term.number?_name atM) (Term.number?_name atN)
        (visits_one.mp row) (visits_one.mp col)) (owns _ _) (.neutral (constants.after same'))
  · rintro _ m' - ⟨filled, others⟩
    refine ⟨fun i row j col => filled i j (visits_one.mpr row) (visits_one.mpr col), ?_⟩
    exact fun place other => others place fun i j _ _ => other _ _

/-- The operands' registers are loaded. -/
theorem load_leads {array counter : String} {extent : Nat} {source : Term} {value : Nat → Nat → α}
    (bound : names array = some (.ownArray [p.ks.toNat, extent])) (fresh : array ∉ ["kk", counter])
    (apart : "kk" ≠ counter) (owns : q.Owns)
    (gives : ∀ u < p.ks.toNat, ∀ i < extent, ∀ names' m', names.Same ["kk", counter] names' →
      names' "kk" = some (.index u) → names' counter = some (.index i) → q.worker.Private m m' →
      q.Gives names' m' source fun _ => value i u) :
    q.Leads (Walk.nest [Walk.counted "kk" p.ks.toNat, Walk.counted counter extent]
        (put (register array (v "kk") (v counter)) source)) names m fun _ m' =>
      (∀ u < p.ks.toNat, ∀ i < extent,
        (m' (.own q.worker.group q.worker.lane array [u, i])).value = value i u) ∧
        ∀ place, (∀ u i, place ≠ .own q.worker.group q.worker.lane array [u, i]) →
          m' place = m place := by
  show q.Leads (Code.ofLoop (Walk.counted "kk" _).loop (Code.ofLoop (Walk.counted counter _).loop
    (put _ _))) _ _ _
  refine (Station.Leads.grid (fun u i => .own q.worker.group q.worker.lane array [u, i])
    (fun u i cell => cell.value = value i u) (Walk.counts_counted ..)
    (Walk.counts_counted ..) apart List.not_mem_nil List.not_mem_nil
    (fun i j i' j' _ _ _ _ => own_injective) ?_).weaken ?_
  · intro u i depth row names' m' same atDepth atRow _ others
    have loaded := gives u (visits_one.mp depth) i (visits_one.mp row) names' m' same atDepth atRow
      fun place other => others place fun _ _ _ _ => other _ _
    exact Station.Leads.store (fun _ => Term.noConfusion)
      (at_register ((same _ fresh).trans bound) (Term.number?_name atDepth)
        (Term.number?_name atRow) (visits_one.mp depth) (visits_one.mp row)) (owns _ _) loaded
  · rintro _ m' - ⟨filled, others⟩
    refine ⟨fun u depth i row => filled u i (visits_one.mpr depth) (visits_one.mpr row), ?_⟩
    exact fun place other => others place fun u i _ _ => other u i

/-- The value of one more term for every element of the register block. -/
theorem accumulate_leads {combine : BinaryOp} {reduce : ReduceOp} {a b acc : Nat → Nat → α}
    (ready : Ready p q.worker names) (owns : q.Owns)
    (left : ∀ u < p.ks.toNat, ∀ i < p.ms.toNat,
      (m (.own q.worker.group q.worker.lane "rA" [u, i])).value = a i u)
    (right : ∀ u < p.ks.toNat, ∀ j < p.ns.toNat,
      (m (.own q.worker.group q.worker.lane "rB" [u, j])).value = b j u)
    (sums : ∀ i < p.ms.toNat, ∀ j < p.ns.toNat,
      (m (.own q.worker.group q.worker.lane "rC" [i, j])).value = acc i j) :
    q.Leads (Walk.nest [Walk.counted "kk" p.ks.toNat, Walk.counted "m" p.ms.toNat,
        Walk.counted "n" p.ns.toNat] (put (register "rC" (v "m") (v "n"))
          (reduce.combine (register "rC" (v "m") (v "n"))
            (combine.apply (register "rA" (v "kk") (v "m")) (register "rB" (v "kk") (v "n"))))))
      names m fun _ m' =>
      (∀ i < p.ms.toNat, ∀ j < p.ns.toNat,
        (m' (.own q.worker.group q.worker.lane "rC" [i, j])).value =
          ((List.range p.ks.toNat).map fun u => q.elements.binary combine (a i u) (b j u)).foldl
            (q.elements.reduce reduce) (acc i j)) ∧ q.worker.Private m m' := by
  show q.Leads (Code.ofLoop (Walk.counted "kk" _).loop (Code.ofLoop (Walk.counted "m" _).loop
    (Code.ofLoop (Walk.counted "n" _).loop (put _ _)))) _ _ _
  -- After `t` trips the first `t` terms are taken in, and only the sums have changed.
  refine .range (Walk.counts_counted ..) (fun t _ m' =>
      (∀ i < p.ms.toNat, ∀ j < p.ns.toNat,
        (m' (.own q.worker.group q.worker.lane "rC" [i, j])).value =
          ((List.range t).map fun u => q.elements.binary combine (a i u) (b j u)).foldl
            (q.elements.reduce reduce) (acc i j)) ∧
      ∀ place, (∀ i j, place ≠ .own q.worker.group q.worker.lane "rC" [i, j]) →
        m' place = m place)
    (show "kk" ∉ ["m", "n"] by decide) ⟨sums, fun _ _ => rfl⟩ ?_ ?_
  · rintro t below names₁ m₁ same atDepth ⟨sums₁, others₁⟩
    replace below : t < p.ks.toNat := by omega
    replace atDepth : names₁ "kk" = some (.index t) := by
      rw [Nat.mul_one, Nat.zero_add] at atDepth
      exact atDepth
    refine (Station.Leads.grid (fun i j => .own q.worker.group q.worker.lane "rC" [i, j])
      (fun i j cell => cell.value = ((List.range (t + 1)).map fun u =>
        q.elements.binary combine (a i u) (b j u)).foldl (q.elements.reduce reduce) (acc i j))
      (Walk.counts_counted ..) (Walk.counts_counted ..) (show "m" ≠ "n" by decide)
      List.not_mem_nil List.not_mem_nil (fun i j i' j' _ _ _ _ => own_injective) ?_).weaken ?_
    · intro i j row col names₂ m₂ same₂ atM atN here others₂
      have below₁ := visits_one.mp row
      have below₂ := visits_one.mp col
      have ready₂ := ready.after ((same.trans (same₂.mono fun x => List.mem_cons_of_mem _)).mono
        (show ∀ x ∈ ["kk", "m", "n"], x ∈ loopNames by decide))
      have atDepth₂ : names₂ "kk" = some (.index t) :=
        (same₂ "kk" (show "kk" ∉ ["m", "n"] by decide)).trans atDepth
      have element {array : String} {d₁ d₂ i j : Nat} {row col : Term}
          (bound : names₂ array = some (.ownArray [d₁, d₂]))
          (first : row.number? q.worker names₂ = some i)
          (second : col.number? q.worker names₂ = some j) (below₁ : i < d₁) (below₂ : j < d₂) :
          q.Gives names₂ m₂ (register array row col) fun _ =>
            (m₂ (.own q.worker.group q.worker.lane array [i, j])).value :=
        .at (at_register bound first second below₁ below₂) (owns _ _).1
      have sum := element ready₂.rC (Term.number?_name atM) (Term.number?_name atN) below₁ below₂
      have one := element ready₂.rA (Term.number?_name atDepth₂) (Term.number?_name atM) below below₁
      have two := element ready₂.rB (Term.number?_name atDepth₂) (Term.number?_name atN) below below₂
      have unchanged {array : String} {k l : Nat} (ne : array ≠ "rC") :
          m₂ (.own q.worker.group q.worker.lane array [k, l]) =
            m (.own q.worker.group q.worker.lane array [k, l]) := by
        have other (i j : Nat) : Place.own q.worker.group q.worker.lane array [k, l] ≠
            .own q.worker.group q.worker.lane "rC" [i, j] := fun same => ne (by simp_all)
        rw [others₂ _ fun i j _ _ => other i j, others₁ _ other]
      refine (Station.Leads.store (fun _ => Term.noConfusion)
        (at_register ready₂.rC (Term.number?_name atM) (Term.number?_name atN) below₁ below₂)
        (owns _ _) (.combine sum (.apply one two))).weaken ?_
      rintro _ m₃ - ⟨stored, frame⟩
      refine ⟨?_, frame⟩
      rw [stored, here, sums₁ i below₁ j below₂, unchanged (by decide), unchanged (by decide),
        left t below i below₁, right t below j below₂, List.range_succ, List.map_append,
        List.foldl_append]
      rfl
    · rintro _ m₂ - ⟨filled, others₂⟩
      refine ⟨fun i row j col => filled i j (visits_one.mpr row) (visits_one.mpr col), ?_⟩
      intro place other
      rw [others₂ place fun i j _ _ => other i j, others₁ place other]
  · rintro names₁ m₁ - ⟨sums₁, others₁⟩
    have all : trips 0 1 p.ks.toNat = p.ks.toNat := by
      unfold trips
      omega
    rw [all] at sums₁
    exact .done ⟨sums₁, fun place other => others₁ place fun i j => other _ _⟩

/-! ### Along the shared dimension -/

/-- The term that loads an element of the left operand. -/
def leftTerm (t : Tiling) (problem : Problem) : Term :=
  if t.record.stageLeft then t.left.access [v "k" + v "kk", blockRow t.record]
  else problem.lhs.element (resultRow t.record) (v "k0" + v "k" + v "kk")

/-- The term that loads an element of the right operand. -/
def rightTerm (t : Tiling) (problem : Problem) : Term :=
  if t.record.stageRight then t.right.access [v "k" + v "kk", blockCol t.record]
  else problem.rhs.element (v "k0" + v "k" + v "kk") (resultCol t.record)

/-- One step takes in `ks` terms for every element of the register block. -/
theorem advance_leads {problem : Problem} {a b acc : Nat → Nat → α}
    (ready : Ready p q.worker names) (owns : q.Owns)
    (left : ∀ u < p.ks.toNat, ∀ i < p.ms.toNat, ∀ names' m', names.Same ["kk", "m", "n"] names' →
      names' "kk" = some (.index u) → names' "m" = some (.index i) → q.worker.Private m m' →
      q.Gives names' m' (leftTerm (.of p type) problem) fun _ => a i u)
    (right : ∀ u < p.ks.toNat, ∀ j < p.ns.toNat, ∀ names' m', names.Same ["kk", "m", "n"] names' →
      names' "kk" = some (.index u) → names' "n" = some (.index j) → q.worker.Private m m' →
      q.Gives names' m' (rightTerm (.of p type) problem) fun _ => b j u)
    (sums : ∀ i < p.ms.toNat, ∀ j < p.ns.toNat,
      (m (.own q.worker.group q.worker.lane "rC" [i, j])).value = acc i j) :
    q.Leads (advance (.of p type) problem) names m fun _ m' =>
      (∀ i < p.ms.toNat, ∀ j < p.ns.toNat,
        (m' (.own q.worker.group q.worker.lane "rC" [i, j])).value =
          ((List.range p.ks.toNat).map fun u =>
            q.elements.binary problem.combine (a i u) (b j u)).foldl
              (q.elements.reduce problem.reduce) (acc i j)) ∧ q.worker.Private m m' := by
  have other {array array' : String} (ne : array ≠ array') (k l u i : Nat) :
      Place.own q.worker.group q.worker.lane array [k, l] ≠
        .own q.worker.group q.worker.lane array' [u, i] := fun same => ne (by simp_all)
  refine .append ((load_leads ready.rA (by decide) (by decide) owns
    fun u depth i row names' m' same => left u depth i row names' m'
      (same.mono (by decide))).weaken ?_)
  rintro names₁ m₁ same₁ ⟨loaded₁, others₁⟩
  replace same₁ : names.Same ["kk", "m"] names₁ := same₁
  have private₁ : q.worker.Private m m₁ := fun place none => others₁ place fun u i => none _ _
  refine .append ((load_leads (ready.after (same₁.mono (by decide))).rB (by decide) (by decide) owns
    fun u depth j col names' m' same atDepth atCol unchanged => right u depth j col names' m'
      ((same₁.mono (by decide)).trans (same.mono (by decide))) atDepth atCol
      (private₁.trans unchanged)).weaken ?_)
  rintro names₂ m₂ same₂ ⟨loaded₂, others₂⟩
  replace same₂ : names₁.Same ["kk", "n"] names₂ := same₂
  have private₂ : q.worker.Private m m₂ :=
    private₁.trans fun place none => others₂ place fun u i => none _ _
  have ready₂ := ready.after ((same₁.mono (by decide)).trans (same₂.mono (by decide)))
  have loaded (u : Nat) (depth : u < p.ks.toNat) (i : Nat) (row : i < p.ms.toNat) :
      (m₂ (.own q.worker.group q.worker.lane "rA" [u, i])).value = a i u := by
    rw [others₂ _ (other (by decide) u i), loaded₁ u depth i row]
  have sums₂ (i : Nat) (row : i < p.ms.toNat) (j : Nat) (col : j < p.ns.toNat) :
      (m₂ (.own q.worker.group q.worker.lane "rC" [i, j])).value = acc i j := by
    rw [others₂ _ (other (by decide) i j), others₁ _ (other (by decide) i j), sums i row j col]
  refine .append ((accumulate_leads ready₂ owns loaded loaded₂ sums₂).weaken ?_)
  rintro _ m₃ - ⟨sums₃, private₃⟩
  exact .done ⟨sums₃, private₂.trans private₃⟩

/-- A fold that goes on over further terms. -/
theorem foldl_range_add {β : Type} (op : α → β → α) (term : Nat → β) (x : α) (n c : Nat) :
    ((List.range (n + c)).map term).foldl op x =
      ((List.range c).map fun u => term (n + u)).foldl op (((List.range n).map term).foldl op x) := by
  rw [List.range_add, List.map_append, List.foldl_append, List.map_map]
  rfl

/-- **The steps along a tile take in all its terms** for every element of the register block. -/
theorem depth_leads (valid : p.Valid) {problem : Problem} {a b acc : Nat → Nat → α}
    (ready : Ready p q.worker names) (owns : q.Owns)
    (left : ∀ k u, k + u < p.kl.toNat → ∀ i < p.ms.toNat, ∀ names' m',
      names.Same ["k", "kk", "m", "n"] names' → names' "k" = some (.index k) →
      names' "kk" = some (.index u) → names' "m" = some (.index i) → q.worker.Private m m' →
      q.Gives names' m' (leftTerm (.of p type) problem) fun _ => a i (k + u))
    (right : ∀ k u, k + u < p.kl.toNat → ∀ j < p.ns.toNat, ∀ names' m',
      names.Same ["k", "kk", "m", "n"] names' → names' "k" = some (.index k) →
      names' "kk" = some (.index u) → names' "n" = some (.index j) → q.worker.Private m m' →
      q.Gives names' m' (rightTerm (.of p type) problem) fun _ => b j (k + u))
    (sums : ∀ i < p.ms.toNat, ∀ j < p.ns.toNat,
      (m (.own q.worker.group q.worker.lane "rC" [i, j])).value = acc i j) :
    q.Leads ((Walk.stepped "k" (.count p.kl.toNat) p.ks.toNat).around
        (advance (.of p type) problem)) names m fun _ m' =>
      (∀ i < p.ms.toNat, ∀ j < p.ns.toNat,
        (m' (.own q.worker.group q.worker.lane "rC" [i, j])).value =
          ((List.range p.kl.toNat).map fun u =>
            q.elements.binary problem.combine (a i u) (b j u)).foldl
              (q.elements.reduce problem.reduce) (acc i j)) ∧ q.worker.Private m m' := by
  rw [Walk.around_plain rfl rfl]
  refine .range (Walk.counts_stepped "k" valid.ks fun _ _ => rfl) (fun t _ m' =>
      (∀ i < p.ms.toNat, ∀ j < p.ns.toNat,
        (m' (.own q.worker.group q.worker.lane "rC" [i, j])).value =
          ((List.range (t * p.ks.toNat)).map fun u =>
            q.elements.binary problem.combine (a i u) (b j u)).foldl
              (q.elements.reduce problem.reduce) (acc i j)) ∧ q.worker.Private m m')
    (show "k" ∉ ["kk", "m", "kk", "n", "kk", "m", "n"] by decide) ?_ ?_ ?_
  · rw [Nat.zero_mul]
    exact ⟨sums, fun _ _ => rfl⟩
  · rintro t below names₁ m₁ same atK ⟨sums₁, private₁⟩
    replace same : names.Same ["k", "kk", "m", "kk", "n", "kk", "m", "n"] names₁ := same
    rw [Nat.zero_add] at below atK
    have room (u : Nat) (depth : u < p.ks.toNat) : t * p.ks.toNat + u < p.kl.toNat :=
      Visits.add_lt ⟨t, (Nat.zero_add _).symm, below⟩ valid.step depth
    have further {names₂ : Names α} (same₂ : names₁.Same ["kk", "m", "n"] names₂) :
        names.Same ["k", "kk", "m", "n"] names₂ :=
      (same.mono (by decide)).trans (same₂.mono (by decide))
    have stays {names₂ : Names α} (same₂ : names₁.Same ["kk", "m", "n"] names₂) :
        names₂ "k" = some (.index (t * p.ks.toNat)) := (same₂ "k" (by decide)).trans atK
    refine (advance_leads (ready.after (same.mono (by decide))) owns
      (fun u depth i row names₂ m₂ same₂ atDepth atRow unchanged =>
        left _ u (room u depth) i row names₂ m₂ (further same₂) (stays same₂) atDepth atRow
          (private₁.trans unchanged))
      (fun u depth j col names₂ m₂ same₂ atDepth atCol unchanged =>
        right _ u (room u depth) j col names₂ m₂ (further same₂) (stays same₂) atDepth atCol
          (private₁.trans unchanged)) sums₁).weaken ?_
    rintro _ m₂ - ⟨sums₂, private₂⟩
    refine ⟨fun i row j col => ?_, private₁.trans private₂⟩
    rw [sums₂ i row j col, Nat.succ_mul, foldl_range_add]
  · rintro names₁ m₁ - ⟨sums₁, private₁⟩
    rw [trips_of_dvd valid.ks valid.step] at sums₁
    exact .done ⟨sums₁, private₁⟩

end TunedKernel.MatrixProduct
