/-
**Where the workers of a matrix product meet.**

For each tile of the shared dimension the workers of a group fill the tiles in use, each of them slots of its
own, meet, read them, and meet again before the tiles are filled anew. A counter that wraps while a tile is
filled would come to slots of another worker.

* `FetchRoomy`, `Roomy` — the counters of the workers that fetch are past the ends of a tile before they
  wrap.
* `Placed` — the names of a worker behind the prologue. `prologue_stint`, `fetch_stint`, `share_stint` — what
  a worker does as it sets up, and as it fills its slots.
* `tile_leads_team`, `body_leads_team` — a group is led through the code for a tile, and through all of it.
* `body_convergent`, `body_free` — barriers stand in the loop over the tiles only, and there are none with no
  tile in use.
* `generate_synchronizes` — the kernel of an operation synchronizes if it is paced and roomy, or has no tile
  in use.
-/

import TunedKernel.Proofs.Generation.Synchrony
import TunedKernel.Proofs.MatrixProduct.Loops

namespace TunedKernel.MatrixProduct

variable {p : ProductTuning} {type : NumericType} {op : Operation} {problem : Problem}
  {target : MatrixOperand} {store : Step} {kernel : Kernel} {bindings : Bindings} {w : Worker}
  {names names' given : Names Unit} {sizes scope : List String} {q : Stint} {groups₀ groups₁ : Nat}
  {g : (launch p groups₀ groups₁).Group} {l : (launch p groups₀ groups₁).Lane}
  {use : Use (launch p groups₀ groups₁)}

/-- The counters of the workers that fetch a tile are past its ends before they wrap. -/
def FetchRoomy (p : ProductTuning) (deep : Bool) (extent : Nat) : Prop :=
  (if deep then p.kl.toNat else extent) + p.localFetch1.toNat ≤ 2 ^ 32 ∧
    (if deep then extent else p.kl.toNat) + p.localFetch0.toNat ≤ 2 ^ 32

/-- So it is for the tiles in use. -/
def Roomy (p : ProductTuning) (op : Operation) : Prop :=
  ∀ s ∈ op.statements, ∀ product ∈ s.value.products, ∀ a b, product.lhs = .matrix a →
    product.rhs = some (.matrix b) →
      (p.stageLeft = true → FetchRoomy p a.rowsAdjacent (p.localSize0.toNat * p.ms.toNat)) ∧
        (p.stageRight = true → FetchRoomy p (!b.rowsAdjacent) (p.localSize1.toNat * p.ns.toNat))

/-- What that says of the only product. -/
theorem Accepted.roomy_iff (accepted : Accepted op problem target) : Roomy p op ↔
    (p.stageLeft = true → FetchRoomy p problem.lhs.rowsAdjacent (p.localSize0.toNat * p.ms.toNat)) ∧
      (p.stageRight = true →
        FetchRoomy p (!problem.rhs.rowsAdjacent) (p.localSize1.toNat * p.ns.toNat)) := by
  unfold Roomy
  rw [accepted.single, List.forall_mem_singleton, accepted.product, List.forall_mem_singleton]
  constructor
  · exact fun all => all _ _ rfl rfl
  · rintro roomy a b left right
    cases left
    cases right
    exact roomy

/-! ### What is shared -/

/-- The tiles in use are all that a group shares. -/
theorem shared_eq (code : kernel.body = body (.of p type) type problem store)
    (stored : problem.statement.storeStep (resultScope type) = .ok store) :
    kernel.shared = (if p.stageLeft then ["lA"] else []) ++ if p.stageRight then ["lB"] else [] := by
  rw [Kernel.shared, code, memories_body stored]
  show List.map LocalMemory.name ((if p.stageLeft then [(Tiling.of p type).left] else []) ++
    if p.stageRight then [(Tiling.of p type).right] else []) = _
  rw [List.map_append]
  cases p.stageLeft <;> cases p.stageRight <;> rfl

theorem notMem_shared (code : kernel.body = body (.of p type) type problem store)
    (stored : problem.statement.storeStep (resultScope type) = .ok store) {x : String}
    (other : x ∉ ["lA", "lB"]) : x ∉ kernel.shared := by
  rw [shared_eq code stored]
  intro member
  refine other ?_
  rcases List.mem_append.mp member with left | right
  · split at left
    · exact List.mem_cons.mpr (Or.inl (List.mem_singleton.mp left))
    · cases left
  · split at right
    · exact List.mem_cons_of_mem _ right
    · cases right

/-- The position of an element is formed without access to memory. -/
theorem accesses_offset (m : MatrixOperand) {row col : Term} (first : row.accesses = [])
    (second : col.accesses = []) : (m.offset row col).accesses = [] := by
  have extent (x : Extent) : x.term.accesses = [] := by cases x <;> rfl
  have rowMajor {r c : Term} (one : r.accesses = []) (two : c.accesses = []) :
      (.paren r * m.internalCols.term + .paren c : Term).accesses = [] := by
    show (r.accesses ++ m.internalCols.term.accesses) ++ c.accesses = []
    rw [one, two, extent]
    rfl
  have columnMajor {r c : Term} (one : r.accesses = []) (two : c.accesses = []) :
      (.paren r + .paren c * m.internalRows.term : Term).accesses = [] := by
    show r.accesses ++ (c.accesses ++ m.internalRows.term.accesses) = []
    rw [one, two, extent]
    rfl
  unfold MatrixOperand.offset
  cases m.layout with
  | rowMajor =>
    cases m.transposed with
    | false => exact rowMajor first second
    | true => exact rowMajor second first
  | columnMajor =>
    cases m.transposed with
    | false => exact columnMajor first second
    | true => exact columnMajor second first

/-- Elements of the operands are in none of the tiles. -/
theorem foreign_element (takes : kernel.Takes op bindings) {m : MatrixOperand}
    (node : .matrix m ∈ op.nodes) {row col : Term} (first : row.accesses = [])
    (second : col.accesses = []) : ∀ a ∈ (m.element row col).accesses, a.array ∉ kernel.shared := by
  intro a member
  replace member : a ∈ [(⟨m.name, [m.offset row col]⟩ : Access)] ++ (m.offset row col).accesses := member
  rw [accesses_offset m first second] at member
  rw [List.mem_singleton.mp member]
  exact takes.foreign (a := ⟨m.name, [m.offset row col]⟩) ⟨_, node, .matrix, rfl⟩

/-! ### Code without barriers -/

/-- Storing an element of an array of its own, a worker may take in what the stint lets it read. -/
theorem put_suits {slot source : Term} (own : ∀ a ∈ slot.accesses, a.array ∉ q.arrays)
    (reads : ∀ a ∈ source.accesses, ∀ names, q.Confines q.reads names a) : q.Suits (put slot source) := by
  refine .ofSteps fun s member => Or.inr ?_
  obtain rfl := List.mem_singleton.mp member
  refine ⟨nofun, fun names => ⟨fun a written => Stint.confines_of_notMem (own a written), fun a member => ?_⟩⟩
  exact (List.mem_append.mp member).elim (fun here => Stint.confines_of_notMem (own a here))
    fun here => reads a here names

/-- A register is an element of an array of a worker's own. -/
theorem accesses_register {array : String} {row col : String} :
    ∀ a ∈ (register array (v row) (v col)).accesses, a.array = array := by
  intro a member
  rw [List.mem_singleton.mp (show a ∈ [(⟨array, [v row, v col]⟩ : Access)] from member)]

/-- A loop up to a constant declares nothing. -/
theorem counted_suits {counter : String} {n : Nat} {body : Code} (inner : q.Suits body) :
    q.Suits ((Walk.counted counter n).around body) :=
  .around inner fun _ none => (List.not_mem_nil none).elim

/-- **One step along the shared dimension** stores into registers only. -/
theorem advance_suits (registers : ∀ x ∈ ["rA", "rB", "rC"], x ∉ q.arrays)
    (reads : ∀ names a, q.Confines q.reads names a) : q.Suits (advance (.of p type) problem) := by
  have into {array : String} (member : array ∈ ["rA", "rB", "rC"]) {row col : String} {source : Term} :
      q.Suits (put (register array (v row) (v col)) source) :=
    put_suits (fun a inside => accesses_register a inside ▸ registers array member)
      fun a _ names => reads names a
  refine .append (counted_suits (counted_suits (into (by decide)))) (.append (counted_suits
    (counted_suits (into (by decide)))) (.append (counted_suits (counted_suits (counted_suits
      (into (by decide))))) nofun))

/-- **Carrying out the statement** accesses operands and registers. -/
theorem finish_suits (takes : kernel.Takes op bindings) (accepted : Accepted op problem target)
    (stored : problem.statement.storeStep (resultScope type) = .ok store)
    (arrays : q.arrays = kernel.shared) (registers : ∀ x ∈ ["rA", "rB", "rC"], x ∉ q.arrays) :
    q.Suits (finish p store) := by
  refine counted_suits (counted_suits (.ofSteps fun s member => ?_))
  simp only [List.mem_cons, List.not_mem_nil, or_false] at member
  rcases member with rfl | rfl | rfl
  · exact Or.inl ⟨_, _, rfl⟩
  · exact Or.inl ⟨_, _, rfl⟩
  · refine Or.inr ⟨?_, fun names => .of_notMem fun a inside => ?_⟩
    · obtain ⟨_, _, -, -, rfl⟩ := Statement.storeStep_eq_ok stored
      nofun
    · have plain : (resultScope type).Plain :=
        ⟨nofun, fun t found => ⟨_, (Option.some.inj found).symm⟩,
          fun t found => ⟨_, (Option.some.inj found).symm⟩⟩
      rcases Statement.accesses_named plain stored a inside with named | ⟨p, is, inside⟩
      · rw [arrays]
        exact takes.foreign (named.mono fun _ => Operation.mem_nodes_statement accepted.mem_statements)
      · cases is
        exact accesses_register a inside ▸ registers "rC" (by decide)

/-! ### Setting up -/

/-- The names of a worker behind the prologue, as far as they stand for indices. -/
structure Placed (p : ProductTuning) (kernel : Kernel) (bindings : Bindings) (w : Worker)
    (names : Names Unit) : Prop where
  settled : (kernel.given bindings).Same kernel.body.binders names
  indexed : names.Indexed (places p)
  fid0 : p.staged = true → names "fid0" = some (.index (flat p w % p.localFetch0.toNat))
  fid1 : p.staged = true → names "fid1" = some (.index (flat p w / p.localFetch0.toNat))

/-- The code behind the prologue keeps them. -/
theorem Placed.after (code : kernel.body = body (.of p type) type problem store)
    (placed : Placed p kernel bindings w names) {bound : List String} (same : names.Same bound names')
    (active : ∀ x ∈ bound, Active p x) : Placed p kernel bindings w names' := by
  have kept {x : String} (other : x ∉ loopNames) : names' x = names x :=
    same x fun member => other (mem_loopNames_of_active (active x member))
  refine ⟨placed.settled.trans (same.mono fun x member =>
    code ▸ mem_binders_of_active (active x member)), fun x member => ?_, fun staged => ?_, fun staged => ?_⟩
  · have apart : ∀ x ∈ ["fid1", "fid0", "flat", "gn", "gm", "lid1", "lid0"], x ∉ loopNames := by decide
    rw [kept (apart x (places_sub member))]
    exact placed.indexed x member
  · exact (kept (by decide)).trans (placed.fid0 staged)
  · exact (kept (by decide)).trans (placed.fid1 staged)

/-- The numbers of a worker in its group, and in the launch. -/
theorem number_stint : ((kernel.team g).stint use l).Leads (Code.ofSteps (numberSteps (.of p type))) names
    fun names' => names'.Indexed ["gn", "gm", "lid1", "lid0"] ∧
      names' "lid0" = some (.index l.1) ∧ names' "lid1" = some (.index l.2.1) := by
  have small : l.1.val % 2 ^ 32 = l.1 := Nat.mod_eq_of_lt (l.1.isLt.trans p.localSize0.toNat_lt)
  have small' : l.2.1.val % 2 ^ 32 = l.2.1 := Nat.mod_eq_of_lt (l.2.1.isLt.trans p.localSize1.toNat_lt)
  have wraps (n : Nat) : n % 2 ^ 32 < 2 ^ 32 := Nat.mod_lt _ (by decide)
  have gm (names : Names Unit) : ∃ n, (Term.query .groupId 0 * .count (Tiling.of p type).ml).unsigned?
      ((launch p groups₀ groups₁).worker g l) names = some n := ⟨_, rfl⟩
  have gn (names : Names Unit) : ∃ n, (Term.query .groupId 1 * .count (Tiling.of p type).nl).unsigned?
      ((launch p groups₀ groups₁).worker g l) names = some n := ⟨_, rfl⟩
  obtain ⟨m, gm⟩ := gm ((names.bind "lid0" (.wrapped (.bits64, l.1))).bind "lid1" (.wrapped (.bits64, l.2.1)))
  obtain ⟨n, gn⟩ := gn (((names.bind "lid0" (.wrapped (.bits64, l.1))).bind "lid1"
    (.wrapped (.bits64, l.2.1))).bind "gm" (.wrapped m))
  have none : names.Indexed [] := fun _ none => (List.not_mem_nil none).elim
  refine .index (n := (.bits64, l.1)) rfl (.index (n := (.bits64, l.2.1)) rfl (.index gm (.index gn
    (.done ⟨?_, ?_, ?_⟩))))
  · exact (((none.bind_index "lid0" (wraps _)).bind_index "lid1" (wraps _)).bind_index "gm"
      (wraps _)).bind_index "gn" (wraps _)
  · rw [Names.bind_of_ne (by decide), Names.bind_of_ne (by decide), Names.bind_of_ne (by decide),
      Names.bind_self]
    exact congrArg (fun n => some (Binding.index n)) small
  · rw [Names.bind_of_ne (by decide), Names.bind_of_ne (by decide), Names.bind_self]
    exact congrArg (fun n => some (Binding.index n)) small'

/-- The numbers by which it fetches. They do not wrap. -/
theorem flat_stint (positive : 0 < p.localFetch0.toNat)
    (workers : p.localSize0.toNat * p.localSize1.toNat < 2 ^ 32)
    (indexed : names.Indexed ["gn", "gm", "lid1", "lid0"]) (lid0 : names "lid0" = some (.index l.1))
    (lid1 : names "lid1" = some (.index l.2.1)) :
    ((kernel.team g).stint use l).Leads (Code.ofSteps (fetchSteps p)) names fun names' =>
      names'.Indexed (places p) ∧
      (p.staged = true → names' "fid0" = some (.index
        (flat p ((launch p groups₀ groups₁).worker g l) % p.localFetch0.toNat))) ∧
      (p.staged = true → names' "fid1" = some (.index
        (flat p ((launch p groups₀ groups₁).worker g l) / p.localFetch0.toNat))) := by
  unfold fetchSteps places
  cases p.staged with
  | false => exact .done ⟨indexed, nofun, nofun⟩
  | true =>
    have small : l.1.val + l.2.1.val * p.localSize0.toNat < 2 ^ 32 := (inGroup g l).flat_lt.trans workers
    have product : l.2.1.val * p.localSize0.toNat % 2 ^ 32 = l.2.1 * p.localSize0.toNat :=
      Nat.mod_eq_of_lt (Nat.lt_of_le_of_lt (Nat.le_add_left _ _) small)
    have constant (n : UInt32) : Word.ofConstant (2 ^ 32) n.toNat = .bits32 := if_pos n.toNat_lt
    have number (n : UInt32) (names : Names Unit) : (Term.count n.toNat).unsigned?
        ((launch p groups₀ groups₁).worker g l) names = some (.bits32, n.toNat) :=
      congrArg (fun word => some (word, n.toNat)) (constant n)
    have variable' {x : String} {n : Nat} {names : Names Unit} (at' : names x = some (.index n)) :
        (v x).unsigned? ((launch p groups₀ groups₁).worker g l) names = some (.bits32, n) := by
      rw [v, Term.unsigned?, at']
    have offset := Term.unsigned?_binary .mul (variable' lid1) (number p.localSize0 names)
      (congrArg some product)
    have whole := Term.unsigned?_binary .add (variable' lid0) offset
      (congrArg some (Nat.mod_eq_of_lt small))
    have part (op : TermOp) {n m : Nat} {names : Names Unit} (flat : names "flat" = some (.index n))
        (value : op.wrapped? .bits32 n p.localFetch0.toNat = some m) :
        (Term.binary op (v "flat") (.count p.localFetch0.toNat)).unsigned?
          ((launch p groups₀ groups₁).worker g l) names = some (.bits32, m) :=
      Term.unsigned?_binary op (variable' flat) (number p.localFetch0 names) value
    generalize flatIs : l.1.val + l.2.1.val * p.localSize0.toNat = flat at small whole
    have first : names.bind "flat" (.wrapped (.bits32, flat)) "flat" = some (.index flat) := by
      rw [Names.bind_self]
      exact congrArg (fun n => some (Binding.index n)) (Nat.mod_eq_of_lt small)
    have fid0 := part .mod first (if_neg positive.ne')
    have second : (names.bind "flat" (.wrapped (.bits32, flat))).bind "fid0"
        (.wrapped (.bits32, flat % p.localFetch0.toNat)) "flat" = some (.index flat) :=
      (Names.bind_of_ne (by decide)).trans first
    have fid1 := part .div second (if_neg positive.ne')
    have wraps (n : Nat) : n % 2 ^ 32 < 2 ^ 32 := Nat.mod_lt _ (by decide)
    have rest : flat % p.localFetch0.toNat % 2 ^ 32 = flat % p.localFetch0.toNat :=
      Nat.mod_eq_of_lt (Nat.lt_of_le_of_lt (Nat.mod_le _ _) small)
    have quotient : flat / p.localFetch0.toNat % 2 ^ 32 = flat / p.localFetch0.toNat :=
      Nat.mod_eq_of_lt (Nat.lt_of_le_of_lt (Nat.div_le_self _ _) small)
    refine .index whole (.index fid0 (.index fid1 (.done ⟨?_, fun _ => ?_, fun _ => ?_⟩)))
    · exact ((indexed.bind_index "flat" (wraps _)).bind_index "fid0" (wraps _)).bind_index "fid1" (wraps _)
    · rw [Names.bind_of_ne (by decide), Names.bind_self]
      exact congrArg (fun n => some (Binding.index n)) (flatIs ▸ rest)
    · rw [Names.bind_self]
      exact congrArg (fun n => some (Binding.index n)) (flatIs ▸ quotient)

/-- The registers of a worker are arrays of its own. -/
theorem registers_counts :
    (Code.ofSteps (registerSteps p type)).Counts w given sizes (places p) := by
  have fresh (x : String) (other : x ∉ ["fid1", "fid0", "flat", "gn", "gm", "lid1", "lid0"]) :
      x ∉ places p := fun member => other (places_sub member)
  exact .plain (Step.plain_array (fresh "rC" (by decide))) (.plain (Step.plain_array (fresh "rA" (by decide)))
    (.plain (Step.plain_array (fresh "rB" (by decide))) trivial))

theorem registers_suit : q.Suits (Code.ofSteps (registerSteps p type)) := by
  refine .ofSteps fun s member => ?_
  simp only [registerSteps, List.mem_cons, List.not_mem_nil, or_false] at member
  rcases member with rfl | rfl | rfl
  all_goals exact Or.inr ⟨nofun, fun _ => .of_notMem fun a none => (List.not_mem_nil none).elim⟩

/-- **The prologue** sets up the variables of a worker. -/
theorem prologue_stint (valid : p.Valid) (workers : p.localSize0.toNat * p.localSize1.toNat < 2 ^ 32)
    (takes : kernel.Takes op bindings) (code : kernel.body = body (.of p type) type problem store) :
    ((kernel.team g).stint use l).Leads (prologue (.of p type) type) (kernel.given bindings)
      (Placed p kernel bindings ((launch p groups₀ groups₁).worker g l)) := by
  have piece {x : String} (bound : x ∈ (prologue (.of p type) type).binders) : x ∈ kernel.body.binders :=
    code ▸ Code.mem_binders_append.mpr (Or.inl bound)
  rw [prologue_eq, Code.ofSteps_append, Code.append_assoc] at piece ⊢
  have tiles {x : String}
      (bound : x ∈ (Code.ofSteps ((Tiling.of p type).memories.map Step.declareLocal)).binders) :
      x ∈ kernel.body.binders := piece (Code.mem_binders_append.mpr (Or.inl bound))
  have declared : (Code.ofSteps ((Tiling.of p type).memories.map Step.declareLocal)).Counts
      ((launch p groups₀ groups₁).worker g l) (kernel.given bindings) kernel.sizes [] :=
    .last fun memory _ => Step.plain_local List.not_mem_nil
  refine .append ((takes.leads_of_counts (Shape.positive _ g l) declared (.declareLocals id _)
    (fun x => tiles) (.refl _ _) fun _ none => (List.not_mem_nil none).elim).weaken ?_)
  rintro names₁ same₁ -
  refine .append (number_stint.weaken ?_)
  rintro names₂ same₂ ⟨indexed, lid0, lid1⟩
  refine .append ((flat_stint valid.fetch0 workers indexed lid0 lid1).weaken ?_)
  rintro names₃ same₃ ⟨indexed, fid0, fid1⟩
  have settled : (kernel.given bindings).Same kernel.body.binders names₃ := by
    refine ((same₁.mono fun x => tiles).trans (same₂.mono fun x bound => ?_)).trans
      (same₃.mono fun x bound => ?_)
    · exact piece (Code.mem_binders_append.mpr (Or.inr (Code.mem_binders_append.mpr (Or.inl bound))))
    · exact piece (Code.mem_binders_append.mpr (Or.inr (Code.mem_binders_append.mpr (Or.inr
        (Code.mem_binders_append.mpr (Or.inl bound))))))
  have own {x : String} (bound : x ∈ (Code.ofSteps (registerSteps p type)).binders) :
      x ∈ kernel.body.binders :=
    piece (Code.mem_binders_append.mpr (Or.inr (Code.mem_binders_append.mpr (Or.inr
      (Code.mem_binders_append.mpr (Or.inr bound))))))
  refine (takes.leads_of_counts (Shape.positive _ g l) registers_counts registers_suit
    (fun x => own) settled indexed).weaken ?_
  rintro names₄ same₄ indexed
  replace same₄ : names₃.Same ["rC", "rA", "rB"] names₄ := same₄
  exact ⟨settled.trans (same₄.mono fun x => own), indexed,
    fun staged => (same₄ _ (by decide)).trans (fid0 staged),
    fun staged => (same₄ _ (by decide)).trans (fid1 staged)⟩

/-! ### Filling the tiles -/

/-- The counters that are past the ends of a tile before they wrap come to its ends. -/
theorem FetchRoomy.paced {deep : Bool} {extent : Nat} (valid : p.Valid)
    (roomy : FetchRoomy p deep extent) : FetchPaced p deep extent :=
  ⟨(Nat.add_le_add_left (Nat.gcd_le_left _ valid.fetch1) _).trans roomy.1,
    (Nat.add_le_add_left (Nat.gcd_le_left _ valid.fetch0) _).trans roomy.2⟩

/-- A loop that workers share, each of them keeping to its residue: the counter does not wrap before it is
past the bound. -/
theorem cooperative_stint {counter place : String} {bound step first : Nat} {body : Code}
    {goal : Names Unit → Prop} (start : names place = some (.index first)) (below : first < step)
    (room : bound + step ≤ 2 ^ 32) (kept : counter ∉ body.binders)
    (trip : ∀ c < bound, c % step = first → ∀ names', names.Same (counter :: body.binders) names' →
      names' counter = some (.index c) → q.Leads body names' fun _ => True)
    (next : ∀ names', names.Same (counter :: body.binders) names' → goal names') :
    q.Leads ((Walk.cooperative counter (v place) bound step).around body) names goal := by
  have positive : 0 < step := Nat.zero_lt_of_lt below
  have reaches : Reaches step bound :=
    (Nat.add_le_add_left (Nat.gcd_le_left _ positive) _).trans room
  have begins : (v place).unsigned? q.worker names = some (.bits32, first) := by
    rw [v, Term.unsigned?, start]
  have strides : (Walk.cooperative counter (v place) bound step).loop.Strides q.worker names
      (counter :: body.binders) step bound :=
    ⟨fun _ _ => ⟨_, rfl⟩, fun _ _ => ⟨_, rfl⟩⟩
  refine Stint.Leads.loop (l := (Walk.cooperative counter (v place) bound step).loop)
    (fun c _ => c % step = first) begins strides kept (reaches.exists_le _) ?_ ?_
    fun c names' same _ => .done (next names' same)
  · show first % 2 ^ 32 % step = first
    rw [Nat.mod_eq_of_lt (show first < 2 ^ 32 by omega), Nat.mod_eq_of_lt below]
  · intro c enters _ names' same at' residue
    refine (trip c enters residue names' same at').weaken fun _ _ _ => ?_
    rw [Nat.mod_eq_of_lt (show c + step < 2 ^ 32 by omega), Nat.add_mod_right]
    exact residue

/-- **A worker fetches its share of a tile**, for any way in which the two axes lie in the tile. -/
theorem fetch_stint (valid : p.Valid) (staged : p.staged = true) (inGroup : InGroup p q.worker)
    (placed : Placed p kernel bindings q.worker names) {further nearer : Nat} {slot source : Term}
    (far : further + p.localFetch1.toNat ≤ 2 ^ 32) (near : nearer + p.localFetch0.toNat ≤ 2 ^ 32)
    (access : ∀ name, slot ≠ .name name)
    (allowed : ∀ i j names', Fetches p q.worker i j → names' "a" = some (.index i) →
      names' "b" = some (.index j) → q.Allows names' (.store slot .assign source)) :
    q.Leads (fetch p further nearer slot source) names fun _ => True := by
  have binders : (put slot source).binders = [] := Code.binders_store access
  have inner : ((Walk.cooperative "b" (v "fid0") nearer p.localFetch0.toNat).around
      (put slot source)).binders = ["b"] := by
    rw [Walk.around_plain rfl rfl]
    show "b" :: ((put slot source).binders ++ []) = ["b"]
    rw [binders]
    rfl
  have below : flat p q.worker / p.localFetch0.toNat < p.localFetch1.toNat := by
    refine Nat.div_lt_of_lt_mul ?_
    rw [valid.fetch staged]
    exact inGroup.flat_lt
  show q.Leads ((Walk.cooperative "a" (v "fid1") further p.localFetch1.toNat).around
    ((Walk.cooperative "b" (v "fid0") nearer p.localFetch0.toNat).around (put slot source))) names _
  refine cooperative_stint (placed.fid1 staged) below far (inner.symm ▸ show "a" ∉ ["b"] by decide)
    (fun i _ row names₁ same₁ at₁ => ?_) fun _ _ => trivial
  rw [inner] at same₁
  refine cooperative_stint ((same₁ "fid0" (by decide)).trans (placed.fid0 staged))
    (Nat.mod_lt _ valid.fetch0) near (binders.symm ▸ List.not_mem_nil) (fun j _ col names₂ same₂ at₂ => ?_)
    fun _ _ => trivial
  rw [binders] at same₂
  have atA : names₂ "a" = some (.index i) := (same₂ "a" (by decide)).trans at₁
  exact .step nofun (allowed i j names₂ ⟨row, col⟩ atA at₂) rfl (.refl _ _) (.done trivial)

/-- **A worker fetches its share of a tile** into slots of its own. -/
theorem fetchTile_stint (valid : p.Valid) (staged : p.staged = true) (inGroup : InGroup p q.worker)
    (placed : Placed p kernel bindings q.worker names) {deep : Bool} {tile : LocalMemory} {extent : Nat}
    {source : Term → Term → Term} (roomy : FetchRoomy p deep extent)
    (fills : ∀ d x, Fills p deep q.worker d x →
      (tile.name, [d, x]) ∈ q.writes ∧ (tile.name, [d, x]) ∈ q.reads)
    (away : ∀ depth across : String, ∀ a ∈ (source (v depth) (v across)).accesses, a.array ∉ q.arrays) :
    q.Leads (fetchTile p deep tile extent source) names fun _ => True := by
  have allows {names' : Names Unit} {x y : String} {d e : Nat} (filled : Fills p deep q.worker d e)
      (first : names' x = some (.index d)) (second : names' y = some (.index e)) :
      q.Allows names' (.store (tile.access [v x, v y]) .assign (source (v x) (v y))) := by
    have values : [v x, v y].mapM (fun s => s.word? q.worker names') = some [d, e] := by
      simp only [v, List.mapM_cons, List.mapM_nil, Term.word?, Term.unsigned?, first, second]
      rfl
    refine ⟨Stint.confines_access tile values (fills d e filled).1, fun a member => ?_⟩
    exact (List.mem_append.mp member).elim
      (Stint.confines_access tile values (fills d e filled).2 a)
      fun here => Stint.confines_of_notMem (away x y a here)
  cases deep with
  | true =>
    exact fetch_stint valid staged inGroup placed roomy.1 roomy.2 (Tree.access_ne_name tile [v "a"] (v "b"))
      fun i j names' mine atA atB => allows mine atA atB
  | false =>
    exact fetch_stint valid staged inGroup placed roomy.1 roomy.2 (Tree.access_ne_name tile [v "b"] (v "a"))
      fun i j names' mine atA atB => allows mine atB atA

/-- **A worker fills its share of the tiles in use.** -/
theorem share_stint (valid : p.Valid) (accepted : Accepted op problem target)
    (takes : kernel.Takes op bindings) (code : kernel.body = body (.of p type) type problem store)
    (roomy : Roomy p op)
    (placed : Placed p kernel bindings ((launch p groups₀ groups₁).worker g l) names) :
    ((kernel.team g).stint (fetching p problem groups₀ groups₁ g) l).Leads
      (onlyIf p.stageLeft (fetchLeft (.of p type) problem.lhs) ++
        onlyIf p.stageRight (fetchRight (.of p type) problem.rhs)) names fun _ => True := by
  obtain ⟨left, right⟩ := accepted.roomy_iff.mp roomy
  rw [fetchLeft_eq, fetchRight_eq]
  have first : ((kernel.team g).stint (fetching p problem groups₀ groups₁ g) l).Leads
      (onlyIf p.stageLeft (fetchTile p problem.lhs.rowsAdjacent (Tiling.of p type).left
        (Tiling.of p type).ml fun depth across =>
          problem.lhs.element (v "gm" + across) (v "k0" + depth))) names fun _ => True := by
    unfold onlyIf
    split
    · next staged =>
      refine fetchTile_stint valid (Bool.or_eq_true_iff.mpr (Or.inl staged)) (inGroup g l) placed
        (left staged) (fun d x filled => ?_) fun depth across =>
          foreign_element takes accepted.mem_of_left rfl rfl
      exact ⟨⟨d, x, Or.inl ⟨rfl, filled⟩⟩, d, x, Or.inl ⟨rfl, filled⟩⟩
    · exact .done trivial
  refine .append (first.weaken ?_)
  rintro names₁ same₁ -
  have placed₁ : Placed p kernel bindings ((launch p groups₀ groups₁).worker g l) names₁ := by
    refine placed.after code same₁ fun x bound => Or.inr ?_
    exact binders_onlyIf (fun left => Bool.or_eq_true_iff.mpr (Or.inl left)) binders_fetchTile bound
  unfold onlyIf
  split
  · next staged =>
    refine fetchTile_stint valid (Bool.or_eq_true_iff.mpr (Or.inr staged)) (inGroup g l) placed₁
      (right staged) (fun d x filled => ?_) fun depth across =>
        foreign_element takes accepted.mem_of_right rfl rfl
    exact ⟨⟨d, x, Or.inr ⟨rfl, filled⟩⟩, d, x, Or.inr ⟨rfl, filled⟩⟩
  · exact .done trivial

/-! ### Groups -/

/-- While the workers multiply, all slots may be read; with no tile in use there are none. -/
theorem confines_multiplying (code : kernel.body = body (.of p type) type problem store)
    (stored : problem.statement.storeStep (resultScope type) = .ok store) (names : Names Unit) (a : Access) :
    ((kernel.team g).stint (multiplying p problem groups₀ groups₁ g) l).Confines
      ((multiplying p problem groups₀ groups₁ g).reads l) names a := by
  cases staged : p.staged with
  | true =>
    intro slot _ _
    rw [multiplying, if_pos staged]
    exact Set.mem_univ slot
  | false =>
    obtain ⟨left, right⟩ := Bool.or_eq_false_iff.mp staged
    refine Stint.confines_of_notMem ?_
    show a.array ∉ kernel.shared
    rw [shared_eq code stored, left, right]
    exact List.not_mem_nil

theorem multiplying_apart : (multiplying p problem groups₀ groups₁ g).Apart := by
  unfold multiplying
  split
  · exact computing_apart
  · exact fetching_apart

/-- The workers meet if a tile is in use. -/
theorem meet_leads_team {next : Use (launch p groups₀ groups₁)}
    {names : (launch p groups₀ groups₁).Lane → Names Unit} (apart : next.Apart)
    (idle : p.staged = false → use = next) :
    (kernel.team g).Leads (onlyIf p.staged (Code.ofSteps [.barrier])) use names fun use' names' =>
      use' = next ∧ names' = names := by
  cases staged : p.staged with
  | true => exact .barrier apart
  | false => exact .done ⟨idle staged, rfl⟩

/-- **A group goes through a tile** from barrier to barrier, and leaves the slots in the use that it begins
with. -/
theorem tile_leads_team (valid : p.Valid) (accepted : Accepted op problem target)
    (takes : kernel.Takes op bindings) (code : kernel.body = body (.of p type) type problem store)
    (stored : problem.statement.storeStep (resultScope type) = .ok store) (roomy : Roomy p op)
    {names : (launch p groups₀ groups₁).Lane → Names Unit}
    (placed : ∀ l, Placed p kernel bindings ((launch p groups₀ groups₁).worker g l) (names l)) :
    (kernel.team g).Leads (tileCode (.of p type) problem) (fetching p problem groups₀ groups₁ g) names
      fun use _ => use = fetching p problem groups₀ groups₁ g := by
  have pieces : tileCode (.of p type) problem =
      (onlyIf p.stageLeft (fetchLeft (.of p type) problem.lhs) ++
        onlyIf p.stageRight (fetchRight (.of p type) problem.rhs)) ++
      (onlyIf p.staged (Code.ofSteps [.barrier]) ++
        ((Walk.stepped "k" (.count p.kl.toNat) p.ks.toNat).around (advance (.of p type) problem) ++
          onlyIf p.staged (Code.ofSteps [.barrier]))) := by
    rw [Code.append_assoc]
    show _ ++ (_ ++ (_ ++ (_ ++ (_ ++ Code.done)))) = _
    rw [Code.append_done]
    rfl
  rw [pieces]
  refine .append ((Team.Leads.work fun l => share_stint valid accepted takes code roomy (placed l)).weaken ?_)
  rintro use names₁ same₁ ⟨rfl, -⟩
  have placed₁ (l : (launch p groups₀ groups₁).Lane) :
      Placed p kernel bindings ((launch p groups₀ groups₁).worker g l) (names₁ l) :=
    (placed l).after code (same₁ l) fun x bound => Or.inr (binders_share bound)
  have apart : (multiplying p problem groups₀ groups₁ g).Apart := multiplying_apart
  have idle (none : p.staged = false) :
      multiplying p problem groups₀ groups₁ g = fetching p problem groups₀ groups₁ g :=
    if_neg (none ▸ Bool.false_ne_true)
  refine .append ((meet_leads_team apart fun none => (idle none).symm).weaken ?_)
  rintro use names₂ - ⟨rfl, rfl⟩
  have registers : ∀ x ∈ ["rA", "rB", "rC"], x ∉ kernel.shared := fun x member =>
    notMem_shared code stored ((show ∀ x ∈ ["rA", "rB", "rC"], x ∉ ["lA", "lB"] by decide) x member)
  have counts (w : Worker) : ((Walk.stepped "k" (.count p.kl.toNat) p.ks.toNat).around
      (advance (.of p type) problem)).Counts w (kernel.given bindings) kernel.sizes (places p) :=
    .of_append_done (.stepped (Term.stands_count _) (.of_dvd valid.step p.kl.toNat_lt)
      (show "k" ∉ ["kk", "m", "kk", "n", "kk", "m", "n"] by decide) (fun _ => advance_counts) trivial)
  have active {x : String} (bound : x ∈ ((Walk.stepped "k" (.count p.kl.toNat) p.ks.toNat).around
      (advance (.of p type) problem)).binders) : x ∈ kernel.body.binders := by
    rw [Walk.around_plain rfl rfl] at bound
    exact code ▸ mem_binders_of_active (Or.inl ((show ∀ x ∈ ["k", "kk", "m", "kk", "n", "kk", "m", "n"],
      x ∈ ["k0", "k", "kk", "m", "n", "row", "col"] by decide) x bound))
  have computes (l : (launch p groups₀ groups₁).Lane) :
      ((kernel.team g).stint (multiplying p problem groups₀ groups₁ g) l).Leads
        ((Walk.stepped "k" (.count p.kl.toNat) p.ks.toNat).around (advance (.of p type) problem)) (names₂ l)
        fun names' => names'.Indexed (places p) :=
    takes.leads_of_counts (Shape.positive _ g l) (counts _)
      (.around (advance_suits registers (confines_multiplying code stored))
        fun _ none => (List.not_mem_nil none).elim)
      (fun x => active) (placed₁ l).settled (placed₁ l).indexed
  refine .append ((Team.Leads.work computes).weaken ?_)
  rintro use names₃ - ⟨rfl, -⟩
  exact (meet_leads_team fetching_apart idle).weaken fun _ _ _ met => met.1

/-- Clearing the registers of the result. -/
theorem clear_counts {neutral : Term} : (clear p neutral).Counts w given sizes scope :=
  .of_append_done (square_counts (by decide) (show "m" ∉ [] by decide) (show "n" ∉ [] by decide) put_counts
    trivial)

theorem clear_suits {reduce : ReduceOp} (registers : ∀ x ∈ ["rA", "rB", "rC"], x ∉ q.arrays) :
    q.Suits (clear p (reduce.neutral type)) := by
  refine counted_suits (counted_suits (put_suits (fun a inside => ?_) fun a inside => ?_))
  · exact accesses_register a inside ▸ registers "rC" (by decide)
  · rw [Term.accesses_neutral] at inside
    cases inside

/-- **A group is led through the code** if it is paced and roomy, and the result has an element. -/
theorem body_leads_team (valid : p.Valid) (workers : p.localSize0.toNat * p.localSize1.toNat < 2 ^ 32)
    (accepted : Accepted op problem target) (takes : kernel.Takes op bindings)
    (code : kernel.body = body (.of p type) type problem store)
    (stored : problem.statement.storeStep (resultScope type) = .ok store) (paced : Paced p op bindings)
    (roomy : Roomy p op) (rows : 0 < problem.lhs.logicalRows.size bindings)
    (cols : 0 < problem.rhs.logicalCols.size bindings) :
    (kernel.team g).Leads (body (.of p type) type problem store) (fetching p problem groups₀ groups₁ g)
      (fun _ => kernel.given bindings) fun _ _ => True := by
  have free : store.binder? = none :=
    Statement.binder?_storeStep stored (Or.inr ⟨target, accepted.stores⟩)
  obtain ⟨reaches, -⟩ := accepted.paced_iff.mp paced rows cols
  have registers : ∀ x ∈ ["rA", "rB", "rC"], x ∉ kernel.shared := fun x member =>
    notMem_shared code stored ((show ∀ x ∈ ["rA", "rB", "rC"], x ∉ ["lA", "lB"] by decide) x member)
  have active {x : String} (member : Active p x) : x ∈ kernel.body.binders :=
    code ▸ mem_binders_of_active member
  have squares {x : String} (bound : x ∈ ["m", "n", "row", "col"]) : Active p x :=
    Or.inl ((show ∀ x ∈ ["m", "n", "row", "col"], x ∈ ["k0", "k", "kk", "m", "n", "row", "col"]
      by decide) x bound)
  refine .append ((Team.Leads.work fun l => prologue_stint valid workers takes code).weaken ?_)
  rintro use names₁ - ⟨rfl, placed₁⟩
  have clears (l : (launch p groups₀ groups₁).Lane) :
      ((kernel.team g).stint (fetching p problem groups₀ groups₁ g) l).Leads
        (clear p (problem.reduce.neutral type)) (names₁ l) fun names' => names'.Indexed (places p) :=
    takes.leads_of_counts (Shape.positive _ g l) clear_counts (clear_suits registers)
      (fun x bound => active (squares ((show ∀ x ∈ ["m", "n"], x ∈ ["m", "n", "row", "col"] by decide)
        x bound))) (placed₁ l).settled (placed₁ l).indexed
  refine .append ((Team.Leads.work clears).weaken ?_)
  rintro use names₂ same₂ ⟨rfl, -⟩
  have placed₂ (l : (launch p groups₀ groups₁).Lane) :
      Placed p kernel bindings ((launch p groups₀ groups₁).worker g l) (names₂ l) :=
    (placed₁ l).after code (same₂ l) fun x bound =>
      squares ((show ∀ x ∈ ["m", "n"], x ∈ ["m", "n", "row", "col"] by decide) x bound)
  rw [Walk.around_plain rfl rfl]
  have start (i : (launch p groups₀ groups₁).Lane) : ∃ word,
      (Walk.stepped "k0" problem.lhs.logicalCols.term p.kl.toNat).loop.first.unsigned?
        ((kernel.team g).worker i) (names₂ i) = some (word, 0) := ⟨.bits32, rfl⟩
  refine .append (.loop start (fun i => ?_) k0_fresh reaches (fun c _ names₃ same₃ _ => ?_)
    fun names₃ same₃ => .done ?_)
  · refine Loop.strides_of_stands rfl (Term.stands_count _)
      (takes.stands accepted.mem_of_left problem.lhs.logicalCols_mem_extents) fun names' same => ?_
    exact takes.agree ((placed₂ i).after code same fun x => active_of_tile).settled
  · exact tile_leads_team valid accepted takes code stored roomy fun l =>
      (placed₂ l).after code (same₃ l) fun x => active_of_tile
  · have binders : (finish p store).binders = ["m", "n", "row", "col"] := by
      show "m" :: ("n" :: ((["row"] ++ (["col"] ++ (store.binder?.toList ++ []))) ++ []) ++ []) = _
      rw [free]
      rfl
    have finishes (l : (launch p groups₀ groups₁).Lane) :
        ((kernel.team g).stint (fetching p problem groups₀ groups₁ g) l).Leads (finish p store)
          (names₃ l) fun names' => names'.Indexed (places p) := by
      have placed₃ := (placed₂ l).after code (same₃ l) fun x => active_of_tile
      exact takes.leads_of_counts (Shape.positive _ g l) (finish_counts free)
        (finish_suits takes accepted stored rfl registers)
        (fun x bound => active (squares (binders ▸ bound))) placed₃.settled placed₃.indexed
    show (kernel.team g).Leads (finish p store ++ Code.done) _ _ _
    rw [Code.append_done]
    exact (Team.Leads.work finishes).weaken fun _ _ _ _ => trivial

/-! ### The kernel -/

/-- A fetch is two loops around one store. -/
theorem steps_fetchTile {deep : Bool} {tile : LocalMemory} {extent : Nat} {source : Term → Term → Term} :
    .barrier ∉ (fetchTile p deep tile extent source).steps := by
  intro member
  cases deep with
  | true => exact Step.noConfusion (List.mem_singleton.mp (show Step.barrier ∈ [_] from member))
  | false => exact Step.noConfusion (List.mem_singleton.mp (show Step.barrier ∈ [_] from member))

/-- So stand no barriers where the workers set up their variables. -/
theorem steps_prologue : .barrier ∉ (prologue (.of p type) type).steps := by
  intro member
  rw [prologue, Code.steps_ofSteps] at member
  simp only [List.mem_append, List.mem_map, List.mem_cons, List.not_mem_nil, or_false, reduceCtorEq, and_false,
    exists_false, false_or] at member
  split at member
  · simp only [List.mem_cons, List.not_mem_nil, or_false, reduceCtorEq] at member
  · cases member

/-- Nor do they where a worker is left to itself: it clears its registers, multiplies, and carries out the
statement. -/
theorem steps_alone (accepted : Accepted op problem target) (takes : kernel.Takes op bindings)
    (code : kernel.body = body (.of p type) type problem store)
    (stored : problem.statement.storeStep (resultScope type) = .ok store) :
    .barrier ∉ (clear p (problem.reduce.neutral type)).steps ∧
      .barrier ∉ ((Walk.stepped "k" (.count p.kl.toNat) p.ks.toNat).around
        (advance (.of p type) problem)).steps ∧ .barrier ∉ (finish p store).steps := by
  let q : Stint := ⟨⟨⟨1, 1, 1⟩, ⟨1, 1, 1⟩, ⟨0, 0, 0⟩, ⟨0, 0, 0⟩⟩, kernel.shared, Set.univ, Set.univ⟩
  have registers : ∀ x ∈ ["rA", "rB", "rC"], x ∉ q.arrays := fun x member =>
    notMem_shared code stored ((show ∀ x ∈ ["rA", "rB", "rC"], x ∉ ["lA", "lB"] by decide) x member)
  have advances : q.Suits ((Walk.stepped "k" (.count p.kl.toNat) p.ks.toNat).around
      (advance (.of p type) problem)) :=
    .around (advance_suits registers fun _ _ slot _ _ => Set.mem_univ slot)
      fun _ none => (List.not_mem_nil none).elim
  exact ⟨(clear_suits registers).free, advances.free, (finish_suits takes accepted stored rfl registers).free⟩

/-- **Barriers stand in the loop over the tiles only**, through which all workers of a group go together. -/
theorem body_convergent (accepted : Accepted op problem target) (takes : kernel.Takes op bindings)
    (code : kernel.body = body (.of p type) type problem store)
    (stored : problem.statement.storeStep (resultScope type) = .ok store) :
    (body (.of p type) type problem store).Convergent kernel.sizes := by
  obtain ⟨clears, advances, finishes⟩ := steps_alone accepted takes code stored
  have shared : problem.lhs.logicalCols.term.Indexes kernel.sizes :=
    (takes.stands (w := ⟨⟨1, 1, 1⟩, ⟨1, 1, 1⟩, ⟨0, 0, 0⟩, ⟨0, 0, 0⟩⟩) accepted.mem_of_left
      problem.lhs.logicalCols_mem_extents).indexes
  have uniform : (Walk.stepped "k0" problem.lhs.logicalCols.term p.kl.toNat).loop.Uniform kernel.sizes :=
    ⟨trivial, Extent.uniform_term shared, fun stride same => Option.some.inj same ▸ trivial⟩
  have fetched {condition : Bool} {deep : Bool} {tile : LocalMemory} {extent : Nat}
      {source : Term → Term → Term} :
      (onlyIf condition (fetchTile p deep tile extent source)).Convergent kernel.sizes := by
    cases condition with
    | false => trivial
    | true => exact .of_free steps_fetchTile
  have meets : (onlyIf p.staged (Code.ofSteps [.barrier])).Convergent kernel.sizes := by
    cases p.staged with
    | false => trivial
    | true => exact .ofSteps _
  refine .append (.ofSteps _) (.append (.of_free clears) (.append (.around uniform ?_)
    (.append (.of_free finishes) trivial)))
  unfold tileCode
  rw [fetchLeft_eq, fetchRight_eq]
  exact .append fetched (.append fetched (.append meets (.append (.of_free advances)
    (.append meets trivial))))

/-- **With no tile in use there are no barriers**, and nothing is shared. -/
theorem body_free (accepted : Accepted op problem target) (takes : kernel.Takes op bindings)
    (code : kernel.body = body (.of p type) type problem store)
    (stored : problem.statement.storeStep (resultScope type) = .ok store) (idle : p.staged = false) :
    .barrier ∉ kernel.body.steps ∧ kernel.shared = [] := by
  obtain ⟨clears, advances, finishes⟩ := steps_alone accepted takes code stored
  obtain ⟨left, right⟩ := Bool.or_eq_false_iff.mp idle
  have tile : tileCode (.of p type) problem =
      (Walk.stepped "k" (.count p.kl.toNat) p.ks.toNat).around (advance (.of p type) problem) ++ .done := by
    show onlyIf p.stageLeft _ ++ (onlyIf p.stageRight _ ++ (onlyIf p.staged _ ++ (_ ++
      (onlyIf p.staged _ ++ Code.done)))) = _
    rw [left, right, idle]
    rfl
  refine ⟨?_, by rw [shared_eq code stored, left, right]; rfl⟩
  rw [code, body, Code.steps_join, tile, Code.append_done]
  intro member
  obtain ⟨piece, inside, member⟩ := List.mem_flatMap.mp member
  simp only [List.mem_cons, List.not_mem_nil, or_false] at inside
  rcases inside with rfl | rfl | rfl | rfl
  · exact steps_prologue member
  · exact clears member
  · exact advances (Code.steps_around .. ▸ member)
  · exact finishes member

/-- Groups are not too large to be numbered. -/
theorem workers_lt {u : Unit} (ok : p.check = .ok u) :
    p.localSize0.toNat * p.localSize1.toNat < 2 ^ 32 := by
  obtain ⟨_, -, ok⟩ := bind_eq_ok_iff.mp ok
  obtain ⟨_, -, ok⟩ := bind_eq_ok_iff.mp ok
  obtain ⟨_, -, ok⟩ := bind_eq_ok_iff.mp ok
  obtain ⟨_, product, -⟩ := bind_eq_ok_iff.mp ok
  exact (Word.mul_eq_ok_iff.mp product).1

/-- **The kernel of an operation synchronizes if it is paced and roomy**, or has no tile in use, and its
barriers stand where all workers come. -/
theorem generate_synchronizes {left right : Bool} {program : Program} {u : Unit} (checked : p.check = .ok u)
    (ok : generate left right p op = .ok program) (member : kernel ∈ program.kernels)
    (proper : kernel.Proper) (sized : kernel.Sized bindings)
    (small : ∀ x n, bindings x = some n → n.toNat < 2 ^ 32) :
    kernel.body.Convergent kernel.sizes ∧
      ((p.staged = true → Paced p op bindings ∧ Roomy p op) → kernel.Synchronizes bindings) := by
  obtain ⟨problem, target, operands, store, kernel', accepted, collected, stored, kernels, arguments, -,
    geometry, code⟩ := generate_eq_ok ok
  obtain rfl := List.mem_singleton.mp (kernels ▸ member)
  have takes : kernel.Takes op bindings := ⟨⟨_, operands, collected, fun name a found => arguments ▸ found⟩,
    fun a inside => (proper a inside).2, sized, small⟩
  have shaped := accepted.shape? (arguments ▸ collected) sized geometry
  refine ⟨code ▸ body_convergent accepted takes code stored, fun fits => ?_⟩
  cases staged : p.staged with
  | false =>
    obtain ⟨free, none⟩ := body_free accepted takes code stored staged
    exact Kernel.synchronizes_of_free free none
  | true =>
    obtain ⟨paced, roomy⟩ := fits staged
    refine .of_leads shaped (fun g => fetching p problem _ _ g) (fun g => fetching_apart) fun g => ?_
    exact code ▸ body_leads_team (ProductTuning.valid checked) (workers_lt checked) accepted takes
      code stored paced roomy (tiles_pos_iff.mp (Nat.zero_lt_of_lt g.1.isLt))
      (tiles_pos_iff.mp (Nat.zero_lt_of_lt g.2.1.isLt))

end TunedKernel.MatrixProduct
