/-
**What a thread does whatever the memory holds.**

Conditions, bounds and subscripts are made of indices, and no index is read from memory. With the
values left out, a thread therefore makes the same moves by itself as in any launch.

* `Names.outline`, `Thread.outline` — names and threads with the values left out.
* `Thread.next?` — the next move of such a thread, which goes past a barrier at once.
* `Thread.next?_of_step?`, `Kernel.outlines_of_run` — the threads of a launch make the moves of their
  outlines.
* `Term.accesses`, `Thread.accesses` — the accesses to buffers and arrays that the next move makes.
* `Thread.Keeps` — whatever a thread comes to, it is at its end or can move on, and its accesses are
  allowed. `Kernel.allowed_of_run` carries this over to launches.
-/

import TunedKernel.Proofs.Execution.Worker

namespace TunedKernel

variable {α : Type}

/-! ### Names without values -/

/-- What a name stands for, with its value left out. -/
def Binding.outline : Binding α → Binding Unit
  | index n => .index n
  | value _ => .value fun _ => ()
  | buffer width => .buffer width
  | sharedArray dims => .sharedArray dims
  | ownArray dims => .ownArray dims

/-- What names stand for, with the values left out. -/
def Names.outline (names : Names α) : Names Unit := fun x => (names x).map Binding.outline

theorem Names.outline_bind (names : Names α) (name : String) (binding : Binding α) :
    (names.bind name binding).outline = names.outline.bind name binding.outline := by
  funext x
  unfold outline
  rw [bind_apply, bind_apply]
  split <;> rfl

namespace Term

theorem number?_outline (w : Worker) (names : Names α) :
    ∀ t : Term, t.number? w names.outline = t.number? w names
  | name identifier => by
    rw [number?, number?, Names.outline]
    cases names identifier with
    | none => rfl
    | some binding => cases binding <;> rfl
  | binary op lhs rhs => by
    rw [number?, number?, number?_outline w names lhs, number?_outline w names rhs]
  | call₂ function first second => by
    rw [number?, number?, number?_outline w names first, number?_outline w names second]
  | paren inner => number?_outline w names inner
  | cast type operand => by rw [number?, number?, number?_outline w names operand]
  | number _ | count _ | query _ _ => rfl
  | verbatim _ | negate _ | call _ _ | index _ _ | lane _ _ => rfl

theorem holds?_outline (w : Worker) (names : Names α) :
    ∀ t : Term, t.holds? w names.outline = t.holds? w names
  | binary op lhs rhs => by
    cases op with
    | less => rw [holds?, holds?, number?_outline w names lhs, number?_outline w names rhs]
    | equal => rw [holds?, holds?, number?_outline w names lhs, number?_outline w names rhs]
    | both => rw [holds?, holds?, holds?_outline w names lhs, holds?_outline w names rhs]
    | add | sub | mul | div | mod => rfl
  | name _ | call₂ _ _ _ | paren _ | cast _ _ | number _ | count _ | query _ _ | verbatim _
  | negate _ | call _ _ | index _ _ | lane _ _ => rfl

end Term

/-! ### Moves without values -/

/-- The names after a step. -/
def Step.names? (w : Worker) (names : Names Unit) : Step → Option (Names Unit)
  | declare .index name value =>
    (value.number? w names).map fun n => names.bind name (.index n)
  | declare (.packed _ _) name _ => some (names.bind name (.value fun _ => ()))
  | declareLocal memory => some (names.bind memory.name (.sharedArray memory.dims))
  | declareArray _ name dims => some (names.bind name (.ownArray dims))
  | store _ _ _ | barrier => some names

/-- The next move of a thread whose values are left out. -/
def Thread.next? (w : Worker) (t : Thread Unit) : Option (Thread Unit) :=
  match t.todo with
  | [] => none
  | .run .done :: rest => some ⟨rest, t.names⟩
  | .run (.step s code) :: rest => (s.names? w t.names).map fun names => ⟨.run code :: rest, names⟩
  | .run (.loop l body code) :: rest =>
    (l.first.number? w t.names).map fun n =>
      ⟨.check l body :: .run code :: rest, t.names.bind l.counter (.index n)⟩
  | .run (.guarded condition body code) :: rest =>
    (condition.holds? w t.names).map fun holds =>
      ⟨if holds then .run body :: .run code :: rest else .run code :: rest, t.names⟩
  | .check l body :: rest =>
    (l.condition.holds? w t.names).map fun holds =>
      ⟨if holds then .run body :: .advance l body :: rest else rest, t.names⟩
  | .advance l body :: rest =>
    (l.next.number? w t.names).map fun n =>
      ⟨.check l body :: rest, t.names.bind l.counter (.index n)⟩

/-- A thread with the values left out. -/
def Thread.outline (t : Thread α) : Thread Unit := ⟨t.todo, t.names.outline⟩

/-- A number of moves of a thread whose values are left out. -/
def Thread.Comes (w : Worker) : Thread Unit → Thread Unit → Prop :=
  Relation.ReflTransGen fun t t' => t.next? w = some t'

/-- A step binds the same names when the values are left out. -/
theorem Step.names?_of_exec? {w : Worker} {e : Elements α} {s : Step} {names names' : Names α}
    {m m' : Memory α} (done : s.exec? w e names m = some (names', m')) :
    s.names? w names.outline = some names'.outline := by
  cases s with
  | barrier => cases done
  | declareLocal memory =>
    cases done
    exact congrArg some (names.outline_bind memory.name (.sharedArray memory.dims)).symm
  | declareArray type name dims =>
    cases done
    exact congrArg some (names.outline_bind name (.ownArray dims)).symm
  | declare type name value =>
    cases type with
    | index =>
      obtain ⟨n, number, result⟩ := Option.bind_eq_some_iff.mp done
      cases result
      rw [names?, Term.number?_outline, number]
      exact congrArg some (names.outline_bind name (.index n)).symm
    | packed type width =>
      obtain ⟨x, -, result⟩ := Option.bind_eq_some_iff.mp done
      cases result
      exact congrArg some (names.outline_bind name (.value x)).symm
  | store target op value =>
    refine congrArg some ?_
    by_cases isName : ∃ x, target = .name x
    · -- A variable that is stored into stands for a value before and after.
      obtain ⟨x, rfl⟩ := isName
      cases bound : names x with
      | none => simp [exec?, bound] at done
      | some binding =>
        cases binding with
        | value old =>
          simp only [exec?, bound] at done
          obtain ⟨v, -, result⟩ := Option.bind_eq_some_iff.mp done
          cases result
          rw [Names.outline_bind]
          refine (Function.update_eq_self_iff.mpr ?_).symm
          rw [Names.outline, bound]
          rfl
        | index | buffer | sharedArray | ownArray => simp [exec?, bound] at done
    · rw [exec?_store fun x same => isName ⟨x, same⟩] at done
      obtain ⟨spot, -, result⟩ := Option.bind_eq_some_iff.mp done
      obtain ⟨x, -, result⟩ := Option.bind_eq_some_iff.mp result
      cases result
      rfl

/-- **A thread moves as its outline does.** -/
theorem Thread.next?_of_step? {w : Worker} {e : Elements α} {t t' : Thread α} {m m' : Memory α}
    (moves : t.step? w e m = some (t', m')) : t.outline.next? w = some t'.outline := by
  obtain ⟨todo, names⟩ := t
  match todo with
  | [] => cases moves
  | .run .done :: rest =>
    cases moves
    rfl
  | .run (.step s code) :: rest =>
    obtain ⟨found, done, result⟩ := Option.bind_eq_some_iff.mp moves
    cases result
    show (s.names? w names.outline).map _ = _
    rw [Step.names?_of_exec? done]
    rfl
  | .run (.loop l body code) :: rest =>
    obtain ⟨n, number, result⟩ := Option.bind_eq_some_iff.mp moves
    cases result
    show (l.first.number? w names.outline).map _ = _
    rw [Term.number?_outline, number]
    exact congrArg (fun names' => some (Thread.mk (.check l body :: .run code :: rest) names'))
      (names.outline_bind l.counter (.index n)).symm
  | .run (.guarded condition body code) :: rest =>
    obtain ⟨holds, decided, result⟩ := Option.bind_eq_some_iff.mp moves
    cases result
    show (condition.holds? w names.outline).map _ = _
    rw [Term.holds?_outline, decided]
    rfl
  | .check l body :: rest =>
    obtain ⟨holds, decided, result⟩ := Option.bind_eq_some_iff.mp moves
    cases result
    show (l.condition.holds? w names.outline).map _ = _
    rw [Term.holds?_outline, decided]
    rfl
  | .advance l body :: rest =>
    obtain ⟨n, number, result⟩ := Option.bind_eq_some_iff.mp moves
    cases result
    show (l.next.number? w names.outline).map _ = _
    rw [Term.number?_outline, number]
    exact congrArg (fun names' => some (Thread.mk (.check l body :: rest) names'))
      (names.outline_bind l.counter (.index n)).symm

/-- Some of the threads of a group move as their outlines do, and the others stay as they are. -/
theorem GroupMove.outlines {shape : Shape} {e : Elements α} {g : shape.Group}
    {threads threads' : shape.Lane → Thread α} {m m' : Memory α}
    (move : GroupMove shape e g threads m threads' m') (l : shape.Lane) :
    (threads l).outline.Comes (shape.worker g l) (threads' l).outline := by
  cases move with
  | @work _ _ _ t l' moves =>
    by_cases here : l = l'
    · subst here
      rw [Function.update_self]
      exact .single (Thread.next?_of_step? moves)
    · rw [Function.update_of_ne here]
      exact .refl
  | pass code rest waiting =>
    refine .single ?_
    show Thread.next? _ ⟨(threads l).todo, _⟩ = _
    rw [waiting l]
    rfl

/-- The threads of a group make the moves of their outlines, in every order of moves. -/
theorem GroupMove.outlines_of_run {shape : Shape} {e : Elements α} {g : shape.Group}
    {threads : shape.Lane → Thread α} {m : Memory α} {state : (shape.Lane → Thread α) × Memory α}
    (run : Relation.ReflTransGen
      (fun before after => GroupMove shape e g before.1 before.2 after.1 after.2) (threads, m) state)
    (l : shape.Lane) : (threads l).outline.Comes (shape.worker g l) (state.1 l).outline := by
  induction run with
  | refl => exact .refl
  | tail _ move ih => exact ih.trans (move.outlines l)

/-- **The threads of a launch make the moves of their outlines**, in every order of moves. -/
theorem Kernel.outlines_of_run {kernel : Kernel} {host : String → α} {bindings : Bindings}
    {shape : Shape} {e : Elements α} {m k : Memory α}
    {threads : shape.Group → shape.Lane → Thread α}
    (run : Relation.ReflTransGen
      (fun before after => LaunchMove shape e before.1 before.2 after.1 after.2)
      (fun _ _ => kernel.start host bindings, m) (threads, k)) (g : shape.Group) (l : shape.Lane) :
    (kernel.start host bindings).outline.Comes (shape.worker g l) (threads g l).outline := by
  suffices general : ∀ state, Relation.ReflTransGen
      (fun before after => LaunchMove shape e before.1 before.2 after.1 after.2)
      (fun _ _ => kernel.start host bindings, m) state →
      (kernel.start host bindings).outline.Comes (shape.worker g l) (state.1 g l).outline from
    general _ run
  intro state run
  induction run with
  | refl => exact .refl
  | @tail before after _ move ih =>
    obtain ⟨g', u, moves, after'⟩ := move
    rw [after']
    by_cases here : g = g'
    · subst here
      rw [Function.update_self]
      exact ih.trans (moves.outlines l)
    · rw [Function.update_of_ne here]
      exact ih

/-! ### Accesses -/

/-- An access to a buffer or an array. -/
structure Access where
  array : String
  subscripts : List Term
deriving DecidableEq

namespace Term

/-- The accesses that a term makes which stands before some subscripts. -/
def accessesBefore (subscripts : List Term) : Term → List Access
  | name identifier => if subscripts = [] then [] else [⟨identifier, subscripts⟩]
  | index base subscript =>
    base.accessesBefore (subscript :: subscripts) ++ subscript.accessesBefore []
  | binary _ lhs rhs => lhs.accessesBefore [] ++ rhs.accessesBefore []
  | call₂ _ first second => first.accessesBefore [] ++ second.accessesBefore []
  | negate operand | paren operand | call _ operand | lane operand _ | cast _ operand =>
    operand.accessesBefore []
  | verbatim _ | number _ | count _ | query _ _ => []

/-- The accesses that a term makes. -/
def accesses (t : Term) : List Access := t.accessesBefore []

/-- An index is formed without access to memory. -/
theorem accesses_of_number? {w : Worker} {names : Names α} :
    ∀ {t : Term} {n : Nat}, t.number? w names = some n → t.accesses = []
  | name identifier, _, _ => rfl
  | number _, _, _ | count _, _, _ | query _ _, _, _ => rfl
  | binary op lhs rhs, n, found => by
    obtain ⟨a, left, found⟩ := Option.bind_eq_some_iff.mp found
    obtain ⟨b, right, -⟩ := Option.bind_eq_some_iff.mp found
    show lhs.accesses ++ rhs.accesses = []
    rw [accesses_of_number? left, accesses_of_number? right]
    rfl
  | paren inner, n, found => accesses_of_number? (t := inner) found
  | call₂ function first second, n, found => by
    rw [number?] at found
    split at found
    · obtain ⟨a, left, found⟩ := Option.bind_eq_some_iff.mp found
      obtain ⟨b, right, -⟩ := Option.bind_eq_some_iff.mp found
      show first.accesses ++ second.accesses = []
      rw [accesses_of_number? left, accesses_of_number? right]
      rfl
    · cases found
  | cast type operand, n, found => by
    rw [number?] at found
    split at found
    · exact accesses_of_number? (t := operand) found
    · cases found
  | verbatim _, _, found | negate _, _, found | call _ _, _, found | index _ _, _, found
  | lane _ _, _, found => by cases found

/-- A condition is decided without access to memory. -/
theorem accesses_of_holds? {w : Worker} {names : Names α} :
    ∀ {t : Term} {b : Bool}, t.holds? w names = some b → t.accesses = []
  | binary op lhs rhs, b, found => by
    have both (left : lhs.accesses = []) (right : rhs.accesses = []) :
        (binary op lhs rhs).accesses = [] := by
      show lhs.accesses ++ rhs.accesses = []
      rw [left, right]
      rfl
    cases op with
    | less | equal =>
      obtain ⟨x, left, found⟩ := Option.bind_eq_some_iff.mp found
      obtain ⟨y, right, -⟩ := Option.bind_eq_some_iff.mp found
      exact both (accesses_of_number? left) (accesses_of_number? right)
    | both =>
      obtain ⟨x, left, found⟩ := Option.bind_eq_some_iff.mp found
      obtain ⟨y, right, -⟩ := Option.bind_eq_some_iff.mp found
      exact both (accesses_of_holds? left) (accesses_of_holds? right)
    | add | sub | mul | div | mod => cases found
  | name _, _, found | call₂ _ _ _, _, found | paren _, _, found | cast _ _, _, found
  | number _, _, found | count _, _, found | query _ _, _, found | verbatim _, _, found
  | negate _, _, found | call _ _, _, found | index _ _, _, found | lane _ _, _, found => by
    cases found

end Term

/-- The accesses that a step makes. -/
def Step.accesses : Step → List Access
  | declare _ _ value => value.accesses
  | store target _ value => target.accesses ++ value.accesses
  | declareLocal _ | declareArray _ _ _ | barrier => []

/-- The accesses that the next move of a thread makes. -/
def Thread.accesses (t : Thread α) : List Access :=
  match t.todo with
  | .run (.step s _) :: _ => s.accesses
  | .run (.loop l _ _) :: _ => l.first.accesses
  | .run (.guarded condition _ _) :: _ => condition.accesses
  | .check l _ :: _ => l.condition.accesses
  | .advance l _ :: _ => l.next.accesses
  | .run .done :: _ | [] => []

/-- Whatever a thread comes to, it is at its end or can move on, and makes allowed accesses only. -/
def Thread.Keeps (w : Worker) (allowed : Names Unit → Access → Prop) (t : Thread Unit) : Prop :=
  ∀ t', t.Comes w t' → (t'.todo = [] ∨ (t'.next? w).isSome) ∧ ∀ a ∈ t'.accesses, allowed t'.names a

namespace Thread.Keeps

variable {w : Worker} {allowed : Names Unit → Access → Prop}

theorem ended (names : Names Unit) : Thread.Keeps w allowed ⟨[], names⟩ := by
  intro t' comes
  rcases Relation.ReflTransGen.cases_head comes with rfl | ⟨t₁, moves, -⟩
  · exact ⟨Or.inl rfl, nofun⟩
  · cases moves

/-- A thread keeps to what is allowed that does so now and after its next move. -/
theorem of_next {t : Thread Unit} (t₁ : Thread Unit) (moves : t.next? w = some t₁)
    (here : ∀ a ∈ t.accesses, allowed t.names a) (after : t₁.Keeps w allowed) :
    t.Keeps w allowed := by
  intro t' comes
  rcases Relation.ReflTransGen.cases_head comes with rfl | ⟨t₂, moves', further⟩
  · exact ⟨Or.inr (Option.isSome_iff_exists.mpr ⟨t₁, moves⟩), here⟩
  · cases moves.symm.trans moves'
    exact after t' further

end Thread.Keeps

/-- A launch begins with the names of the kernel, whatever the values are. -/
theorem Kernel.outline_start (kernel : Kernel) (host : String → α) (bindings : Bindings) :
    (kernel.start host bindings).outline = kernel.start (fun _ => ()) bindings := by
  have names : (kernel.names host bindings).outline = kernel.names (fun _ => ()) bindings := by
    funext x
    unfold Names.outline Kernel.names
    cases kernel.arguments.find? fun a => a.name == x with
    | none => rfl
    | some a =>
      obtain ⟨name, kind⟩ := a
      cases kind with
      | buffer element => rfl
      | value type => rfl
      | size =>
        show ((bindings name).map _).map _ = (bindings name).map _
        rw [Option.map_map]
        rfl
  rw [Thread.outline, start, names]
  rfl

/-- **What the outlines of the threads keep to, every launch keeps to**, over every memory and in every
order of moves. -/
theorem Kernel.allowed_of_run {kernel : Kernel} {host : String → α} {bindings : Bindings}
    {shape : Shape} {e : Elements α} {m k : Memory α}
    {threads : shape.Group → shape.Lane → Thread α} {allowed : Names Unit → Access → Prop}
    {g : shape.Group} {l : shape.Lane}
    (keeps : (kernel.start (fun _ => ()) bindings).Keeps (shape.worker g l) allowed)
    (run : Relation.ReflTransGen
      (fun before after => LaunchMove shape e before.1 before.2 after.1 after.2)
      (fun _ _ => kernel.start host bindings, m) (threads, k)) :
    ∀ a ∈ (threads g l).accesses, allowed (threads g l).names.outline a := by
  have comes := outlines_of_run run g l
  rw [outline_start] at comes
  exact (keeps _ comes).2

end TunedKernel
