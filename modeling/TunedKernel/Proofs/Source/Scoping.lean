/-
**Names in scope.**

* `builtins` — the names that kernel code takes from the kernel language.
* `Code.Resolved` — every identifier in the lines of code is in scope, or a name of the language. A
  declaration brings its name into scope for the rest of its block, and a loop its counter for its header
  and its block.
* `Term.Scoped`, `Step.Scoped`, `Loop.Scoped`, `Code.Scoped` — the same, said of the terms: what stands
  for a name is an identifier in scope, and what stands for a number is a numeral.
* `Code.Scoped.resolved` — what is said of the terms holds of the lines.
* `Code.Scoped.append`, `Code.Scoped.ofSteps`, `Walk.Scoped.around` — scoped code from scoped pieces, and
  the walks.
-/

import TunedKernel.Kernel.Tree
import TunedKernel.Kernel.Walk
import TunedKernel.Proofs.Execution.Evaluation
import TunedKernel.Proofs.Source.Words

namespace TunedKernel

open TunedKernel.Text

/-! ### Names of the kernel language -/

/-- The types: those of indices, and those of elements and of vectors of them. -/
def builtinTypes : List String :=
  "unsigned" :: NumericType.all.flatMap fun t => [1, 2, 4, 8, 16].filterMap t.vectorName?

/-- The functions. -/
def builtinFunctions : List String :=
  ["get_global_id", "get_local_id", "get_group_id", "get_global_size", "get_local_size", "barrier",
    "max", "min", "fabs", "abs", "sqrt", "exp", "log"]

/-- The constants. -/
def builtinConstants : List String := "CLK_LOCAL_MEM_FENCE" :: Term.constants

/-- The keywords, with the words of a direction to the compiler. -/
def keywords : List String := ["__local", "for", "if", "pragma", "unroll"]

/-- The selectors of the lanes of a vector. -/
def selectors : List String := (List.range 16).map Term.component

/-- The names that kernel code takes from the kernel language. -/
def builtins : List String :=
  builtinTypes ++ (builtinFunctions ++ (builtinConstants ++ (keywords ++ selectors)))

/-- A name that is in scope or one of the language's. -/
def Named (scope : List String) (x : String) : Prop := x ∈ scope ∨ x ∈ builtins

theorem Named.mono {scope scope' : List String} {x : String} (named : Named scope x)
    (sub : scope ⊆ scope') : Named scope' x :=
  named.imp_left fun member => sub member

/-! ### Lines -/

/-- The name that a statement declares. -/
def Step.declared? : Step → Option String
  | .declare _ name _ | .declareArray _ name _ => some name
  | .declareLocal memory => some memory.name
  | .store .. | .barrier => none

/-- The identifiers that a statement uses: all in its line, except for the name that it declares, where
that stands first. -/
def Step.used (s : Step) : List String :=
  match s.declared? with
  | some name => (identifiers s.text).erase name
  | none => identifiers s.text

/-- The identifiers in the header of a loop, with the lines in front of it, are in scope or the counter;
what the counter starts from does not use the counter. -/
def Loop.Resolved (scope : List String) (l : Loop) : Prop :=
  (∀ x ∈ identifiers l.first.text, Named scope x) ∧
    ∀ line ∈ l.headerLines 0, ∀ x ∈ identifiers line.text, Named (l.counter :: scope) x

namespace Code

/-- Every identifier in the lines of code is in scope, or a name of the language. -/
def Resolved (scope : List String) : Code → Prop
  | done => True
  | step s rest =>
    (∀ x ∈ s.used, Named scope x) ∧ rest.Resolved (s.declared?.toList ++ scope)
  | loop l body rest =>
    l.Resolved scope ∧ body.Resolved (l.counter :: scope) ∧ rest.Resolved scope
  | guarded condition body rest =>
    (∀ x ∈ identifiers (guardHeader condition), Named scope x) ∧ body.Resolved scope ∧
      rest.Resolved scope

end Code

/-! ### Terms -/

/-- A type that kernel code may declare a variable of. -/
def ValueType.Known : ValueType → Prop
  | .index => True
  | .packed _ width => NumericType.isVectorWidth width

theorem ValueType.identifiers_text {type : ValueType} (known : type.Known) :
    ∀ x ∈ identifiers type.text, x ∈ builtinTypes := by
  cases type with
  | index => decide +kernel
  | packed type width =>
    simp only [Known, NumericType.isVectorWidth, Bool.or_eq_true, beq_iff_eq] at known
    rcases known with (((rfl | rfl) | rfl) | rfl) | rfl <;> cases type <;> decide +kernel

namespace Term

/-- A term all of whose names are in scope, and all of whose numbers are numerals. -/
def Scoped (scope : List String) : Term → Prop
  | verbatim s => Text.isNumeral s
  | name x => isWord x ∧ Named scope x
  | number _ | count _ | query _ _ => True
  | binary _ lhs rhs => lhs.Scoped scope ∧ rhs.Scoped scope
  | negate operand | paren operand => operand.Scoped scope
  | call function argument => function ∈ builtinFunctions ∧ argument.Scoped scope
  | call₂ function first second =>
    function ∈ builtinFunctions ∧ first.Scoped scope ∧ second.Scoped scope
  | index base subscript => base.Scoped scope ∧ subscript.Scoped scope
  | lane base n => (∃ x, base = name x) ∧ base.Scoped scope ∧ n < 16
  | cast type operand => (∃ t : ValueType, t.Known ∧ t.text = type) ∧ operand.Scoped scope

variable {scope scope' : List String} {t : Term}

theorem Scoped.mono (inScope : t.Scoped scope) (sub : scope ⊆ scope') : t.Scoped scope' := by
  induction t with
  | verbatim s => exact inScope
  | name x => exact ⟨inScope.1, inScope.2.mono sub⟩
  | number n => trivial
  | count n => trivial
  | query question dimension => trivial
  | binary op lhs rhs left right => exact ⟨left inScope.1, right inScope.2⟩
  | negate operand ih => exact ih inScope
  | paren operand ih => exact ih inScope
  | call function argument ih => exact ⟨inScope.1, ih inScope.2⟩
  | call₂ function first second one two => exact ⟨inScope.1, one inScope.2.1, two inScope.2.2⟩
  | index base subscript one two => exact ⟨one inScope.1, two inScope.2⟩
  | lane base n ih => exact ⟨inScope.1, ih inScope.2.1, inScope.2.2⟩
  | cast type operand ih => exact ⟨inScope.1, ih inScope.2⟩

/-- A term that is a name in scope. -/
theorem scoped_name {x : String} (word : isWord x) (member : x ∈ scope) : (name x).Scoped scope :=
  ⟨word, Or.inl member⟩

theorem isWord_of_function {function : String} (known : function ∈ builtinFunctions) :
    isWord function := by
  revert known function
  decide +kernel

/-- **The identifiers in the text of a scoped term are in scope.** -/
theorem Scoped.identifiers_text (inScope : t.Scoped scope) :
    ∀ x ∈ identifiers t.text, Named scope x := by
  have functions {function : String} (known : function ∈ builtinFunctions) :
      ∀ x ∈ identifiers function, Named scope x := by
    rw [identifiers_word (isWord_of_function known), List.forall_mem_singleton]
    exact Or.inr (List.mem_append_right _ (List.mem_append_left _ known))
  have both {one two : List String} (first : ∀ x ∈ one, Named scope x)
      (second : ∀ x ∈ two, Named scope x) : ∀ x ∈ one ++ two, Named scope x :=
    List.forall_mem_append.mpr ⟨first, second⟩
  induction t with
  | verbatim s =>
    rw [text, identifiers_numeral inScope]
    nofun
  | name x =>
    rw [text, identifiers_word inScope.1, List.forall_mem_singleton]
    exact inScope.2
  | number n =>
    rw [text, identifiers_toString]
    nofun
  | count n =>
    rw [text, identifiers_numeral (isNumeral_toString_append n (by decide))]
    nofun
  | query question dimension =>
    rw [text, identifiers_closed _ (by decide), identifiers_separated _ _ (by decide),
      identifiers_toString, List.append_nil]
    refine functions ?_
    cases question <;> decide
  | binary op lhs rhs left right =>
    have sign : identifiers op.sign = [] := by cases op <;> decide
    rw [text, identifiers_separated _ _ (by decide), identifiers_separated _ _ (by decide), sign,
      List.append_nil]
    exact both (left inScope.1) (right inScope.2)
  | negate operand ih =>
    rw [text, identifiers_opened _ (by decide)]
    exact ih inScope
  | paren operand ih =>
    rw [text, identifiers_closed _ (by decide), identifiers_opened _ (by decide)]
    exact ih inScope
  | call function argument ih =>
    rw [text, identifiers_closed _ (by decide), identifiers_separated _ _ (by decide)]
    exact both (functions inScope.1) (ih inScope.2)
  | call₂ function first second one two =>
    rw [text, identifiers_closed _ (by decide), identifiers_separated _ _ (by decide),
      identifiers_separated _ _ (by decide)]
    exact both (both (functions inScope.1) (one inScope.2.1)) (two inScope.2.2)
  | index base subscript one two =>
    rw [text, identifiers_closed _ (by decide), identifiers_separated _ _ (by decide)]
    exact both (one inScope.1) (two inScope.2)
  | lane base n ih =>
    obtain ⟨⟨x, rfl⟩, ⟨word, named⟩, small⟩ := inScope
    have selector : ∀ n < 16, identifiers (component n) = [component n] := by decide +kernel
    rw [text, text, identifiers_word_point word, selector n small, List.forall_mem_cons,
      List.forall_mem_singleton]
    refine ⟨named, Or.inr ?_⟩
    simp only [builtins, List.mem_append]
    exact Or.inr (Or.inr (Or.inr (Or.inr (List.mem_map_of_mem (List.mem_range.mpr small)))))
  | cast type operand ih =>
    obtain ⟨⟨known, valid, rfl⟩, inner⟩ := inScope
    rw [text, identifiers_closed _ (by decide), identifiers_separated _ _ (by decide),
      identifiers_opened _ (by decide)]
    exact both (fun x member => Or.inr (List.mem_append_left _
      (ValueType.identifiers_text valid x member))) (ih inner)

end Term

/-! ### Statements and headers -/

/-- A statement all of whose names are in scope; the name that it declares is an identifier. -/
def Step.Scoped (scope : List String) : Step → Prop
  | .declare type name value => type.Known ∧ isWord name ∧ value.Scoped scope
  | .declareLocal memory =>
    (∃ type : NumericType, memory.element = type.text) ∧ isWord memory.name
  | .declareArray type name _ => type.Known ∧ isWord name
  | .store target _ value => target.Scoped scope ∧ value.Scoped scope
  | .barrier => True

/-- A header all of whose names are in scope; the counter may stand in the bound and in the step. -/
structure Loop.Scoped (scope : List String) (l : Loop) : Prop where
  counter : isWord l.counter
  first : l.first.Scoped scope
  bound : l.bound.Scoped (l.counter :: scope)
  step : ∀ t ∈ l.step, t.Scoped (l.counter :: scope)

theorem identifiers_dimensions (text : String) (dims : List Nat) :
    identifiers (text ++ LocalMemory.dimensions dims) = identifiers text := by
  unfold LocalMemory.dimensions
  induction dims generalizing text with
  | nil => rw [List.map_nil, String.join_nil, String.append_empty]
  | cons d dims ih =>
    rw [List.map_cons, String.join_cons, ← String.append_assoc, ih, ← String.append_assoc,
      ← String.append_assoc, identifiers_closed _ (by decide), identifiers_separated _ _ (by decide),
      identifiers_toString, List.append_nil]

theorem named_of_type {scope : List String} {type : ValueType} (known : type.Known) :
    ∀ x ∈ identifiers type.text, Named scope x :=
  fun x member => Or.inr (List.mem_append_left _ (ValueType.identifiers_text known x member))

/-- What stays when the name is taken out where it stands first. -/
theorem named_erase {scope before after : List String} {name : String}
    (first : ∀ x ∈ before, Named scope x) (second : ∀ x ∈ after, Named scope x) :
    ∀ x ∈ (before ++ name :: after).erase name, Named scope x := by
  intro x member
  by_cases inside : name ∈ before
  · rcases List.mem_append.mp (List.mem_of_mem_erase member) with left | right
    · exact first x left
    · rcases List.mem_cons.mp right with rfl | right
      · exact first x inside
      · exact second x right
  · rw [List.erase_append_right _ inside, List.erase_cons_head] at member
    exact (List.mem_append.mp member).elim (first x) (second x)

/-- The identifiers that a scoped statement uses are in scope. -/
theorem Step.Scoped.used {scope : List String} {s : Step} (inScope : s.Scoped scope) :
    ∀ x ∈ s.used, Named scope x := by
  cases s with
  | declare type name value =>
    show ∀ x ∈ (identifiers (type.text ++ " " ++ name ++ " = " ++ value.text ++ ";")).erase name, _
    rw [identifiers_closed _ (by decide), identifiers_separated _ _ (by decide),
      identifiers_separated _ _ (by decide), identifiers_word inScope.2.1, List.append_assoc,
      List.singleton_append]
    exact named_erase (named_of_type inScope.1) inScope.2.2.identifiers_text
  | declareLocal memory =>
    obtain ⟨⟨type, element⟩, word⟩ := inScope
    show ∀ x ∈ (identifiers ("__local" ++ " " ++ memory.element ++ " " ++ memory.name ++
      LocalMemory.dimensions memory.dims ++ ";")).erase memory.name, _
    rw [identifiers_closed _ (by decide), identifiers_dimensions, identifiers_separated _ _ (by decide),
      identifiers_separated _ _ (by decide), identifiers_word word, element]
    have words : ∀ x ∈ identifiers "__local" ++ identifiers type.text, Named scope x := by
      intro x member
      refine Or.inr ?_
      revert x
      cases type <;> decide +kernel
    have last : ∀ x ∈ ([] : List String), Named scope x := nofun
    exact named_erase words last
  | declareArray type name dims =>
    show ∀ x ∈ (identifiers (type.text ++ " " ++ name ++ LocalMemory.dimensions dims ++ ";")).erase
      name, _
    rw [identifiers_closed _ (by decide), identifiers_dimensions, identifiers_separated _ _ (by decide),
      identifiers_word inScope.2]
    have last : ∀ x ∈ ([] : List String), Named scope x := nofun
    exact named_erase (named_of_type inScope.1) last
  | store target op value =>
    have token : identifiers op.token = [] := by cases op <;> decide
    show ∀ x ∈ identifiers (target.text ++ " " ++ op.token ++ " " ++ value.text ++ ";"), _
    rw [identifiers_closed _ (by decide), identifiers_separated _ _ (by decide),
      identifiers_separated _ _ (by decide), token, List.append_nil]
    exact List.forall_mem_append.mpr ⟨inScope.1.identifiers_text, inScope.2.identifiers_text⟩
  | barrier => exact fun x member => Or.inr (by revert x; decide +kernel)

/-- The identifiers in a scoped header are in scope. -/
theorem Loop.Scoped.resolved {scope : List String} {l : Loop} (inScope : l.Scoped scope) :
    l.Resolved scope := by
  have counter : ∀ x ∈ identifiers l.counter, Named (l.counter :: scope) x := by
    rw [identifiers_word inScope.counter, List.forall_mem_singleton]
    exact Or.inl List.mem_cons_self
  have opening : ∀ x ∈ identifiers "for (unsigned int", Named (l.counter :: scope) x :=
    fun x member => Or.inr (by revert x; decide +kernel)
  have around {advance : String} (inside : ∀ x ∈ identifiers advance, Named (l.counter :: scope) x) :
      ∀ x ∈ identifiers ("for (unsigned int" ++ " " ++ l.counter ++ " = " ++ l.first.text ++ "; " ++
        l.counter ++ " < " ++ l.bound.text ++ "; " ++ advance ++ ")"), Named (l.counter :: scope) x := by
    rw [identifiers_closed _ (by decide), identifiers_separated _ _ (by decide),
      identifiers_separated _ _ (by decide), identifiers_separated _ _ (by decide),
      identifiers_separated _ _ (by decide), identifiers_separated _ _ (by decide)]
    simp only [List.forall_mem_append]
    exact ⟨⟨⟨⟨⟨opening, counter⟩, fun x member =>
      (inScope.first.identifiers_text x member).mono (List.subset_cons_self _ _)⟩, counter⟩,
      inScope.bound.identifiers_text⟩, inside⟩
  have header : ∀ x ∈ identifiers l.header, Named (l.counter :: scope) x := by
    refine around ?_
    split
    · next step found =>
      rw [identifiers_separated _ _ (by decide)]
      exact List.forall_mem_append.mpr ⟨counter, (inScope.step step found).identifiers_text⟩
    · rw [identifiers_opened _ (by decide)]
      exact counter
  refine ⟨inScope.first.identifiers_text, fun line member => ?_⟩
  unfold headerLines at member
  split at member
  · rcases List.mem_cons.mp member with rfl | last
    · exact fun x member => Or.inr (by revert x; decide +kernel)
    · rw [List.mem_singleton.mp last]
      exact header
  · rw [List.mem_singleton.mp member]
    exact header

/-! ### Code -/

namespace Code

/-- Code all of whose names are in scope where they stand. -/
def Scoped (scope : List String) : Code → Prop
  | done => True
  | step s rest => s.Scoped scope ∧ rest.Scoped (s.declared?.toList ++ scope)
  | loop l body rest =>
    l.Scoped scope ∧ body.Scoped (l.counter :: scope) ∧ rest.Scoped scope
  | guarded condition body rest =>
    condition.Scoped scope ∧ body.Scoped scope ∧ rest.Scoped scope

/-- The names that code declares outside of its blocks. -/
def declared : Code → List String
  | done => []
  | step s rest => s.declared?.toList ++ rest.declared
  | loop _ _ rest | guarded _ _ rest => rest.declared

variable {scope scope' : List String}

/-- **What is said of the terms holds of the lines.** -/
theorem Scoped.resolved {code : Code} (inScope : code.Scoped scope) : code.Resolved scope := by
  induction code generalizing scope with
  | done => trivial
  | step s rest ih => exact ⟨inScope.1.used, ih inScope.2⟩
  | loop l body rest inner ih => exact ⟨inScope.1.resolved, inner inScope.2.1, ih inScope.2.2⟩
  | guarded condition body rest inner ih =>
    refine ⟨?_, inner inScope.2.1, ih inScope.2.2⟩
    show ∀ x ∈ identifiers ("if" ++ " (" ++ condition.text ++ ")"), _
    rw [identifiers_closed _ (by decide), identifiers_separated _ _ (by decide),
      List.forall_mem_append]
    exact ⟨fun x member => Or.inr (by revert x; decide +kernel), inScope.1.identifiers_text⟩

end Code

theorem Step.Scoped.mono {scope scope' : List String} {s : Step} (inScope : s.Scoped scope)
    (sub : scope ⊆ scope') : s.Scoped scope' := by
  cases s with
  | declare type name value => exact ⟨inScope.1, inScope.2.1, inScope.2.2.mono sub⟩
  | declareLocal memory => exact inScope
  | declareArray type name dims => exact inScope
  | store target op value => exact ⟨inScope.1.mono sub, inScope.2.mono sub⟩
  | barrier => trivial

theorem Loop.Scoped.mono {scope scope' : List String} {l : Loop} (inScope : l.Scoped scope)
    (sub : scope ⊆ scope') : l.Scoped scope' where
  counter := inScope.counter
  first := inScope.first.mono sub
  bound := inScope.bound.mono (List.cons_subset_cons _ sub)
  step t member := (inScope.step t member).mono (List.cons_subset_cons _ sub)

namespace Code

variable {scope scope' : List String} {first second : Code}

theorem Scoped.mono {code : Code} (inScope : code.Scoped scope) (sub : scope ⊆ scope') :
    code.Scoped scope' := by
  induction code generalizing scope scope' with
  | done => trivial
  | step s rest ih =>
    exact ⟨inScope.1.mono sub, ih inScope.2 fun x member =>
      (List.mem_append.mp member).elim (List.mem_append_left _) fun other =>
        List.mem_append_right _ (sub other)⟩
  | loop l body rest inner ih =>
    exact ⟨inScope.1.mono sub, inner inScope.2.1 (List.cons_subset_cons _ sub), ih inScope.2.2 sub⟩
  | guarded condition body rest inner ih =>
    exact ⟨inScope.1.mono sub, inner inScope.2.1 sub, ih inScope.2.2 sub⟩

@[simp] theorem declared_append : (first ++ second).declared = first.declared ++ second.declared := by
  induction first with
  | done => rfl
  | step s rest ih => simp [declared, ih]
  | loop l body rest _ ih => simp [declared, ih]
  | guarded condition body rest _ ih => simp [declared, ih]

@[simp] theorem declared_ofSteps (steps : List Step) :
    (ofSteps steps).declared = steps.filterMap Step.declared? := by
  induction steps with
  | nil => rfl
  | cons s rest ih =>
    show s.declared?.toList ++ (ofSteps rest).declared = _
    rw [ih, List.filterMap_cons]
    cases s.declared? <;> rfl

/-- Statements that each declare a name of its own. -/
theorem declared_map {β : Type} {steps : β → Step} {name : β → String}
    (each : ∀ entry, (steps entry).declared? = some (name entry)) (entries : List β) :
    (ofSteps (entries.map steps)).declared = entries.map name := by
  induction entries with
  | nil => rfl
  | cons entry rest ih =>
    show (steps entry).declared?.toList ++ (ofSteps (rest.map steps)).declared = _
    rw [ih, each]
    rfl

@[simp] theorem declared_ofLoop (l : Loop) (body : Code) : (ofLoop l body).declared = [] := rfl

@[simp] theorem declared_ofGuard (condition : Term) (body : Code) :
    (ofGuard condition body).declared = [] := rfl

/-- One piece after another, with what the first one declares in scope. -/
theorem Scoped.append (inScope : first.Scoped scope)
    (after : second.Scoped (first.declared ++ scope)) : (first ++ second).Scoped scope := by
  induction first generalizing scope with
  | done => exact after
  | step s rest ih =>
    refine ⟨inScope.1, ih inScope.2 (after.mono ?_)⟩
    rw [declared, List.append_assoc]
    intro x member
    simp only [List.mem_append] at member ⊢
    tauto
  | loop l body rest _ ih => exact ⟨inScope.1, inScope.2.1, ih inScope.2.2 after⟩
  | guarded condition body rest _ ih => exact ⟨inScope.1, inScope.2.1, ih inScope.2.2 after⟩

/-- One piece after another that declares nothing. -/
theorem Scoped.before (inScope : first.Scoped scope) (silent : first.declared = [])
    (after : second.Scoped scope) : (first ++ second).Scoped scope :=
  inScope.append (silent ▸ after)

/-- Statements that do not use what the others declare. -/
theorem Scoped.ofSteps {steps : List Step} (each : ∀ s ∈ steps, s.Scoped scope) :
    (ofSteps steps).Scoped scope := by
  induction steps generalizing scope with
  | nil => trivial
  | cons s rest ih =>
    rw [List.forall_mem_cons] at each
    exact ⟨each.1, ih fun s member => (each.2 s member).mono (List.subset_append_right _ _)⟩

theorem Scoped.ofGuard {condition : Term} {body : Code} (decided : condition.Scoped scope)
    (inScope : body.Scoped scope) : (ofGuard condition body).Scoped scope := ⟨decided, inScope, trivial⟩

end Code

/-! ### Walks -/

/-- A walk all of whose names are in scope where they stand. -/
structure Walk.Scoped (scope : List String) (w : Walk) : Prop where
  before : (Code.ofSteps w.before).Scoped scope
  header : w.loop.Scoped ((Code.ofSteps w.before).declared ++ scope)
  inside : (Code.ofSteps w.inside).Scoped
    (w.loop.counter :: ((Code.ofSteps w.before).declared ++ scope))

namespace Walk

variable {scope : List String} {counter : String} {bound lane first : Term} {body : Code}

/-- The names that are in scope in the block of a walk. -/
def visible (w : Walk) : List String :=
  (Code.ofSteps w.inside).declared ++ w.loop.counter :: (Code.ofSteps w.before).declared

/-- A walk around a block. -/
theorem Scoped.around {w : Walk} (inScope : w.Scoped scope) (block : body.Scoped (w.visible ++ scope)) :
    (w.around body).Scoped scope := by
  refine inScope.before.append ⟨inScope.header, inScope.inside.append ?_, trivial⟩
  rwa [visible, List.append_assoc, List.cons_append] at block

theorem scoped_strided (word : isWord counter) (dimension : Nat) (bounded : bound.Scoped scope) :
    (strided counter dimension bound).Scoped scope where
  before := trivial
  header := ⟨word, trivial, bounded.mono (List.subset_cons_self _ _), fun t found => by
    cases found
    trivial⟩
  inside := trivial

theorem scoped_chunked (words : ∀ tail ∈ ["", "_chunk", "_start", "_stop"], isWord (counter ++ tail))
    (dimension : Nat) (bounded : bound.Scoped scope) : (chunked counter dimension bound).Scoped scope := by
  simp only [List.forall_mem_cons, String.append_empty] at words
  obtain ⟨word, chunk, start, stop, -⟩ := words
  have first : (Term.name (counter ++ "_start")).Scoped
      ((Code.ofSteps (chunked counter dimension bound).before).declared ++ scope) :=
    Term.scoped_name start (by simp [chunked, Step.declared?])
  have last : (Term.name (counter ++ "_stop")).Scoped
      (counter :: ((Code.ofSteps (chunked counter dimension bound).before).declared ++ scope)) :=
    Term.scoped_name stop (by simp [chunked, Step.declared?])
  refine ⟨⟨⟨trivial, chunk, ⟨⟨⟨bounded, trivial⟩, trivial⟩, trivial⟩⟩, ⟨trivial, start, trivial, ?_⟩,
    ⟨trivial, stop, by decide, ⟨?_, ?_⟩, ⟨⟨.index, trivial, rfl⟩, bounded.mono ?_⟩⟩, trivial⟩,
    ⟨word, first, last, nofun⟩, trivial⟩
  · exact Term.scoped_name chunk List.mem_cons_self
  · exact Term.scoped_name start List.mem_cons_self
  · exact Term.scoped_name chunk (List.mem_cons_of_mem _ List.mem_cons_self)
  · exact List.subset_cons_of_subset _ (List.subset_cons_self _ _)

theorem scoped_split (strided : Bool)
    (words : ∀ tail ∈ ["", "_chunk", "_start", "_stop"], isWord (counter ++ tail)) (dimension : Nat)
    (bounded : bound.Scoped scope) : (split strided counter dimension bound).Scoped scope := by
  cases strided with
  | true =>
    have word := words "" List.mem_cons_self
    rw [String.append_empty] at word
    exact scoped_strided word dimension bounded
  | false => exact scoped_chunked words dimension bounded

theorem mem_visible_split (strided : Bool) (dimension : Nat) :
    counter ∈ (split strided counter dimension bound).visible := by
  cases strided <;> exact List.mem_append_right _ List.mem_cons_self

theorem scoped_uniform (word : isWord counter) (base : isWord (counter ++ "_base")) (dimension : Nat)
    (bounded : bound.Scoped scope) : (uniform counter dimension bound).Scoped scope where
  before := trivial
  header := ⟨base, ⟨trivial, trivial⟩, bounded.mono (List.subset_cons_self _ _), fun t found => by
    cases found
    trivial⟩
  inside := ⟨⟨trivial, word, Term.scoped_name base List.mem_cons_self, trivial⟩, trivial⟩

theorem scoped_byGroup (word : isWord counter) (number : lane.Scoped scope) (dimension n : Nat) :
    (byGroup counter lane dimension n).Scoped scope where
  before := trivial
  header := ⟨word, number, trivial, fun t found => by
    cases found
    trivial⟩
  inside := trivial

theorem scoped_stepped (word : isWord counter) (bounded : bound.Scoped scope) (step : Nat) :
    (stepped counter bound step).Scoped scope where
  before := trivial
  header := ⟨word, trivial, bounded.mono (List.subset_cons_self _ _), fun t found => by
    cases found
    trivial⟩
  inside := trivial

theorem scoped_counted (word : isWord counter) (n : Nat) : (counted counter n).Scoped scope where
  before := trivial
  header := ⟨word, trivial, trivial, nofun⟩
  inside := trivial

theorem scoped_cooperative (word : isWord counter) (number : first.Scoped scope) (n step : Nat) :
    (cooperative counter first n step).Scoped scope where
  before := trivial
  header := ⟨word, number, trivial, fun t found => by
    cases found
    trivial⟩
  inside := trivial

end Walk

end TunedKernel
