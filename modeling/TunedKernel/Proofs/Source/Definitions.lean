/-
**What is read from a written program.**

* `Text.isPlain` — a text that stays on its line and opens or closes no block; the lines of plain code are
  plain, except for the braces around its blocks, and scoped code is plain.
* `Code.memories` — the shared arrays that code declares; `Code.Scoped.declarations` — their declarations are
  the rows of the code that a reader takes for such.
* `Kernel.Legible`, `Kernel.definition` — a kernel whose text can be read, and what it says of the launch.
* `readDefinitions?_source` — the text of a program is read as the definitions of its kernels, in order.
-/

import TunedKernel.Kernel.Program
import TunedKernel.Proofs.Source.Reading
import TunedKernel.Proofs.Source.Scoping

namespace TunedKernel

namespace Text

/-! ### Plain text -/

/-- A text without the end of a line and without braces. -/
def isPlain (s : String) : Bool := s.toList.all fun c => c != '\n' && c != '\x7b' && c != '\x7d'

@[simp] theorem isPlain_append (s t : String) : isPlain (s ++ t) = (isPlain s && isPlain t) := by
  rw [isPlain, String.toList_append, List.all_append]
  rfl

theorem isPlain_of_all {s : String} {p : Char → Bool} (all : s.toList.all p) (newline : p '\n' = false)
    (opening : p '\x7b' = false) (closing : p '\x7d' = false) : isPlain s := by
  rw [isPlain, List.all_eq_true]
  intro c member
  have holds := List.all_eq_true.mp all c member
  simp only [Bool.and_eq_true, bne_iff_ne]
  refine ⟨⟨?_, ?_⟩, ?_⟩
  · rintro rfl
    exact Bool.false_ne_true (newline.symm.trans holds)
  · rintro rfl
    exact Bool.false_ne_true (opening.symm.trans holds)
  · rintro rfl
    exact Bool.false_ne_true (closing.symm.trans holds)

theorem all_isWordChar {x : String} (word : isWord x) : x.toList.all isWordChar := by
  unfold isWord at word
  split at word
  · cases word
  · next first rest chars =>
    rw [Bool.and_eq_true] at word
    rw [chars, List.all_cons, isWordChar, word.1, word.2]
    rfl

theorem isPlain_word {x : String} (word : isWord x) : isPlain x :=
  isPlain_of_all (all_isWordChar word) (by decide) (by decide) (by decide)

@[simp] theorem isPlain_repr (n : Nat) : isPlain n.repr :=
  isPlain_of_all (all_isDigit_toString n) (by decide) (by decide) (by decide)

/-- The characters of numerals. -/
def isNumeralChar (c : Char) : Bool := isWordChar c || c == '.' || c == '+' || c == '-'

theorem all_isNumeralChar_tail {exponent : Bool} {cs : List Char} (tail : isNumeralTail exponent cs) :
    cs.all isNumeralChar := by
  induction cs generalizing exponent with
  | nil => rfl
  | cons c cs ih =>
    rw [isNumeralTail] at tail
    rw [List.all_cons, Bool.and_eq_true]
    split at tail
    · next inside => exact ⟨by rw [isNumeralChar, inside]; rfl, ih tail⟩
    · rw [Bool.and_eq_true, Bool.and_eq_true] at tail
      refine ⟨?_, ih tail.2⟩
      rw [isNumeralChar, Bool.or_assoc, tail.1.2, Bool.or_true]

theorem isPlain_numeral {s : String} (numeral : isNumeral s) : isPlain s := by
  have digit {c : Char} (is : c.isDigit) : isNumeralChar c := by
    rw [isNumeralChar, isWordChar, is, Bool.or_true]
    rfl
  have unsigned {cs : List Char} (numeral : isUnsignedNumeral cs) : cs.all isNumeralChar := by
    unfold isUnsignedNumeral at numeral
    split at numeral
    · cases numeral
    · rw [Bool.and_eq_true] at numeral
      rw [List.all_cons, List.all_cons, digit numeral.1, all_isNumeralChar_tail numeral.2]
      rfl
    · rw [Bool.and_eq_true] at numeral
      rw [List.all_cons, digit numeral.1, all_isNumeralChar_tail numeral.2]
      rfl
  have all : s.toList.all isNumeralChar := by
    unfold isNumeral at numeral
    split at numeral
    · next chars => rw [chars, List.all_cons, unsigned numeral]; rfl
    · next chars => rw [chars, List.all_cons, unsigned numeral]; rfl
    · exact unsigned numeral
  exact isPlain_of_all all (by decide) (by decide) (by decide)

end Text

open Text

/-! ### Plain code -/

theorem ValueType.isPlain_text (type : ValueType) : isPlain type.text := by
  cases type with
  | index => decide
  | packed type width =>
    have plain : isPlain type.text := by cases type <;> decide
    by_cases one : width = 1
    · simp [text, one, plain]
    · simp [text, one, plain]

/-- Whether the texts that are put into a term are plain. -/
def Term.isPlain : Term → Bool
  | verbatim s => Text.isPlain s
  | name x => Text.isPlain x
  | number _ | count _ | query _ _ => true
  | binary _ lhs rhs => lhs.isPlain && rhs.isPlain
  | negate operand | paren operand => operand.isPlain
  | call function argument => Text.isPlain function && argument.isPlain
  | call₂ function first second => Text.isPlain function && first.isPlain && second.isPlain
  | index base subscript => base.isPlain && subscript.isPlain
  | lane base _ => base.isPlain
  | cast type operand => Text.isPlain type && operand.isPlain

/-- Whether the texts that are put into a statement are plain. -/
def Step.isPlain : Step → Bool
  | declare _ name value => Text.isPlain name && value.isPlain
  | declareLocal memory => Text.isPlain memory.element && Text.isPlain memory.name
  | declareArray _ name _ => Text.isPlain name
  | store target _ value => target.isPlain && value.isPlain
  | barrier => true

/-- Whether the texts that are put into a header are plain. -/
def Loop.isPlain (l : Loop) : Bool :=
  Text.isPlain l.counter && l.first.isPlain && l.bound.isPlain && l.step.all Term.isPlain

/-- The selector of a lane is plain. -/
theorem isPlain_component (n : Nat) : isPlain (Term.component n) := by
  have digits : ∀ c ∈ Nat.toDigits 16 n, ∃ k < 16, c = Nat.digitChar k := by
    induction n using Nat.strongRecOn with
    | _ n ih =>
      intro c member
      by_cases small : n < 16
      · rw [Nat.toDigits_of_lt_base small] at member
        exact ⟨n, small, List.mem_singleton.mp member⟩
      · rw [Nat.toDigits_of_base_le (by decide) (Nat.le_of_not_lt small)] at member
        rcases List.mem_append.mp member with front | last
        · exact ih (n / 16) (Nat.div_lt_self (by omega) (by decide)) c front
        · exact ⟨n % 16, Nat.mod_lt n (by decide), List.mem_singleton.mp last⟩
  have plain : ∀ k < 16, (Nat.digitChar k != '\n' && Nat.digitChar k != '\x7b' &&
      Nat.digitChar k != '\x7d') = true := by decide
  rw [Term.component, isPlain_append, Bool.and_eq_true]
  refine ⟨by decide, ?_⟩
  rw [isPlain, String.toList_ofList, List.all_eq_true]
  intro c member
  obtain ⟨k, less, rfl⟩ := digits c member
  exact plain k less

/-- The text of a plain term is plain. -/
theorem Term.isPlain_text {t : Term} (plain : t.isPlain) : Text.isPlain t.text := by
  induction t with
  | verbatim s => exact plain
  | name x => exact plain
  | number n => exact isPlain_repr n
  | count n => simp [text, show Text.isPlain "u" from by decide]
  | query question dimension =>
    have function : Text.isPlain question.function := by cases question <;> decide
    simp [text, function, show Text.isPlain "(" from by decide, show Text.isPlain ")" from by decide]
  | binary op lhs rhs left right =>
    rw [isPlain, Bool.and_eq_true] at plain
    have sign : Text.isPlain op.sign := by cases op <;> decide
    simp [text, left plain.1, right plain.2, sign, show Text.isPlain " " from by decide]
  | negate operand ih => simp [text, ih plain, show Text.isPlain "-" from by decide]
  | paren operand ih =>
    simp [text, ih plain, show Text.isPlain "(" from by decide, show Text.isPlain ")" from by decide]
  | call function argument ih =>
    rw [isPlain, Bool.and_eq_true] at plain
    simp [text, plain.1, ih plain.2, show Text.isPlain "(" from by decide,
      show Text.isPlain ")" from by decide]
  | call₂ function first second one two =>
    rw [isPlain, Bool.and_eq_true, Bool.and_eq_true] at plain
    simp [text, plain.1.1, one plain.1.2, two plain.2, show Text.isPlain "(" from by decide,
      show Text.isPlain ", " from by decide, show Text.isPlain ")" from by decide]
  | index base subscript one two =>
    rw [isPlain, Bool.and_eq_true] at plain
    simp [text, one plain.1, two plain.2, show Text.isPlain "[" from by decide,
      show Text.isPlain "]" from by decide]
  | lane base n ih =>
    simp [text, ih plain, isPlain_component, show Text.isPlain "." from by decide]
  | cast type operand ih =>
    rw [isPlain, Bool.and_eq_true] at plain
    simp [text, plain.1, ih plain.2, show Text.isPlain "(" from by decide,
      show Text.isPlain ")(" from by decide, show Text.isPlain ")" from by decide]

theorem isPlain_dimensions (dims : List Nat) : isPlain (LocalMemory.dimensions dims) := by
  unfold LocalMemory.dimensions
  induction dims with
  | nil => rfl
  | cons d dims ih =>
    rw [List.map_cons, String.join_cons, isPlain_append, ih]
    simp [show isPlain "[" from by decide, show isPlain "]" from by decide]

/-- The text of a plain statement is plain. -/
theorem Step.isPlain_text {s : Step} (plain : s.isPlain) : Text.isPlain s.text := by
  have blank : Text.isPlain " " := by decide
  have ends : Text.isPlain ";" := by decide
  cases s with
  | declare type name value =>
    rw [isPlain, Bool.and_eq_true] at plain
    simp [Step.text, type.isPlain_text, plain.1, Term.isPlain_text plain.2, blank, ends,
      show Text.isPlain " = " from by decide]
  | declareLocal memory =>
    rw [isPlain, Bool.and_eq_true] at plain
    simp [Step.text, LocalMemory.declaration, plain.1, plain.2, isPlain_dimensions, blank, ends,
      show Text.isPlain "__local " from by decide]
  | declareArray type name dims =>
    simp [Step.text, type.isPlain_text, show Text.isPlain name from plain, isPlain_dimensions, blank, ends]
  | store target op value =>
    rw [isPlain, Bool.and_eq_true] at plain
    have token : Text.isPlain op.token := by cases op <;> decide
    simp [Step.text, Term.isPlain_text plain.1, Term.isPlain_text plain.2, token, blank, ends]
  | barrier => decide

/-- The header of a plain loop is plain. -/
theorem Loop.isPlain_header {l : Loop} (plain : l.isPlain) : Text.isPlain l.header := by
  simp only [isPlain, Bool.and_eq_true] at plain
  obtain ⟨⟨⟨counter, first⟩, bound⟩, step⟩ := plain
  have first := Term.isPlain_text first
  have bound := Term.isPlain_text bound
  cases found : l.step with
  | none =>
    unfold header
    simp only [found, isPlain_append, counter, first, bound]
    decide +kernel
  | some t =>
    rw [found] at step
    have step := Term.isPlain_text (t := t) step
    unfold header
    simp only [found, isPlain_append, counter, first, bound, step]
    decide +kernel

/-- The lines in front of the block of a plain loop are plain. -/
theorem Loop.isPlain_headerLines {l : Loop} (plain : l.isPlain) (depth : Nat) :
    ∀ line ∈ l.headerLines depth, Text.isPlain line.text := by
  intro line member
  unfold headerLines at member
  split at member
  · rcases List.mem_cons.mp member with rfl | last
    · show Text.isPlain "#pragma unroll"
      decide
    · rw [List.mem_singleton.mp last]
      exact isPlain_header plain
  · rw [List.mem_singleton.mp member]
    exact isPlain_header plain

theorem Term.isPlain_guardHeader {condition : Term} (plain : condition.isPlain) :
    Text.isPlain (Code.guardHeader condition) := by
  simp only [Code.guardHeader, isPlain_append, isPlain_text plain]
  decide

/-! ### Lines of scoped code -/

variable {scope : List String}

/-- A scoped term is plain. -/
theorem Term.Scoped.isPlain {t : Term} (inScope : t.Scoped scope) : t.isPlain := by
  induction t with
  | verbatim s => exact isPlain_numeral inScope
  | name x => exact isPlain_word inScope.1
  | number | count | query => rfl
  | binary op lhs rhs left right => simp [Term.isPlain, left inScope.1, right inScope.2]
  | negate operand ih | paren operand ih => exact ih inScope
  | call function argument ih =>
    simp [Term.isPlain, isPlain_word (isWord_of_function inScope.1), ih inScope.2]
  | call₂ function first second one two =>
    simp [Term.isPlain, isPlain_word (isWord_of_function inScope.1), one inScope.2.1, two inScope.2.2]
  | index base subscript one two => simp [Term.isPlain, one inScope.1, two inScope.2]
  | lane base n ih => exact ih inScope.2.1
  | cast type operand ih =>
    obtain ⟨⟨known, -, rfl⟩, inner⟩ := inScope
    simp [Term.isPlain, known.isPlain_text, ih inner]

/-- A scoped statement is plain. -/
theorem Step.Scoped.isPlain {s : Step} (inScope : s.Scoped scope) : s.isPlain := by
  cases s with
  | declare type name value =>
    simp [Step.isPlain, isPlain_word inScope.2.1, inScope.2.2.isPlain]
  | declareLocal memory =>
    obtain ⟨⟨type, element⟩, word⟩ := inScope
    have plain : Text.isPlain type.text := by cases type <;> decide
    simp [Step.isPlain, element, plain, isPlain_word word]
  | declareArray type name dims => exact isPlain_word inScope.2
  | store target op value => simp [Step.isPlain, inScope.1.isPlain, inScope.2.isPlain]
  | barrier => rfl

/-- The header of a scoped loop is plain. -/
theorem Loop.Scoped.isPlain {l : Loop} (inScope : l.Scoped scope) : l.isPlain := by
  have step : l.step.all Term.isPlain := by
    cases found : l.step with
    | none => rfl
    | some t => exact (inScope.step t found).isPlain
  simp [Loop.isPlain, isPlain_word inScope.counter, inScope.first.isPlain, inScope.bound.isPlain, step]

/-- The row that a line is read as. -/
def Line.row (line : Line) : List Char := unindent line.text.toList

/-- The row of a plain text has no brace. -/
theorem notMem_row {line : Line} (plain : isPlain line.text) :
    '\x7b' ∉ line.row ∧ '\x7d' ∉ line.row := by
  rw [Line.row, mem_unindent (by decide), mem_unindent (by decide)]
  constructor
  all_goals
    intro member
    have excluded := List.all_eq_true.mp plain _ member
    revert excluded
    decide

theorem notMem_text {s : String} (plain : isPlain s) : '\n' ∉ s.toList := by
  intro member
  have excluded := List.all_eq_true.mp plain _ member
  revert excluded
  decide

theorem Line.row_opening (depth : Nat) : (Line.opening depth).row = ['\x7b'] := by
  show unindent "\x7b".toList = _
  decide

theorem Line.row_closing (depth : Nat) : (Line.closing depth).row = ['\x7d'] := by
  show unindent "\x7d".toList = _
  decide

section

variable {shape signature : List Char} {read rest : List (List Char)} {blocks : Nat}

/-- Plain lines are read as rows of the body. -/
theorem definitionsFrom_lines {ls : List Line} (plain : ∀ line ∈ ls, isPlain line.text) :
    definitionsFrom (.body shape signature read blocks) (ls.map Line.row ++ rest) =
      definitionsFrom (.body shape signature (read ++ ls.map Line.row) blocks) rest := by
  induction ls generalizing read with
  | nil => simp
  | cons line ls ih =>
    rw [List.forall_mem_cons] at plain
    have free := notMem_row plain.1
    have opening : line.row ≠ ['\x7b'] := by
      intro is
      exact free.1 (is ▸ List.mem_cons_self)
    have closing : line.row ≠ ['\x7d'] := by
      intro is
      exact free.2 (is ▸ List.mem_cons_self)
    simp only [List.map_cons, List.cons_append, definitionsFrom, if_neg opening, if_neg closing,
      if_neg (not_or.mpr free)]
    rw [ih plain.2, List.append_assoc, List.singleton_append]

/-- A block between two braces is read as rows of the body, if what stands between them is. -/
theorem definitionsFrom_block {block : List (List Char)}
    (inner : ∀ read rest, definitionsFrom (.body shape signature read (blocks + 1)) (block ++ rest) =
      definitionsFrom (.body shape signature (read ++ block) (blocks + 1)) rest) :
    definitionsFrom (.body shape signature read blocks) (['\x7b'] :: (block ++ ['\x7d'] :: rest)) =
      definitionsFrom (.body shape signature (read ++ ['\x7b'] :: (block ++ [['\x7d']])) blocks) rest := by
  simp only [definitionsFrom, if_pos, inner, if_neg (show ['\x7d'] ≠ ['\x7b'] by decide),
    List.append_assoc, List.cons_append, List.nil_append]

end

namespace Code

/-- The lines of scoped code stay on their rows. -/
theorem Scoped.single {code : Code} (inScope : code.Scoped scope) (depth : Nat) :
    ∀ line ∈ code.lines depth, '\n' ∉ line.text.toList := by
  have brace (depth : Nat) : '\n' ∉ (Line.opening depth).text.toList ∧
      '\n' ∉ (Line.closing depth).text.toList := by
    show '\n' ∉ "\x7b".toList ∧ '\n' ∉ "\x7d".toList
    decide
  induction code generalizing scope depth with
  | done => exact fun _ none => (List.not_mem_nil none).elim
  | step s code ih =>
    exact List.forall_mem_cons.mpr ⟨notMem_text (Step.isPlain_text inScope.1.isPlain), ih inScope.2 depth⟩
  | loop l body code inner ih =>
    simp only [lines, List.forall_mem_append, List.forall_mem_cons]
    exact ⟨fun line member => notMem_text (Loop.isPlain_headerLines inScope.1.isPlain depth line member),
      (brace depth).1, inner inScope.2.1 _, (brace depth).2, ih inScope.2.2 depth⟩
  | guarded condition body code inner ih =>
    simp only [lines, List.forall_mem_append, List.forall_mem_cons]
    exact ⟨notMem_text (Term.isPlain_guardHeader inScope.1.isPlain), (brace depth).1, inner inScope.2.1 _,
      (brace depth).2, ih inScope.2.2 depth⟩

/-- **Scoped code is read to its end**, and leaves as many blocks open as there were. -/
theorem Scoped.definitionsFrom {code : Code} (inScope : code.Scoped scope) (depth : Nat)
    {shape signature : List Char} (read : List (List Char)) (blocks : Nat) (rest : List (List Char)) :
    definitionsFrom (.body shape signature read blocks) ((code.lines depth).map Line.row ++ rest) =
      definitionsFrom (.body shape signature (read ++ (code.lines depth).map Line.row) blocks) rest := by
  induction code generalizing scope depth read blocks rest with
  | done => simp [lines]
  | step s code ih =>
    show TunedKernel.definitionsFrom _ ([(⟨depth, s.text⟩ : Line)].map Line.row ++ _ ++ rest) = _
    have plain : ∀ line ∈ [(⟨depth, s.text⟩ : Line)], Text.isPlain line.text :=
      List.forall_mem_singleton.mpr (Step.isPlain_text inScope.1.isPlain)
    rw [List.append_assoc, definitionsFrom_lines plain, ih inScope.2, List.append_assoc]
    rfl
  | loop l body code inner ih =>
    simp only [lines, List.map_append, List.map_cons, Line.row_opening, Line.row_closing,
      List.append_assoc, List.cons_append]
    rw [definitionsFrom_lines (Loop.isPlain_headerLines inScope.1.isPlain depth),
      definitionsFrom_block fun read rest => inner inScope.2.1 _ read _ rest, ih inScope.2.2]
    simp
  | guarded condition body code inner ih =>
    simp only [lines, List.map_append, List.map_cons, Line.row_opening, Line.row_closing,
      List.append_assoc, List.cons_append]
    have plain : ∀ line ∈ [(⟨depth, guardHeader condition⟩ : Line)], isPlain line.text :=
      List.forall_mem_singleton.mpr (Term.isPlain_guardHeader inScope.1.isPlain)
    refine (definitionsFrom_lines plain).trans ?_
    rw [definitionsFrom_block fun read rest => inner inScope.2.1 _ read _ rest, ih inScope.2.2]
    simp

end Code

/-! ### Shared arrays -/

/-- An array of elements of a numeric type, under a name that is an identifier. -/
structure LocalMemory.Legible (memory : LocalMemory) : Prop where
  element : ∃ type : NumericType, memory.element = type.text
  word : isWord memory.name

/-- A character that no identifier has. -/
theorem notMem_word {x : String} (word : isWord x) {c : Char} (other : isWordChar c = false) :
    c ∉ x.toList := fun member =>
  Bool.false_ne_true (other.symm.trans (List.all_eq_true.mp (all_isWordChar word) c member))

theorem NumericType.isWord_text (type : NumericType) : isWord type.text := by cases type <;> decide

/-- The dimensions behind a name, taken apart at their brackets. -/
theorem splitOn_dimensions (dims : List Nat) {before : List Char} (free : '[' ∉ before) :
    (before ++ (LocalMemory.dimensions dims).toList).splitOn '[' =
      before :: dims.map fun d => (toString d).toList ++ [']'] := by
  unfold LocalMemory.dimensions
  induction dims generalizing before with
  | nil => rw [List.map_nil, String.join_nil, String.toList_empty, List.append_nil,
      List.splitOn_eq_singleton free, List.map_nil]
  | cons d dims ih =>
    have bracket : ("[" ++ toString d ++ "]").toList = '[' :: ((toString d).toList ++ [']']) := by
      rw [String.toList_append, String.toList_append]
      rfl
    have number : '[' ∉ (toString d).toList ++ [']'] := by
      rw [List.mem_append, not_or]
      exact ⟨notMem_toString d (by decide), by decide⟩
    rw [List.map_cons, String.join_cons, String.toList_append, bracket, List.cons_append,
      List.splitOn_append_cons_self, List.splitOn_eq_singleton free, ih number]
    rfl

/-- A character that is neither a digit nor a bracket. -/
theorem notMem_dimensions (dims : List Nat) {c : Char} (other : c.isDigit = false)
    (opening : c ∉ "[".toList) (closing : c ∉ "]".toList) : c ∉ (LocalMemory.dimensions dims).toList := by
  unfold LocalMemory.dimensions
  rw [String.toList_join, List.mem_flatMap]
  rintro ⟨text, member, inside⟩
  obtain ⟨d, -, rfl⟩ := List.mem_map.mp member
  rw [String.toList_append, String.toList_append, List.mem_append, List.mem_append] at inside
  rcases inside with (bracket | number) | bracket
  · exact opening bracket
  · exact notMem_toString d other number
  · exact closing bracket

/-- **The declaration of a shared array is read as the array.** -/
theorem LocalMemory.Legible.readMemory?_declaration {memory : LocalMemory} (legible : memory.Legible) :
    readMemory? memory.declaration.toList = some memory := by
  obtain ⟨⟨type, element⟩, word⟩ := legible
  have free : ' ' ∉ memory.element.toList := element ▸ notMem_word type.isWord_text (by decide)
  have declarator : ' ' ∉ memory.name.toList ++ (dimensions memory.dims).toList := by
    rw [List.mem_append, not_or]
    exact ⟨notMem_word word (by decide),
      notMem_dimensions memory.dims (by decide) (by decide) (by decide)⟩
  have written : memory.declaration.toList = "__local ".toList ++ (memory.element.toList ++
      ' ' :: (memory.name.toList ++ (dimensions memory.dims).toList) ++ ";".toList) := by
    have blank : (" ").toList = [' '] := rfl
    simp only [declaration, String.toList_append, List.append_assoc, blank, List.cons_append,
      List.nil_append]
  have numbers : (memory.dims.map fun d => (toString d).toList ++ [']']).mapM
      (fun d => (between? "" "]" d).bind readNumber?) = some memory.dims := by
    induction memory.dims with
    | nil => rfl
    | cons d dims ih =>
      have number : (between? "" "]" ((toString d).toList ++ [']'])).bind readNumber? = some d := by
        rw [show (toString d).toList ++ [']'] = "".toList ++ ((toString d).toList ++ "]".toList) from rfl,
          between?_append]
        exact readNumber?_toString d
      rw [List.map_cons, List.mapM_cons, number, ih]
      rfl
  unfold readMemory?
  rw [written, between?_append]
  simp only [Option.bind_eq_bind, Option.bind_some, List.splitOn_append_cons_self,
    List.splitOn_eq_singleton free, List.splitOn_eq_singleton declarator, List.singleton_append,
    splitOn_dimensions memory.dims (notMem_word word (c := '[') (by decide)), numbers,
    String.ofList_toList]
  rfl

theorem mapM_declarations {memories : List LocalMemory} (legible : ∀ memory ∈ memories, memory.Legible) :
    (memories.map fun memory => memory.declaration.toList).mapM readMemory? = some memories := by
  induction memories with
  | nil => rfl
  | cons memory memories ih =>
    rw [List.forall_mem_cons] at legible
    rw [List.map_cons, List.mapM_cons, legible.1.readMemory?_declaration, ih legible.2]
    rfl

/-- The shared array that a step declares. -/
def Step.memory? : Step → Option LocalMemory
  | declareLocal memory => some memory
  | declare .. | declareArray .. | store .. | barrier => none

namespace Code

/-- The shared arrays that code declares. -/
def memories : Code → List LocalMemory
  | done => []
  | step s rest => s.memory?.toList ++ rest.memories
  | loop _ body rest | guarded _ body rest => body.memories ++ rest.memories

@[simp] theorem memories_append (first second : Code) :
    (first ++ second).memories = first.memories ++ second.memories := by
  induction first with
  | done => rfl
  | step s rest ih => simp [memories, ih]
  | loop l body rest _ ih => simp [memories, ih]
  | guarded condition body rest _ ih => simp [memories, ih]

/-- The arrays of scoped code are legible. -/
theorem Scoped.legible {code : Code} (inScope : code.Scoped scope) :
    ∀ memory ∈ code.memories, memory.Legible := by
  induction code generalizing scope with
  | done => exact fun _ none => (List.not_mem_nil none).elim
  | step s code ih =>
    refine List.forall_mem_append.mpr ⟨fun memory member => ?_, ih inScope.2⟩
    cases s with
    | declareLocal declared =>
      obtain rfl := List.mem_singleton.mp member
      exact ⟨inScope.1.1, inScope.1.2⟩
    | declare | declareArray | store | barrier => exact (List.not_mem_nil member).elim
  | loop l body code inner ih =>
    exact List.forall_mem_append.mpr ⟨inner inScope.2.1, ih inScope.2.2⟩
  | guarded condition body code inner ih =>
    exact List.forall_mem_append.mpr ⟨inner inScope.2.1, ih inScope.2.2⟩

end Code

theorem head?_toList_append {s t : String} {c : Char} (begins : s.toList.head? = some c) :
    (s ++ t).toList.head? = some c := by
  rw [String.toList_append, List.head?_append, begins, Option.some_or]

/-- A text that begins with another character declares no array. -/
theorem declaresMemory_eq_false {c : Char} (solid : c ≠ ' ') (other : c ≠ '_') {cs : List Char}
    (begins : cs.head? = some c) : declaresMemory (unindent cs) = false := by
  obtain ⟨rest, rfl⟩ := List.head?_eq_some_iff.mp begins
  rw [unindent_of_head (by simpa using solid), declaresMemory]
  have differ : "__local ".toList.isPrefixOf (c :: rest) = false := by
    rw [show "__local ".toList = '_' :: "_local ".toList by decide +kernel, List.isPrefixOf_cons_cons,
      beq_eq_false_iff_ne.mpr other.symm, Bool.false_and]
  rw [differ, Bool.false_and]

/-- An assignment declares no array. -/
theorem declaresMemory_assignment {cs : List Char} (assigns : '=' ∈ cs) :
    declaresMemory (unindent cs) = false := by
  have inside : (unindent cs).contains '=' :=
    List.contains_iff_mem.mpr ((mem_unindent (by decide)).mpr assigns)
  rw [declaresMemory, inside, Bool.not_true, Bool.and_false]

theorem LocalMemory.Legible.declaresMemory {memory : LocalMemory} (legible : memory.Legible) :
    unindent memory.declaration.toList = memory.declaration.toList ∧
      declaresMemory memory.declaration.toList := by
  obtain ⟨⟨type, element⟩, word⟩ := legible
  have free : '=' ∉ memory.declaration.toList := by
    simp only [declaration, String.toList_append, List.mem_append, not_or]
    exact ⟨⟨⟨⟨⟨by decide, element ▸ notMem_word type.isWord_text (by decide)⟩, by decide⟩,
      notMem_word word (by decide)⟩,
      notMem_dimensions memory.dims (by decide) (by decide) (by decide)⟩, by decide⟩
  have begins : memory.declaration.toList = "__local ".toList ++
      (memory.element ++ " " ++ memory.name ++ dimensions memory.dims ++ ";").toList := by
    simp [declaration]
  constructor
  · refine unindent_of_head ?_
    rw [begins, show "__local ".toList = '_' :: "_local ".toList by decide +kernel]
    simp
  · rw [TunedKernel.declaresMemory, List.contains_eq_mem, decide_eq_false free, begins, Bool.not_false,
      Bool.and_true, List.isPrefixOf_iff_prefix]
    exact List.prefix_append _ _

/-- A type begins with a letter. -/
theorem ValueType.exists_head?_text (type : ValueType) :
    ∃ c ∈ "dfilu".toList, type.text.toList.head? = some c := by
  have numeric (type : NumericType) : ∃ c ∈ "dfilu".toList, type.text.toList.head? = some c := by
    cases type with
    | int => exact ⟨'i', by decide +kernel⟩
    | uint | ulong => exact ⟨'u', by decide +kernel⟩
    | long => exact ⟨'l', by decide +kernel⟩
    | float => exact ⟨'f', by decide +kernel⟩
    | double => exact ⟨'d', by decide +kernel⟩
  cases type with
  | index => exact ⟨'u', by decide +kernel⟩
  | packed type width =>
    obtain ⟨c, letter, begins⟩ := numeric type
    by_cases one : width = 1
    · exact ⟨c, letter, by rw [text, if_pos one, begins]⟩
    · exact ⟨c, letter, by rw [text, if_neg one, head?_toList_append begins]⟩

/-- A scoped statement is read as a declaration of a shared array if it is one. -/
theorem Step.Scoped.declaration {s : Step} (inScope : s.Scoped scope) (depth : Nat) :
    [Line.row ⟨depth, s.text⟩].filter declaresMemory =
      s.memory?.toList.map fun memory => memory.declaration.toList := by
  have other (none : s.memory? = none) (not : declaresMemory (Line.row ⟨depth, s.text⟩) = false) :
      [Line.row ⟨depth, s.text⟩].filter declaresMemory =
        s.memory?.toList.map fun memory => memory.declaration.toList := by
    rw [none, List.filter_singleton, not]
    rfl
  cases s with
  | declare type name value =>
    refine other rfl (declaresMemory_assignment ?_)
    simp [Step.text]
  | declareLocal memory =>
    obtain ⟨solid, declares⟩ := LocalMemory.Legible.declaresMemory ⟨inScope.1, inScope.2⟩
    rw [Line.row, show Step.text (.declareLocal memory) = memory.declaration from rfl, solid,
      List.filter_singleton, declares]
    rfl
  | declareArray type name dims =>
    obtain ⟨c, letter, begins⟩ := type.exists_head?_text
    have solid : ∀ c ∈ "dfilu".toList, c ≠ ' ' ∧ c ≠ '_' := by simp
    exact other rfl (declaresMemory_eq_false (solid c letter).1 (solid c letter).2 (head?_toList_append
      (head?_toList_append (head?_toList_append (head?_toList_append begins)))))
  | store target op value =>
    refine other rfl (declaresMemory_assignment ?_)
    have token : '=' ∈ op.token.toList := by cases op <;> decide
    simp [Step.text, token]
  | barrier =>
    refine other rfl ?_
    show declaresMemory (unindent "barrier(CLK_LOCAL_MEM_FENCE);".toList) = false
    decide +kernel

/-- **The rows of scoped code that are read as declarations of shared arrays** are those of its arrays. -/
theorem Code.Scoped.declarations {code : Code} (inScope : code.Scoped scope) (depth : Nat) :
    ((code.lines depth).map Line.row).filter declaresMemory =
      code.memories.map fun memory => memory.declaration.toList := by
  have opening (depth : Nat) : declaresMemory (Line.opening depth).row = false := by
    rw [Line.row_opening]
    decide +kernel
  have closing (depth : Nat) : declaresMemory (Line.closing depth).row = false := by
    rw [Line.row_closing]
    decide +kernel
  induction code generalizing scope depth with
  | done => rfl
  | step s code ih =>
    rw [lines, memories, List.map_append, ← inScope.1.declaration depth, ← ih inScope.2 depth,
      ← List.filter_append]
    rfl
  | loop l body code inner ih =>
    have headed : declaresMemory (Line.row ⟨depth, l.header⟩) = false := by
      have begins : "for (unsigned int ".toList.head? = some 'f' := by decide +kernel
      have header : l.header.toList.head? = some 'f' := by
        unfold Loop.header
        iterate 10 apply head?_toList_append
        exact begins
      exact declaresMemory_eq_false (by decide) (by decide) header
    have directed : declaresMemory (Line.row ⟨depth, "#pragma unroll"⟩) = false := by
      show declaresMemory (unindent "#pragma unroll".toList) = false
      decide +kernel
    have header : ((l.headerLines depth).map Line.row).filter declaresMemory = [] := by
      unfold Loop.headerLines
      split <;> simp [headed, directed]
    simp only [lines, memories, List.map_append, List.map_cons, List.filter_append, List.filter_cons,
      header, opening, closing, inner inScope.2.1, ih inScope.2.2, List.nil_append]
    rfl
  | guarded condition body code inner ih =>
    have header : declaresMemory (Line.row ⟨depth, guardHeader condition⟩) = false := by
      have begins : "if (".toList.head? = some 'i' := by decide +kernel
      have header : (guardHeader condition).toList.head? = some 'i' :=
        head?_toList_append (head?_toList_append begins)
      exact declaresMemory_eq_false (by decide) (by decide) header
    simp only [lines, memories, List.map_append, List.map_cons, List.filter_append, List.filter_cons,
      header, opening, closing, inner inScope.2.1, ih inScope.2.2]
    rfl

/-! ### Kernels -/

/-- An argument whose name and type are words. -/
structure Argument.Legible (a : Argument) : Prop where
  name : isWord a.name
  type : ∀ type, a.kind = .buffer type ∨ a.kind = .value type → isWord type

/-- The characters of a parameter. -/
def isParameterChar (c : Char) : Bool := isWordChar c || c == ' ' || c == '*'

theorem Argument.Legible.declaration {a : Argument} (legible : a.Legible) :
    a.declaration.toList.all isParameterChar ∧ ∃ c, a.declaration.toList.head? = some c ∧ c ≠ ' ' := by
  have word {x : String} (word : isWord x) : x.toList.all isParameterChar := by
    rw [List.all_eq_true]
    intro c member
    rw [isParameterChar, List.all_eq_true.mp (all_isWordChar word) c member]
    rfl
  obtain ⟨name, kind⟩ := a
  have named : name.toList.all isParameterChar := word legible.name
  cases kind with
  | buffer element =>
    have typed := word (legible.type element (Or.inl rfl))
    have begins : "__global ".toList.head? = some '_' := by decide +kernel
    constructor
    · simp only [Argument.declaration, String.toList_append, List.all_append, named, typed]
      decide +kernel
    · exact ⟨'_', head?_toList_append (head?_toList_append (head?_toList_append begins)), by decide⟩
  | value type =>
    have valid := legible.type type (Or.inr rfl)
    have typed := word valid
    constructor
    · simp only [Argument.declaration, String.toList_append, List.all_append, named, typed]
      decide +kernel
    · unfold isWord at valid
      split at valid
      · cases valid
      · next first rest chars =>
        have begins : type.toList.head? = some first := by rw [chars, List.head?_cons]
        refine ⟨first, head?_toList_append (head?_toList_append begins), ?_⟩
        rintro rfl
        exact Bool.false_ne_true (Bool.and_eq_true_iff.mp valid).1
  | size =>
    have begins : "unsigned int ".toList.head? = some 'u' := by decide +kernel
    constructor
    · simp only [Argument.declaration, String.toList_append, List.all_append, named]
      decide +kernel
    · exact ⟨'u', head?_toList_append begins, by decide⟩

/-- A kernel whose text can be read. -/
structure Kernel.Legible (kernel : Kernel) : Prop where
  name : isWord kernel.name
  arguments : ∀ a ∈ kernel.arguments, a.Legible
  body : ∃ scope, kernel.body.Scoped scope

/-- What the text of a kernel says of its launch. -/
def Kernel.definition (kernel : Kernel) : Definition where
  groupSize := kernel.geometry.localSizes.toList
  name := kernel.name
  parameters := kernel.arguments.map Argument.declaration
  memories := kernel.body.memories

namespace Kernel.Legible

variable {kernel : Kernel}

theorem notMem_intercalate {separator : String} {texts : List String} {c : Char}
    (between : c ∉ separator.toList) (each : ∀ text ∈ texts, c ∉ text.toList) :
    c ∉ (separator.intercalate texts).toList := by
  induction texts with
  | nil =>
    rw [String.intercalate_nil, String.toList_empty]
    exact List.not_mem_nil
  | cons text texts ih =>
    rw [List.forall_mem_cons] at each
    by_cases last : texts = []
    · rw [last, String.intercalate_singleton]
      exact each.1
    · rw [String.intercalate_cons_of_ne_nil last, String.toList_append, String.toList_append,
        List.mem_append, List.mem_append, not_or, not_or]
      exact ⟨⟨each.1, between⟩, ih each.2⟩

/-- The parameters of a kernel are read one by one. -/
theorem pieces_parameters (legible : kernel.Legible) :
    '(' ∉ (", ".intercalate (kernel.arguments.map Argument.declaration)).toList ∧
      pieces (", ".intercalate (kernel.arguments.map Argument.declaration)).toList =
        (kernel.arguments.map Argument.declaration).map String.toList := by
  have free {a : Argument} (member : a ∈ kernel.arguments) {c : Char}
      (other : isParameterChar c = false) : c ∉ a.declaration.toList := fun inside =>
    Bool.false_ne_true (other.symm.trans
      (List.all_eq_true.mp (legible.arguments a member).declaration.1 c inside))
  constructor
  · refine notMem_intercalate (by decide) fun text member => ?_
    obtain ⟨a, inside, rfl⟩ := List.mem_map.mp member
    exact free inside (by decide)
  · refine pieces_intercalate fun text member => ?_
    obtain ⟨a, inside, rfl⟩ := List.mem_map.mp member
    obtain ⟨c, begins, solid⟩ := (legible.arguments a inside).declaration.2
    refine ⟨?_, free inside (by decide), ?_⟩
    · intro empty
      rw [empty] at begins
      cases begins
    · rw [begins]
      exact fun same => solid (Option.some.inj same)

/-- The sizes of a group are read one by one. -/
theorem pieces_sizes (sizes : Triple Nat) :
    (pieces (sizes.text toString).toList).mapM readNumber? = some sizes.toList := by
  have parts : pieces (", ".intercalate (sizes.toList.map toString)).toList =
      (sizes.toList.map toString).map String.toList := by
    refine pieces_intercalate fun text member => ?_
    obtain ⟨n, -, rfl⟩ := List.mem_map.mp member
    refine ⟨?_, notMem_toString n (by decide), fun begins => ?_⟩
    · rw [show (toString n).toList = Nat.toDigits 10 n from Nat.toList_repr]
      exact Nat.toDigits_ne_nil
    · exact notMem_toString n (by decide) (List.mem_of_mem_head? begins)
  rw [Triple.text, parts]
  simp only [Triple.toList, List.map_cons, List.map_nil, List.mapM_cons, List.mapM_nil,
    readNumber?_toString]
  rfl

/-- **The text of a kernel is read as its definition.** -/
theorem readDefinition?_eq (legible : kernel.Legible) (depth : Nat) :
    readDefinition? (Line.row ⟨0, "__kernel " ++ kernel.geometry.attributeText⟩)
      (Line.row ⟨0, "void " ++ kernel.name ++ "(" ++
        ", ".intercalate (kernel.arguments.map Argument.declaration) ++ ")"⟩)
      ((kernel.body.lines depth).map Line.row) = some kernel.definition := by
  obtain ⟨scope, inScope⟩ := legible.body
  obtain ⟨free, parameters⟩ := legible.pieces_parameters
  have attributed : Line.row ⟨0, "__kernel " ++ kernel.geometry.attributeText⟩ =
      "__kernel __attribute__((reqd_work_group_size(".toList ++
        ((kernel.geometry.localSizes.text toString).toList ++ ")))".toList) := by
    have joined : "__kernel __attribute__((reqd_work_group_size(".toList =
        "__kernel ".toList ++ "__attribute__((reqd_work_group_size(".toList := by decide +kernel
    have begins : "__kernel ".toList.head? = some '_' := by decide +kernel
    have solid : ("__kernel " ++ kernel.geometry.attributeText).toList.head? ≠ some ' ' := by
      rw [head?_toList_append begins]
      decide
    rw [Line.row, unindent_of_head solid]
    unfold Geometry.attributeText
    simp only [joined, String.toList_append, List.append_assoc]
  have signed : Line.row ⟨0, "void " ++ kernel.name ++ "(" ++
      ", ".intercalate (kernel.arguments.map Argument.declaration) ++ ")"⟩ = "void ".toList ++
        (kernel.name.toList ++ '(' ::
          (", ".intercalate (kernel.arguments.map Argument.declaration)).toList ++ ")".toList) := by
    have begins : "void ".toList.head? = some 'v' := by decide +kernel
    have solid : ("void " ++ kernel.name ++ "(" ++ ", ".intercalate
        (kernel.arguments.map Argument.declaration) ++ ")").toList.head? ≠ some ' ' := by
      rw [head?_toList_append (head?_toList_append (head?_toList_append (head?_toList_append begins)))]
      decide
    have bracket : "(".toList = ['('] := by decide
    rw [Line.row, unindent_of_head solid]
    simp only [String.toList_append, List.append_assoc, bracket, List.cons_append, List.nil_append]
  have shared : (((kernel.body.lines depth).map Line.row).filter declaresMemory).mapM readMemory? =
      some kernel.body.memories := by
    rw [inScope.declarations]
    exact mapM_declarations inScope.legible
  have named : (kernel.name.toList ++ '(' ::
      (", ".intercalate (kernel.arguments.map Argument.declaration)).toList).splitOn '(' =
        [kernel.name.toList, (", ".intercalate (kernel.arguments.map Argument.declaration)).toList] := by
    rw [List.splitOn_append_cons_self, List.splitOn_eq_singleton (notMem_word legible.name (by decide)),
      List.splitOn_eq_singleton free]
    rfl
  unfold readDefinition?
  rw [attributed, between?_append, signed, between?_append]
  have texts : ((kernel.arguments.map Argument.declaration).map String.toList).map String.ofList =
      kernel.arguments.map Argument.declaration := by
    simp [Function.comp_def]
  simp only [Option.bind_eq_bind, Option.bind_some, pieces_sizes, named, shared, parameters, texts,
    String.ofList_toList]
  rfl

/-- The lines of a kernel stay on their rows. -/
theorem single (legible : kernel.Legible) : ∀ line ∈ kernel.lines, '\n' ∉ line.text.toList := by
  have parameters : '\n' ∉ (", ".intercalate (kernel.arguments.map Argument.declaration)).toList := by
    refine notMem_intercalate (by decide) fun text member inside => ?_
    obtain ⟨a, argument, rfl⟩ := List.mem_map.mp member
    exact absurd (List.all_eq_true.mp (legible.arguments a argument).declaration.1 _ inside) (by decide)
  have sizes : '\n' ∉ (kernel.geometry.localSizes.text toString).toList := by
    refine notMem_intercalate (by decide) fun text member => ?_
    obtain ⟨n, -, rfl⟩ := List.mem_map.mp member
    exact notMem_toString n (by decide)
  obtain ⟨scope, inScope⟩ := legible.body
  unfold Kernel.lines
  simp only [List.forall_mem_cons, List.forall_mem_append]
  refine ⟨?_, ?_, ?_, inScope.single 1, ?_, nofun⟩
  · unfold Geometry.attributeText
    simp only [String.toList_append, List.mem_append, not_or]
    exact ⟨by decide, ⟨by decide +kernel, sizes⟩, by decide⟩
  · simp only [String.toList_append, List.mem_append, not_or]
    exact ⟨⟨⟨⟨by decide, notMem_word legible.name (by decide)⟩, by decide⟩, parameters⟩, by decide⟩
  · show '\n' ∉ "\x7b".toList
    decide
  · show '\n' ∉ "\x7d".toList
    decide

/-- **The lines of a kernel are read as its definition**, in front of those that follow. -/
theorem definitionsFrom_lines (legible : kernel.Legible) (rest : List (List Char)) :
    definitionsFrom .outside (kernel.lines.map Line.row ++ rest) =
      (definitionsFrom .outside rest).map (kernel.definition :: ·) := by
  obtain ⟨scope, inScope⟩ := legible.body
  have begins : "__kernel ".toList.head? = some '_' := by decide +kernel
  have some : Line.row ⟨0, "__kernel " ++ kernel.geometry.attributeText⟩ ≠ [] := by
    have member : '_' ∈ Line.row ⟨0, "__kernel " ++ kernel.geometry.attributeText⟩ :=
      (mem_unindent (by decide)).mpr (List.mem_of_mem_head? (head?_toList_append begins))
    exact List.ne_nil_of_mem member
  have body : (kernel.body.lines 1 ++ [Line.closing 0]).map Line.row ++ rest =
      (kernel.body.lines 1).map Line.row ++ ['\x7d'] :: rest := by
    rw [List.map_append, List.map_singleton, Line.row_closing, List.append_assoc, List.singleton_append]
  unfold Kernel.lines
  rw [List.map_cons, List.map_cons, List.map_cons, List.cons_append, List.cons_append, List.cons_append,
    Line.row_opening, body]
  simp only [definitionsFrom, if_neg some, if_pos]
  rw [inScope.definitionsFrom, List.nil_append]
  simp only [definitionsFrom, if_pos, if_neg (show ['\x7d'] ≠ ['\x7b'] by decide),
    legible.readDefinition?_eq]
  cases definitionsFrom .outside rest <;> rfl

end Kernel.Legible

/-- **The text of a program is read as the definitions of its kernels**, one by one and in order. -/
theorem Program.readDefinitions?_source {program : Program}
    (legible : ∀ kernel ∈ program.kernels, kernel.Legible) :
    readDefinitions? program.source = some (program.kernels.map Kernel.definition) := by
  obtain ⟨kernels, profile⟩ := program
  have blank : Line.row ⟨0, ""⟩ = [] := by
    show unindent "".toList = []
    decide
  have single : ∀ line ∈ lines ⟨kernels, profile⟩, '\n' ∉ line.text.toList := by
    unfold lines
    induction kernels with
    | nil => exact nofun
    | cons kernel kernels ih =>
      rw [List.forall_mem_cons] at legible
      by_cases last : kernels = []
      · rw [last, List.map_singleton, List.intercalate_singleton]
        exact legible.1.single
      · rw [List.map_cons, List.intercalate_cons_of_ne_nil (mt List.map_eq_nil_iff.mp last)]
        refine List.forall_mem_append.mpr ⟨List.forall_mem_append.mpr ⟨legible.1.single, ?_⟩, ih legible.2⟩
        exact List.forall_mem_singleton.mpr (by decide)
  unfold readDefinitions? source
  rw [rows_renderAll single]
  clear single
  unfold lines
  show definitionsFrom .outside (List.map Line.row _ ++ [[]]) = _
  induction kernels with
  | nil => rfl
  | cons kernel kernels ih =>
    rw [List.forall_mem_cons] at legible
    by_cases last : kernels = []
    · rw [last, List.map_singleton, List.intercalate_singleton, legible.1.definitionsFrom_lines]
      rfl
    · rw [List.map_cons, List.intercalate_cons_of_ne_nil (mt List.map_eq_nil_iff.mp last), List.map_append,
        List.map_append, List.append_assoc, List.append_assoc, legible.1.definitionsFrom_lines,
        List.map_singleton, blank, List.singleton_append]
      simp only [definitionsFrom, if_pos, ih legible.2, Option.map_some, List.map_cons]

end TunedKernel
