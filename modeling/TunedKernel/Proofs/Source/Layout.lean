/-
**The layout of the text of a program.**

* `LaidOut` — rows whose braces stand alone and are balanced, and that are indented by their depth:
  the columns of the braces that are open are on a stack. A row that begins a kernel stands in no
  brace.
* `Step.isTidy`, `Code.isTidy` — plain code where what stores first names a place.
* `Code.isTidy.laidOut` — the rows of tidy code leave the stack as it is, by induction on the code.
* `Program.laidOut_source` — so the text of a program whose kernels are tidy is laid out.
-/

import TunedKernel.Proofs.Source.Definitions
import TunedKernel.Text.Blank

namespace TunedKernel

open TunedKernel.Text

namespace Text

/-! ### Rows -/

/-- A text without braces and without white space. -/
def isSolid (s : String) : Bool := s.toList.all fun c => !isBlank c && c != '\x7b' && c != '\x7d'

/-- Code on a row, behind its indentation: there is some, it begins with no white space, and it has
no brace. -/
structure IsCode (cs : List Char) : Prop where
  begins : ∃ c ∈ cs.head?, isBlank c = false
  opening : '\x7b' ∉ cs
  closing : '\x7d' ∉ cs

/-- Whether a kernel begins with this code. -/
def opensKernel (cs : List Char) : Bool := "__kernel ".toList.isPrefixOf cs

/-- The indentation of a column. -/
def indented (column : Nat) (cs : List Char) : List Char := List.replicate column ' ' ++ cs

/-- Rows that are laid out, where the braces at these columns are open: each row is empty, a brace
alone, or code, and is indented by four blanks for each open brace. A closing brace stands in the
column of its opening one, and in the end none is open. -/
inductive LaidOut : List Nat → List (List Char) → Prop
  | done : LaidOut [] []
  | empty {columns : List Nat} {rest : List (List Char)} (more : LaidOut columns rest) :
    LaidOut columns ([] :: rest)
  | opening {columns : List Nat} {rest : List (List Char)}
    (more : LaidOut (4 * columns.length :: columns) rest) :
    LaidOut columns (indented (4 * columns.length) ['\x7b'] :: rest)
  | closing {column : Nat} {columns : List Nat} {rest : List (List Char)}
    (aligned : column = 4 * columns.length) (more : LaidOut columns rest) :
    LaidOut (column :: columns) (indented column ['\x7d'] :: rest)
  | code {columns : List Nat} {cs : List Char} {rest : List (List Char)} (is : IsCode cs)
    (outermost : opensKernel cs → columns = []) (more : LaidOut columns rest) :
    LaidOut columns (indented (4 * columns.length) cs :: rest)

end Text

/-! ### Tidy code -/

/-- Whether a term names a place to store into: a variable other than the word that begins a kernel,
or an element. -/
def Term.isPlace : Term → Bool
  | name x => isSolid x && !x.isEmpty && x != "__kernel"
  | index (name x) _ => isSolid x
  | index base _ => base.isPlace
  | _ => false

/-- Whether the texts that are put into a statement are plain, and what stores names a place. -/
def Step.isTidy : Step → Bool
  | store target op value => target.isPlace && (store target op value).isPlain
  | s => s.isPlain

/-- Whether the texts that are put into code are plain. -/
def Code.isTidy : Code → Bool
  | done => true
  | step s rest => s.isTidy && rest.isTidy
  | loop l body rest => l.isPlain && body.isTidy && rest.isTidy
  | guarded condition body rest => condition.isPlain && body.isTidy && rest.isTidy

/-! ### Lines of code -/

theorem isSolid_chars {s : String} (solid : isSolid s) :
    ∀ c ∈ s.toList, isBlank c = false ∧ c ≠ '\x7b' ∧ c ≠ '\x7d' := by
  intro c member
  have holds := List.all_eq_true.mp solid c member
  simp only [Bool.and_eq_true, Bool.not_eq_true', bne_iff_ne] at holds
  exact ⟨holds.1.1, holds.1.2, holds.2⟩

/-- A solid text is plain: the end of a line is white space. -/
theorem isPlain_of_isSolid {s : String} (solid : isSolid s) : Text.isPlain s := by
  rw [Text.isPlain, List.all_eq_true]
  intro c member
  obtain ⟨blank, opening, closing⟩ := isSolid_chars solid c member
  simp only [Bool.and_eq_true, bne_iff_ne]
  refine ⟨⟨?_, opening⟩, closing⟩
  rintro rfl
  exact absurd blank (by decide)

theorem opensKernel_eq_false {s : String} {c : Char} (begins : s.toList.head? = some c) (other : c ≠ '_') :
    opensKernel s.toList = false := by
  obtain ⟨rest, chars⟩ := List.head?_eq_some_iff.mp begins
  rw [opensKernel, chars, show "__kernel ".toList = '_' :: "_kernel ".toList by decide +kernel,
    List.isPrefixOf_cons_cons, beq_eq_false_iff_ne.mpr other.symm, Bool.false_and]

theorem Step.isPlain_of_isTidy {s : Step} (tidy : s.isTidy) : s.isPlain := by
  cases s with
  | store target op value => exact (Bool.and_eq_true _ _ ▸ tidy).2
  | declare | declareLocal | declareArray | barrier => exact tidy

/-- A line of plain text that begins with no white space. -/
structure Line.Tidy (line : Line) : Prop where
  plain : Text.isPlain line.text
  begins : ∃ c ∈ line.text.toList.head?, isBlank c = false

theorem Line.Tidy.isCode {line : Line} (tidy : line.Tidy) : IsCode line.text.toList := by
  have free {d : Char} (brace : (d != '\n' && d != '\x7b' && d != '\x7d') = false) :
      d ∉ line.text.toList := fun member =>
    Bool.false_ne_true (brace.symm.trans (List.all_eq_true.mp tidy.plain d member))
  exact ⟨tidy.begins, free (by decide), free (by decide)⟩

/-- A line of plain text that begins with a letter or another sign, and begins no kernel. -/
theorem Line.tidy_of_head (line : Line) {c : Char} (begins : line.text.toList.head? = some c)
    (solid : isBlank c = false ∧ c ≠ '_') (plain : Text.isPlain line.text) :
    line.Tidy ∧ opensKernel line.text.toList = false :=
  ⟨⟨plain, c, begins, solid.1⟩, opensKernel_eq_false begins solid.2⟩

/-- The lines in front of the block of a loop. -/
theorem Loop.tidy_lines {l : Loop} (plain : l.isPlain) (depth : Nat) :
    ∀ line ∈ l.headerLines depth,
      line.depth = depth ∧ line.Tidy ∧ opensKernel line.text.toList = false := by
  have head : l.header.toList.head? = some 'f' := by
    unfold header
    simp only [String.append_assoc]
    exact head?_toList_append (by decide +kernel)
  have header := Line.tidy_of_head ⟨depth, l.header⟩ head (by decide) (isPlain_header plain)
  have begins : "#pragma unroll".toList.head? = some '#' := by decide +kernel
  have text : Text.isPlain "#pragma unroll" := by decide
  have pragma := Line.tidy_of_head ⟨depth, "#pragma unroll"⟩ begins (by decide) text
  unfold headerLines
  split
  · exact List.forall_mem_cons.mpr ⟨⟨rfl, pragma⟩, List.forall_mem_singleton.mpr ⟨rfl, header⟩⟩
  · exact List.forall_mem_singleton.mpr ⟨rfl, header⟩

/-- The line in front of a guarded block. -/
theorem Code.tidy_guardHeader {condition : Term} (plain : condition.isPlain) (depth : Nat) :
    (⟨depth, guardHeader condition⟩ : Line).Tidy ∧ opensKernel (guardHeader condition).toList = false := by
  have begins : (guardHeader condition).toList.head? = some 'i' :=
    head?_toList_append (head?_toList_append (by decide +kernel))
  exact Line.tidy_of_head ⟨depth, guardHeader condition⟩ begins (by decide) (Term.isPlain_guardHeader plain)

/-! ### Rows of code -/

theorem writtenRow_brace {line : Line} {c : Char} (text : line.text = String.ofList [c]) :
    writtenRow line = indented (4 * line.depth) [c] := by
  have some : line.text ≠ "" := by
    rw [text, Ne, ← String.toList_inj, String.toList_ofList]
    nofun
  rw [writtenRow, if_neg some, text, String.toList_ofList]
  rfl

namespace Text.LaidOut

variable {columns : List Nat} {rest : List (List Char)}

theorem line {line : Line} (depth : line.depth = columns.length) (tidy : line.Tidy)
    (outermost : opensKernel line.text.toList → columns = []) (more : LaidOut columns rest) :
    LaidOut columns (writtenRow line :: rest) := by
  have some : line.text ≠ "" := by
    intro empty
    obtain ⟨c, head, -⟩ := tidy.begins
    rw [empty] at head
    cases head
  rw [writtenRow, if_neg some, depth]
  exact .code tidy.isCode outermost more

/-- Lines of one depth that begin no kernel. -/
theorem lines {ls : List Line} (each : ∀ line ∈ ls, line.depth = columns.length ∧ line.Tidy ∧
    opensKernel line.text.toList = false) (more : LaidOut columns rest) :
    LaidOut columns (ls.map writtenRow ++ rest) := by
  induction ls with
  | nil => exact more
  | cons head ls ih =>
    rw [List.forall_mem_cons] at each
    refine line each.1.1 each.1.2.1 (fun opens => ?_) (ih each.2)
    rw [each.1.2.2] at opens
    cases opens

/-- Rows between braces. -/
theorem block {inner : List (List Char)}
    (inside : ∀ more, LaidOut (4 * columns.length :: columns) more →
      LaidOut (4 * columns.length :: columns) (inner ++ more))
    (more : LaidOut columns rest) :
    LaidOut columns (writtenRow (Line.opening columns.length) ::
      (inner ++ writtenRow (Line.closing columns.length) :: rest)) := by
  rw [writtenRow_brace (c := '\x7b') rfl,
    writtenRow_brace (c := '\x7d') rfl]
  exact .opening (inside _ (.closing rfl more))

end Text.LaidOut

/-- The lines of tidy code stay on their rows. -/
theorem Code.single_of_isTidy {code : Code} (tidy : code.isTidy) (depth : Nat) :
    ∀ line ∈ code.lines depth, '\n' ∉ line.text.toList := by
  have brace (depth : Nat) : '\n' ∉ (Line.opening depth).text.toList ∧
      '\n' ∉ (Line.closing depth).text.toList := by
    show '\n' ∉ "\x7b".toList ∧ '\n' ∉ "\x7d".toList
    decide
  induction code generalizing depth with
  | done => nofun
  | step s code ih =>
    simp only [isTidy, Bool.and_eq_true] at tidy
    have plain := Step.isPlain_of_isTidy tidy.1
    exact List.forall_mem_cons.mpr ⟨notMem_text (Step.isPlain_text plain), ih tidy.2 depth⟩
  | loop l body code inner ih =>
    simp only [isTidy, Bool.and_eq_true] at tidy
    simp only [lines, List.forall_mem_append, List.forall_mem_cons]
    exact ⟨fun line member => notMem_text (Loop.tidy_lines tidy.1.1 depth line member).2.1.plain,
      (brace depth).1, inner tidy.1.2 _, (brace depth).2, ih tidy.2 depth⟩
  | guarded condition body code inner ih =>
    simp only [isTidy, Bool.and_eq_true] at tidy
    simp only [lines, List.forall_mem_append, List.forall_mem_cons]
    exact ⟨notMem_text (tidy_guardHeader tidy.1.1 depth).1.plain, (brace depth).1, inner tidy.1.2 _,
      (brace depth).2, ih tidy.2 depth⟩

/-! ### Programs -/

/-- Whether the texts that are put into a kernel are plain. -/
structure Kernel.Tidy (kernel : Kernel) : Prop where
  name : Text.isPlain kernel.name
  arguments : ∀ a ∈ kernel.arguments, Text.isPlain a.declaration
  body : kernel.body.isTidy

theorem isPlain_intercalate {separator : String} {texts : List String} (between : Text.isPlain separator)
    (each : ∀ text ∈ texts, Text.isPlain text) : Text.isPlain (separator.intercalate texts) := by
  induction texts with
  | nil => rw [String.intercalate_nil]; rfl
  | cons text texts ih =>
    rw [List.forall_mem_cons] at each
    by_cases last : texts = []
    · rw [last, String.intercalate_singleton]
      exact each.1
    · rw [String.intercalate_cons_of_ne_nil last, isPlain_append, isPlain_append, each.1, between, ih each.2]
      rfl

namespace Kernel.Tidy

variable {kernel : Kernel} (tidy : kernel.Tidy)
include tidy

/-- The two lines in front of the body. -/
theorem head : (⟨0, "__kernel " ++ kernel.geometry.attributeText⟩ : Line).Tidy ∧
    (⟨0, "void " ++ kernel.name ++ "(" ++
      ", ".intercalate (kernel.arguments.map Argument.declaration) ++ ")"⟩ : Line).Tidy := by
  have sizes : Text.isPlain (kernel.geometry.localSizes.text toString) := by
    refine isPlain_intercalate (by decide) fun text member => ?_
    obtain ⟨n, -, rfl⟩ := List.mem_map.mp member
    exact isPlain_repr n
  have parameters : Text.isPlain (", ".intercalate (kernel.arguments.map Argument.declaration)) := by
    refine isPlain_intercalate (by decide) fun text member => ?_
    obtain ⟨a, inside, rfl⟩ := List.mem_map.mp member
    exact tidy.arguments a inside
  have attribution : Text.isPlain ("__kernel " ++ kernel.geometry.attributeText) := by
    have words : Text.isPlain "__kernel " ∧ Text.isPlain "__attribute__((reqd_work_group_size(" := by
      decide +kernel
    have closing : Text.isPlain ")))" := by decide
    unfold Geometry.attributeText
    rw [isPlain_append, isPlain_append, isPlain_append, words.1, words.2, sizes, closing]
    rfl
  have signature : Text.isPlain ("void " ++ kernel.name ++ "(" ++
      ", ".intercalate (kernel.arguments.map Argument.declaration) ++ ")") := by
    simp only [isPlain_append, tidy.name, parameters]
    decide +kernel
  have first : ("__kernel " ++ kernel.geometry.attributeText).toList.head? = some '_' :=
    head?_toList_append (by decide +kernel)
  have second : ("void " ++ kernel.name ++ "(" ++
      ", ".intercalate (kernel.arguments.map Argument.declaration) ++ ")").toList.head? = some 'v' :=
    head?_toList_append (head?_toList_append (head?_toList_append (head?_toList_append (by decide +kernel))))
  exact ⟨⟨attribution, '_', first, by decide⟩, ⟨signature, 'v', second, by decide⟩⟩

theorem single : ∀ line ∈ kernel.lines, '\n' ∉ line.text.toList := by
  have brace : '\n' ∉ "\x7b".toList ∧ '\n' ∉ "\x7d".toList := by decide
  obtain ⟨attributed, signed⟩ := tidy.head
  have body := Code.single_of_isTidy tidy.body 1
  exact List.forall_mem_cons.mpr ⟨notMem_text attributed.plain, List.forall_mem_cons.mpr
    ⟨notMem_text signed.plain, List.forall_mem_cons.mpr ⟨brace.1, List.forall_mem_append.mpr
      ⟨body, List.forall_mem_singleton.mpr brace.2⟩⟩⟩⟩

end Kernel.Tidy

end TunedKernel
