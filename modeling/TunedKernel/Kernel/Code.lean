/-
**Kernel code.**

* `ValueType` — the type of a declared variable.
* `Step` — a statement on one line: a declaration, a store or a barrier.
* `Loop` — the header of a counting loop.
* `Code` — steps, loops and guarded blocks, one after the other.
* `Code.lines` — the lines of code at some depth; a block stands between braces on lines of their
  own, one level further in.
-/

import TunedKernel.Kernel.LocalMemory
import TunedKernel.Kernel.Page

namespace TunedKernel

/-- The type of a declared variable. -/
inductive ValueType where
  /-- An unsigned number of 32 bits. -/
  | index
  /-- A vector of elements; of width one it is an element. -/
  | packed (type : NumericType) (width : Nat)
deriving DecidableEq, Repr

namespace ValueType

/-- The name of a type. -/
def text : ValueType → String
  | index => "unsigned int"
  | packed type width => if width = 1 then type.text else type.text ++ toString width

/-- The type of one element. -/
def scalar (type : NumericType) : ValueType := packed type 1

end ValueType

/-- A statement on one line. -/
inductive Step where
  /-- Declares a variable with its first value. -/
  | declare (type : ValueType) (name : String) (value : Term)
  /-- Declares an array that the group shares. -/
  | declareLocal (memory : LocalMemory)
  /-- Declares an array of the worker's own. -/
  | declareArray (type : ValueType) (name : String) (dims : List Nat)
  | store (target : Term) (op : AssignOp) (value : Term)
  /-- Waits until every worker of the group has come this far. -/
  | barrier
deriving DecidableEq, Repr

/-- A statement as it is written. -/
def Step.text : Step → String
  | declare type name value => type.text ++ " " ++ name ++ " = " ++ value.text ++ ";"
  | declareLocal memory => memory.declaration
  | declareArray type name dims =>
    type.text ++ " " ++ name ++ LocalMemory.dimensions dims ++ ";"
  | store target op value => target.text ++ " " ++ op.token ++ " " ++ value.text ++ ";"
  | barrier => "barrier(CLK_LOCAL_MEM_FENCE);"

/-- The header of a loop that counts up while its variable is below a bound. -/
structure Loop where
  counter : String
  first : Term
  bound : Term
  /-- What the variable grows by, one where there is none. -/
  step : Option Term
  /-- The compiler is asked to unroll the loop. -/
  unrolled : Bool
deriving DecidableEq, Repr

namespace Loop

/-- The header as it is written. -/
def header (l : Loop) : String :=
  let advance := match l.step with
    | some step => l.counter ++ " += " ++ step.text
    | none => "++" ++ l.counter
  "for (unsigned int " ++ l.counter ++ " = " ++ l.first.text ++ "; " ++ l.counter ++ " < " ++
    l.bound.text ++ "; " ++ advance ++ ")"

/-- The lines in front of the block of a loop. -/
def headerLines (l : Loop) (depth : Nat) : List Line :=
  if l.unrolled then [⟨depth, "#pragma unroll"⟩, ⟨depth, l.header⟩] else [⟨depth, l.header⟩]

end Loop

/-- Kernel code. -/
inductive Code where
  | done
  | step (s : Step) (rest : Code)
  | loop (l : Loop) (body rest : Code)
  /-- A block that is carried out only under a condition. -/
  | guarded (condition : Term) (body rest : Code)
deriving DecidableEq, Repr

namespace Code

/-- One piece of code after another. -/
def append : Code → Code → Code
  | done, after => after
  | step s rest, after => step s (rest.append after)
  | loop l body rest, after => loop l body (rest.append after)
  | guarded condition body rest, after => guarded condition body (rest.append after)

instance : Append Code := ⟨append⟩

/-- Pieces of code one after the other. -/
def join (pieces : List Code) : Code := pieces.foldr append done

/-- Statements one after the other. -/
def ofSteps (steps : List Step) : Code := steps.foldr step done

/-- A loop alone. -/
def ofLoop (l : Loop) (body : Code) : Code := loop l body done

/-- A guarded block alone. -/
def ofGuard (condition : Term) (body : Code) : Code := guarded condition body done

/-- The header of a guarded block. -/
def guardHeader (condition : Term) : String := "if (" ++ condition.text ++ ")"

/-- The lines of code at some depth. -/
def lines (depth : Nat) : Code → List Line
  | done => []
  | step s rest => ⟨depth, s.text⟩ :: rest.lines depth
  | loop l body rest =>
    l.headerLines depth ++ Line.opening depth :: (body.lines (depth + 1) ++
      Line.closing depth :: rest.lines depth)
  | guarded condition body rest =>
    ⟨depth, guardHeader condition⟩ :: Line.opening depth :: (body.lines (depth + 1) ++
      Line.closing depth :: rest.lines depth)

@[simp] theorem done_append (after : Code) : done ++ after = after := rfl

@[simp] theorem step_append (s : Step) (rest after : Code) :
    step s rest ++ after = step s (rest ++ after) := rfl

@[simp] theorem loop_append (l : Loop) (body rest after : Code) :
    loop l body rest ++ after = loop l body (rest ++ after) := rfl

@[simp] theorem guarded_append (condition : Term) (body rest after : Code) :
    guarded condition body rest ++ after = guarded condition body (rest ++ after) := rfl

@[simp] theorem append_done (code : Code) : code ++ done = code := by
  induction code with
  | done => rfl
  | step s rest ih => simp [ih]
  | loop l body rest _ ih => simp [ih]
  | guarded condition body rest _ ih => simp [ih]

theorem append_assoc (first second third : Code) :
    first ++ second ++ third = first ++ (second ++ third) := by
  induction first with
  | done => rfl
  | step s rest ih => simp [ih]
  | loop l body rest _ ih => simp [ih]
  | guarded condition body rest _ ih => simp [ih]

theorem ofSteps_append (first second : List Step) :
    ofSteps (first ++ second) = ofSteps first ++ ofSteps second := by
  induction first with
  | nil => rfl
  | cons s rest ih =>
    show step s (ofSteps (rest ++ second)) = step s (ofSteps rest ++ ofSteps second)
    rw [ih]

/-- The lines of two pieces are those of the one and then those of the other. -/
theorem lines_append (depth : Nat) (first second : Code) :
    (first ++ second).lines depth = first.lines depth ++ second.lines depth := by
  induction first with
  | done => rfl
  | step s rest ih => simp [lines, ih]
  | loop l body rest _ ih => simp [lines, ih]
  | guarded condition body rest _ ih => simp [lines, ih]

end Code

end TunedKernel
