/-
**Running a command.**

* `Files` — how a command reads and writes files, in any monad.
* `Outcome` — what a run answers: the exit code and both outputs.
* `Command.run` — carries out a command. Nothing is printed on the standard output by a run that
  fails.
* `run` — carries out what the words of a command line ask for.
-/

import TunedKernel.CommandLine.Command
import TunedKernel.Generator.Basic
import TunedKernel.Operation.Decoding
import TunedKernel.Toml.Reader
import TunedKernel.Tuning.Database

namespace TunedKernel.CommandLine

/-- How files are read and written. -/
structure Files (m : Type → Type) where
  /-- The text of a file that can be read. -/
  read : String → m (Option String)
  /-- Writes a text into a file, and says whether that was possible. -/
  write : String → String → m Bool

/-- What a run answers. -/
structure Outcome where
  exitCode : Nat
  output : String
  /-- What is printed for the reader and not for a further program. -/
  messages : String
deriving DecidableEq, Repr

namespace Outcome

/-- A run that went well. -/
def success (output messages : String) : Outcome := ⟨0, output, messages⟩

/-- A run that failed. -/
def failure (message : String) : Outcome := ⟨1, "", s!"Error: {message}\n"⟩

/-- A command line that is not well formed. -/
def usage : Outcome := ⟨2, "", "Usage: devkern [-v] generate|resolve|profiles|info ...\n"⟩

/-- A run that was given up, because a number did not fit its word. -/
def overflow (operation : Overflow) : Outcome := ⟨101, "", operation.message ++ "\n"⟩

/-- The outcome of a fault. -/
def ofFault {ε : Type} (message : ε → String) : Fault ε → Outcome
  | .overflow operation => overflow operation
  | .refused reason => failure (message reason)

end Outcome

/-! ### Texts -/

/-- The version of the program. -/
def versionNumber : String := "0.3.0"

/-- A text with blanks after it, up to a width. -/
def padded (width : Nat) (text : String) : String :=
  text ++ String.ofList (List.replicate (width - text.length) ' ')

/-- The description of the program. -/
def description : String :=
  let row (name : String) := "  - " ++ name ++ "\n"
  "devkern\nVersion: " ++ versionNumber ++ "\n\nTarget: OpenCL C\n\nTables:\n" ++
    String.join (Table.all.map fun t => row t.name) ++ "\nElement types:\n" ++
    String.join (NumericType.all.map fun t => row t.text)

/-- Every record of a table with its key. -/
def tableListing (db : Database) (t : Table) : String :=
  let rows := db.listing t
  s!"{t.name} ({rows.length} entries)\n" ++
    String.join (rows.map fun (key, line) => "  " ++ padded 48 key ++ " " ++ line ++ "\n") ++ "\n"

/-- What a launch needs to know about a kernel. -/
def kernelReport (k : Kernel) : String :=
  let arguments := ", ".intercalate (k.arguments.map Argument.name)
  s!"  {k.name}({arguments}): {k.geometry.text}, {k.localMemBytes} bytes local\n" ++
    (if k.scratchElements = 0 then "" else s!"    temp: {k.scratchElements} elements\n")

/-- What a launch needs to know about a program. -/
def programReport (p : Program) (device : Device) : String :=
  s!"profile {p.profile} for {device.text}\n" ++ String.join (p.kernels.map kernelReport)

/-! ### Commands -/

/-- Whether the last part of a path ends in `.toml`, with something in front of it. -/
def isTomlPath (path : String) : Bool :=
  let name := ((path.splitOn "/").getLast?.getD "").toList
  let ending := ".toml".toList
  ending.isSuffixOf name && ending.length < name.length

/-- The operation that the text of a file describes. -/
def operationOf? (path source : String) : Option Operation :=
  if isTomlPath path then (Toml.read? source).bind Operation.ofDatum? else Operation.ofJson? source

section

variable {m : Type → Type} [Monad m]

/-- The text of a file. -/
def readFile (files : Files m) (path : String) : ExceptT Outcome m String := do
  match ← files.read path with
  | some text => return text
  | none => throw (.failure (ConfigError.unreadable path).message)

/-- The overrides of a file. -/
def readOverrides (files : Files m) (path? : Option String) : ExceptT Outcome m Overrides := do
  let some path := path? | return Overrides.none
  match Overrides.ofToml (← readFile files path) with
  | .ok overrides => return overrides
  | .error fault => throw (.ofFault ConfigError.message fault)

/-- The builtin records with the overrides of a file on top. -/
def loadDatabase (files : Files m) (path? : Option String) : ExceptT Outcome m Database := do
  match Database.load (← readOverrides files path?) with
  | .ok db => return db
  | .error incomplete => throw (.failure incomplete.diagnostic.message)

/-- The operation of a file. -/
def readOperation (files : Files m) (path : String) : ExceptT Outcome m Operation := do
  match operationOf? path (← readFile files path) with
  | some op => return op
  | none => throw (.failure s!"No operation in {path}")

/-- Generates the kernels of an operation, into a file or on the output. -/
def runGenerate (files : Files m) (input : String) (target : Target)
    (overrides output : Option String) : ExceptT Outcome m Outcome := do
  let op ← readOperation files input
  let db ← loadDatabase files overrides
  let device := target.device op.numericType
  match db.generate device op with
  | .error fault => throw (.ofFault Refusal.message fault)
  | .ok program =>
    let report := programReport program device
    match output with
    | none => return .success (program.source ++ "\n") report
    | some path =>
      if ← files.write path program.source then return .success "" report
      else throw (.failure s!"Failed to write {path}")

/-- Shows the record of a device in a table. -/
def runResolve (files : Files m) (table : Table) (numericType : NumericType) (target : Target)
    (overrides : Option String) : ExceptT Outcome m Outcome := do
  let db ← loadDatabase files overrides
  let device := target.device numericType
  let (record, tier) := db.resolve table device
  let lines := [s!"{table.name}: {TunedRecord.line record}", s!"  device: {device.text}",
    s!"  source: {tier.text}"]
  return .success (String.join (lines.map fun line => line ++ "\n")) ""

/-- Carries out a command. -/
def Command.run (files : Files m) : Command → ExceptT Outcome m Outcome
  | .generate input target overrides output => runGenerate files input target overrides output
  | .resolve table numericType target overrides =>
    runResolve files table numericType target overrides
  | .profiles overrides => do
    let db ← loadDatabase files overrides
    return .success (String.join (Table.all.map (tableListing db))) ""
  | .info => return .success description ""

/-- Carries out what the words of a command line ask for. -/
def run (files : Files m) (words : List String) : m Outcome := do
  match Invocation.ofWords? words with
  | none => return .usage
  | some .version => return .success s!"devkern {versionNumber}\n" ""
  | some (.run command) =>
    match ← (command.run files).run with
    | .ok outcome | .error outcome => return outcome

end

end TunedKernel.CommandLine
