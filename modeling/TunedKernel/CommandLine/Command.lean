/-
**Commands.**

* `Target` — the device that a command is about; its family is detected when none is named.
* `Command` — generate kernels, show the record of a device, list all records, or describe the
  program.
* `Invocation` — a command, or the question for the version.
* `Invocation.ofWords?` — what a command line asks for, none when it is not well formed.
-/

import TunedKernel.CommandLine.Words
import TunedKernel.Device.Basic
import TunedKernel.Device.Detection
import TunedKernel.Tuning.Table

namespace TunedKernel.CommandLine

/-- The device that a command is about. -/
structure Target where
  vendor : Vendor
  deviceClass : DeviceClass
  /-- The family, when one is named. -/
  architecture : Option Architecture
  name : String
deriving DecidableEq, Repr

/-- The device itself, for an element type. -/
def Target.device (t : Target) (numericType : NumericType) : Device where
  vendor := t.vendor
  deviceClass := t.deviceClass
  architecture := t.architecture.getD (Architecture.detect t.vendor t.name)
  name := t.name
  numericType := numericType

/-- What the program can be asked to do. Paths are never empty. -/
inductive Command where
  /-- Generate the kernels of an operation. -/
  | generate (operation : String) (target : Target) (overrides output : Option String)
  /-- Show the record of a device in a table. -/
  | resolve (table : Table) (numericType : NumericType) (target : Target)
    (overrides : Option String)
  /-- List every record. -/
  | profiles (overrides : Option String)
  /-- Describe the program. -/
  | info
deriving DecidableEq, Repr

/-! ### Options -/

/-- Switches on a log. It may be given before a command and after it. -/
def verboseSwitch : Opt := ⟨"verbose", some 'v', false⟩

/-- Asks for the version. -/
def versionSwitch : Opt := ⟨"version", some 'V', false⟩

/-- The options that describe a device. -/
def targetOptions : List Opt :=
  ["vendor", "class", "arch", "name", "profiles"].map Opt.valued

namespace Given

/-- Reads the value of an option, which has another value when it is not given. -/
def readOr? {α : Type} (given : Given) (long : String) (reader : String → Option α)
    (missing : α) : Option α :=
  match given.value? long with
  | none => some missing
  | some value => reader value

/-- A path, which is not empty. -/
def path? (value : String) : Option String := if value = "" then none else some value

/-- The path that an option names. -/
def pathOf? (given : Given) (long : String) : Option (Option String) :=
  given.readOr? long (fun value => (path? value).map some) none

/-- The only operand. -/
def operand? (given : Given) : Option String :=
  match given.operands with
  | [operand] => some operand
  | _ => none

/-- The device that the options describe. -/
def target? (given : Given) : Option Target := do
  return {
    vendor := ← given.readOr? "vendor" (fun s => (Vendor.parse s).toOption) Vendor.unknown
    deviceClass := ← given.readOr? "class" (fun s => (DeviceClass.parse s).toOption) .gpu
    architecture := ← given.readOr? "arch"
      (fun s => (Architecture.parse s).toOption.map some) none
    name := (given.value? "name").getD "" }

end Given

/-! ### Commands from words -/

namespace Command

/-- The command to generate kernels. -/
def generateOf? (words : List String) : Option Command := do
  let given ← Given.read? (verboseSwitch :: ⟨"output", some 'o', true⟩ :: targetOptions) words
  return .generate (← given.operand?.bind Given.path?) (← given.target?)
    (← given.pathOf? "profiles") (← given.pathOf? "output")

/-- The command to show a record. -/
def resolveOf? (words : List String) : Option Command := do
  let given ← Given.read? (verboseSwitch :: Opt.valued "numeric-type" :: targetOptions) words
  return .resolve (← given.operand?.bind Table.parse?)
    (← given.readOr? "numeric-type" (fun s => (NumericType.parse s).toOption) .float)
    (← given.target?) (← given.pathOf? "profiles")

/-- The command to list every record. -/
def profilesOf? (words : List String) : Option Command := do
  let given ← Given.read? [verboseSwitch, Opt.valued "profiles"] words
  if given.operands.isEmpty then return .profiles (← given.pathOf? "profiles") else none

/-- The command to describe the program. -/
def infoOf? (words : List String) : Option Command := do
  let given ← Given.read? [verboseSwitch] words
  if given.operands.isEmpty then return .info else none

/-- The reader of the words after the name of a command. -/
def reader? (name : String) : Option (List String → Option Command) :=
  match name with
  | "generate" => some generateOf?
  | "resolve" => some resolveOf?
  | "profiles" => some profilesOf?
  | "info" => some infoOf?
  | _ => none

end Command

/-! ### Invocations -/

/-- What a command line asks for. -/
inductive Invocation where
  | version
  | run (command : Command)
deriving DecidableEq, Repr

/-- What a word in front of the command says. -/
inductive Opening where
  | version
  /-- Reading goes on; the log is switched on or not. -/
  | further (verbose : Bool)
deriving DecidableEq, Repr

/-- Takes the items of a word in front of the command in order. A question for the version is
answered whatever follows it. -/
def Opening.ofItems? (switched : Bool) : List Item → Option Opening
  | [] => some (.further switched)
  | .option o _ :: rest =>
    if o = versionSwitch then some .version
    else if switched then none
    else ofItems? true rest
  | _ :: _ => none

/-- What the words of a command line ask for, once the log is switched on or not. -/
def Invocation.ofRest? (switched : Bool) : List String → Option Invocation
  | [] => none
  | word :: rest =>
    match Command.reader? word with
    | some reader => (reader rest).map run
    | none =>
      match Opening.ofItems? switched (readWord [verboseSwitch, versionSwitch] word).1 with
      | some .version => some .version
      | some (.further switched) => ofRest? switched rest
      | none => none

/-- What the words of a command line ask for. -/
def Invocation.ofWords? (words : List String) : Option Invocation := ofRest? false words

end TunedKernel.CommandLine
