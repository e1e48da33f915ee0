/-
**The command line program.**
-/

import TunedKernel.CommandLine.Run

open TunedKernel.CommandLine

/-- The files of the system. -/
def systemFiles : Files IO where
  read path := try return some (← IO.FS.readFile path) catch _ => return none
  write path text := do
    try
      IO.FS.writeFile path text
      return true
    catch _ => return false

/-- Carries out what the command line asks for. -/
def main (words : List String) : IO UInt32 := do
  let outcome ← run systemFiles words
  IO.print outcome.output
  IO.eprint outcome.messages
  return outcome.exitCode.toUInt32
