import Memberwise.Cli.Program

/-!
# Command line

Passes arguments and environment to the program and prints what it says.
-/

open Memberwise

/-- Runs the program on the arguments and the environment of the process. -/
def main (args : List String) : IO UInt32 := do
  let level ← IO.getEnv "WIREBIND_LOG_LEVEL"
  let terminal ← (← IO.getStdout).isTty
  let ending := Cli.runProgram {} level terminal args
  for line in ending.output do
    IO.println line
  if let some complaint := ending.complaint then
    IO.eprintln complaint
  return UInt32.ofNat ending.code
