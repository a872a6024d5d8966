import Isotherm.CommandLine.Run

/-!
# The program

Prints what a run of the command line comes to and ends with its status. The pictures of an outcome
are for a renderer to draw.
-/

open Isotherm.CommandLine

def main (words : List String) : IO UInt32 := do
  let clock ← IO.monoNanosNow
  match run .standard words clock with
  | .ok outcome =>
    for line in outcome.output do
      IO.println line
    match outcome.usageError with
    | some message =>
      for line in usage do
        IO.eprintln line
      IO.eprintln message
    | none => pure ()
    return UInt32.ofNat outcome.status
  | .error crash =>
    IO.eprintln crash.message
    return 1
