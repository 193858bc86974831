import Bytecheck.CommandLine.Program

/-!
# The Program

Listings go to standard output; a usage line or the text of a rejection goes to standard error. The
exit code is that of the outcome.
-/

open Bytecheck.CommandLine

def main (args : List String) : IO UInt32 := do
  let outcome := run args
  match outcome with
  | .usage line => IO.eprintln line
  | .rejected text => IO.eprint text
  | .listing entries => entries.forM IO.println
  return outcome.exitCode.toUInt32
