import LinkedSearch.CommandLine

/-!
# The program

Reads the files that the arguments name, and prints the compiled request.
-/

open LinkedSearch

/-- The content of a file, if it can be read. -/
def readFile? (path : String) : IO (Option String) := do
  try
    return some (← IO.FS.readFile path)
  catch _ =>
    return none

/-- The inputs that the options name. -/
def readInputs (options : CommandLine.Options) : IO CommandLine.Inputs := do
  let fixture ← readFile? options.fixture
  let tree ← readFile? options.tree
  let config ← match options.config with
    | none => pure none
    | some path => do pure (some (← readFile? path))
  return {
    fixture, tree, config, index := options.index, dump := options.dump
    evaluate := options.evaluate }

/-- Run the command on its arguments. -/
def main (arguments : List String) : IO UInt32 := do
  let inputs ← match CommandLine.Options.parse? arguments with
    | none => pure none
    | some options => do pure (some (← readInputs options))
  let outcome := CommandLine.run inputs
  match outcome with
  | .printed value => IO.println value.indented
  | .failed failure => IO.eprintln failure.message
  | .misused => IO.eprintln "usage: --fixture FILE --tree FILE --index NAME [--config FILE] [--dump] [--evaluate]"
  return outcome.status.toUInt32
