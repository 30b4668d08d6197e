import EpicsDb.CommandLine.Outcome

/-!
# The command line

Reads the files that the arguments name, runs the program on them, and prints what it gives.
-/

namespace EpicsDb

/-- Reads the file at a path. -/
def readPath (path : String) : IO (Except ReadError String) := do
  try
    let bytes ← IO.FS.readBinFile path
    return decodeFile bytes
  catch
    | .noFileOrDirectory .. => return .error .notFound
    | .inappropriateType .. => return .error .isDirectory
    | e => return .error (.system (toString e))

/-- Reads the files at the given paths. -/
def readPaths (paths : List String) : IO FileReader := do
  let files ← paths.mapM fun path => return (path, ← readPath path)
  return fun path => (files.lookup path).getD (.error .notFound)

end EpicsDb

open EpicsDb in
/-- Runs the program with its arguments. -/
def main (arguments : List String) : IO UInt32 := do
  let paths := ((parseArguments arguments).map (·.paths)).getD []
  let outcome := runProgram (← readPaths paths) arguments
  IO.print outcome.stdout
  if outcome.exit = 2 then
    IO.eprintln "error: the arguments are misused; try check, dump or version"
  match outcome.failure with
  | some text => IO.eprintln text
  | none => pure ()
  return outcome.exit.toUInt32
