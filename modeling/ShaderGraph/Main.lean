import ShaderGraph.CommandLine

/-
The program.
-/
open ShaderGraph

def readText (path : String) : IO (Except CommandLine.FileError String) := do
  try
    return .ok (← IO.FS.readFile path)
  catch error =>
    match error with
    | .noFileOrDirectory .. => return .error .notFound
    | .inappropriateType .. => return .error .isDirectory
    | _ => return .error (.other (toString error))

/-- Reads the files that the options name, runs, and prints. -/
def main (arguments : List String) : IO UInt32 := do
  let paths := match CommandLine.Options.parse arguments with
    | .ok options => options.paths
    | .error _ => []
  let texts ← paths.mapM fun path => do return (path, ← readText path)
  let outcome := CommandLine.run (fun path => (texts.lookup path).getD (.error .notFound)) arguments
  match outcome with
  | .ok text => IO.print text
  | .error error => IO.eprintln error.message
  return (CommandLine.exitCode outcome).toUInt32
