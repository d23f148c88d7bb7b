import JsonTemplate.Command.Run

/-!
The program: its arguments, files and input are read, and what it prints is written.
-/

namespace JsonTemplate

/-- The files that a command reads. -/
def Command.paths : Command → List String
  | .version => []
  | .expand template settings => template :: settings.parameterFile.toList
  | .check template | .tree template | .tokens template => [template]

def reasonOf : IO.Error → String
  | .noFileOrDirectory _ _ _ => "No such file or directory (os error 2)"
  | e => toString e

def contentsOf (path : String) : IO Contents := do
  match ← (IO.FS.readFile path).toBaseIO with
  | .ok text => return .ok text
  | .error e => return .error (reasonOf e)

def surroundings (arguments : List String) : IO Surroundings := do
  let paths :=
    match Command.ofArguments arguments with
    | .ok command => command.paths
    | .error _ => []
  let files ← (paths.filter (· ≠ "-")).mapM fun path => return (path, ← contentsOf path)
  let stdin ← IO.getStdin
  let input ← if paths.contains "-" then stdin.readToEnd else pure ""
  let plain := (← IO.getEnv "NO_COLOR").isSome
  let terminal ← (← IO.getStdout).isTty
  return {
    file := fun path =>
      match files.find? fun entry => entry.1 = path with
      | some entry => entry.2
      | none => .error "No such file or directory (os error 2)"
    input
    colored := terminal && !plain }

end JsonTemplate

def main (arguments : List String) : IO UInt32 := do
  let ending := JsonTemplate.Command.runArguments (← JsonTemplate.surroundings arguments) arguments
  IO.print ending.output
  IO.eprint ending.errors
  return ending.status.toUInt32
