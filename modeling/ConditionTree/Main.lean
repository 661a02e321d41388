import ConditionTree.CommandLine.Run

/-!
# The program

Reads the files that a command line names, and prints and writes what the command comes to.
-/

namespace ConditionTree.CommandLine

/-- The files that a command reads. -/
def filesOf : Request → List String
  | .run i => i.config.toList ++ [i.file]
  | _ => []

def fileError : IO.Error → FileError
  | .noFileOrDirectory .. => .notFound
  | .permissionDenied .. => .permissionDenied
  | .inappropriateType .. => .isDirectory
  | .userError .. => .notUnicode
  | e => .other (toString e)

def readText (path : String) : IO (Except FileError String) := do
  try
    return .ok (← IO.FS.readFile path)
  catch e => return .error (fileError e)

def writeText (path text : String) : IO (Option FileError) := do
  try
    IO.FS.writeFile path text
    return none
  catch e => return some (fileError e)

/-- The outcome of a command line, with its file written. A file that cannot be written changes the
outcome. -/
def execute (arguments : List String) : IO Outcome := do
  let names := [configVariable, forceColorVariable]
  let values ← names.mapM fun name => return (name, ← IO.getEnv name)
  let environment (name : String) := (values.lookup name).join
  let request := Request.ofArguments (environment configVariable) arguments
  let files ← (filesOf request).mapM fun path => return (path, ← readText path)
  let read (path : String) := (files.lookup path).getD (.error .notFound)
  let outcome := respond ⟨environment, read, fun _ => none⟩ arguments
  match outcome.written with
  | none => return outcome
  | some (path, text) =>
    match ← writeText path text with
    | none => return outcome
    | some e => return respond ⟨environment, read, fun _ => some e⟩ arguments

end ConditionTree.CommandLine

def main (arguments : List String) : IO UInt32 := do
  let outcome ← ConditionTree.CommandLine.execute arguments
  IO.print outcome.stdout
  IO.eprint outcome.stderr
  return outcome.code.toUInt32
