import MarketReplay.CommandLine.Files
import Std.Time.DateTime.Timestamp

/-!
# The program

Reads the files that an invocation asks for, prints its response, and writes its artifacts.
-/

namespace MarketReplay.CommandLine

/-- Why a file or a directory cannot be used. -/
def reasonOf (e : IO.Error) : String :=
  match e with
  | .noFileOrDirectory .. => Files.missing
  | .alreadyExists .. => Files.occupied
  | e => toString e

/-- The text of a file, or why it cannot be read. -/
def readFile (path : String) : IO (Except String String) :=
  try
    return .ok (← IO.FS.readFile path)
  catch e => return .error (reasonOf e)

/-- The texts of files. -/
def readFiles (paths : List String) : IO FileLookup := do
  let found ← paths.mapM fun path => do return (path, ← readFile path)
  return fun path => (found.lookup path).getD (.error Files.missing)

/-- An execution that begins now. -/
def newExecution : IO Execution := do
  let now := (← Std.Time.Timestamp.now).toNanosecondsSinceUnixEpoch.toInt
  let bytes ← IO.getRandomBytes 16
  return {
    runId := Digest.randomId bytes.toList
    createdAt := Execution.momentText (now / 1000000000) (now % 1000000000).toNat
    sourceHash := Execution.unknownSource }

/-- Writes artifacts; the response tells if that fails. -/
def writeArtifacts (response : Response) : IO Response := do
  match response.artifacts with
  | none => return response
  | some (directory, named) =>
    try
      unless directory.isEmpty do IO.FS.createDirAll directory
      for (name, content) in named do
        IO.FS.writeFile (Files.pathIn directory name) content
      return response
    catch e => return .unwritable directory (reasonOf e)

/-- The response to arguments, its artifacts written. -/
def respond (arguments : List String) : IO Response := do
  match Invocation.ofArguments? arguments with
  | none => return .misused
  | some invocation =>
    let layers ← readFiles (invocation.reads fun _ => .error Files.missing)
    let file ← readFiles (invocation.reads layers)
    writeArtifacts (invocation.respond file (← newExecution))

end MarketReplay.CommandLine

/-- Responds to the arguments. -/
def main (arguments : List String) : IO UInt32 := do
  let response ← MarketReplay.CommandLine.respond arguments
  IO.print response.output
  IO.eprint response.errors
  return response.code.toUInt32
