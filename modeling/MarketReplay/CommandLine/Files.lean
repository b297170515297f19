import MarketReplay.CommandLine.Response

/-!
# Invocations on files

An invocation in a directory whose files are known: what it reads there, why it cannot read or
write, and the files that it leaves.
-/

namespace MarketReplay

/-- The files of a directory by path; of two with one path the first counts. -/
structure Files where
  entries : List (String × String)

namespace Files

/-- There is no such file. -/
def missing : String := "No such file or directory (os error 2)"

/-- A file stands where a directory should. -/
def occupied : String := "File exists (os error 17)"

/-- A path leads through a file. -/
def notDirectory : String := "Not a directory (os error 20)"

/-- A directory stands where a file should. -/
def isDirectory : String := "Is a directory (os error 21)"

/-- The names along a path. A path from the root begins with an empty one; other empty names and
single dots do not count. -/
def names (path : String) : List String :=
  let parts := (Text.split '/' path.toList).map String.ofList
  let root := if path.toList.head? == some '/' then [""] else []
  root ++ parts.filter fun name => !name.isEmpty && name != "."

/-- Whether a file stands on the way to a path. -/
def blocks (files : Files) (path : String) : Bool :=
  files.entries.any fun f => (names f.1).isPrefixOf (names path)

/-- The text of a file. -/
def read (files : Files) : FileLookup := fun path =>
  match files.entries.find? fun f => names f.1 == names path with
  | some f => .ok f.2
  | none =>
    if path.isEmpty then .error missing
    else if files.entries.any fun f => (names path).isPrefixOf (names f.1) then .error isDirectory
    else if files.blocks path then .error notDirectory
    else .error missing

/-- Why a directory cannot be made. -/
def directoryFault? (files : Files) (directory : String) : Option String :=
  if files.entries.any fun f => names f.1 == names directory then some occupied
  else if files.blocks directory then some notDirectory
  else none

/-- The path of a file in a directory. -/
def pathIn (directory name : String) : String :=
  if directory.isEmpty || directory.toList.getLast? == some '/' then directory ++ name
  else directory ++ "/" ++ name

/-- The files with more of them in a directory. -/
def write (files : Files) (directory : String) (named : List (String × String)) : Files :=
  ⟨named.map (fun f => (pathIn directory f.1, f.2)) ++ files.entries⟩

/-- The response to arguments, and the files after it. -/
def run (files : Files) (execution : Execution) (arguments : List String) : Response × Files :=
  let response := Invocation.respondTo files.read execution arguments
  match response.artifacts with
  | none => (response, files)
  | some (directory, named) =>
    match files.directoryFault? directory with
    | some reason => (.unwritable directory reason, files)
    | none => (response, files.write directory named)

end Files

end MarketReplay
