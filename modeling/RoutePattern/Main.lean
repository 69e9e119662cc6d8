import RoutePattern.CommandLine

/-!
The program: it looks at the files, the environment and the input that its arguments ask for, and
writes what the command line says.
-/

namespace RoutePattern
namespace Program

def textAt (path : String) : IO (Option Text) := do
  try
    return some (← IO.FS.readFile path).toList
  catch _ => return none

def environment : IO (Table Text Text) := do
  let entries := ((← textAt "/proc/self/environ").map (Text.split '\x00')).getD []
  return Table.ofEntries (entries.filterMap (Text.cut '='))

def below : Nat → Text → IO.FS.DirEntry → IO Files
  | 0, _, _ => return []
  | depth + 1, lead, entry => do
    let name := lead ++ entry.fileName.toList
    if ← entry.path.isDir then
      let inner ← (← entry.path.readDir).toList.mapM (below depth (name ++ ['/']))
      return (name, none) :: inner.flatten
    else return [(name, some ((← textAt entry.path.toString).getD []))]

/-- What is found at the end of a way, and whether that is a directory. -/
def entryAt (way : List Text) : IO Files := do
  let path := String.ofList (Text.join ['/'] way)
  if ← (← IO.currentDir) / path |>.isDir then return [(path.toList, none)]
  else return (← textAt path).toList.map (path.toList, some ·)

def waysThrough (path : Text) : List (List Text) :=
  ((Files.names path).foldl
    (fun (acc : List (List Text) × List Text) name =>
      let w := Files.follow acc.2 name
      (acc.1 ++ [w], w))
    ([], Files.origin path)).1

def filesAt (path : Text) : IO Files := do
  if path.any Files.isMagic then
    let entries ← (← IO.currentDir).readDir
    return (← entries.toList.mapM (below (Files.names path).length [])).flatten
  else return (← (waysThrough path).mapM entryAt).flatten

partial def rest (input : IO.FS.Stream) (read : Text) : IO Text := do
  let line ← input.getLine
  if line.isEmpty then return read else rest input (read ++ line.toList)

/-- What the program finds around it, as far as its arguments ask for it. -/
def surroundings (args : List Text) : IO Surroundings := do
  let paths := CommandLine.paths args
  let files ← paths.mapM filesAt
  let input ← if paths.contains ['-'] then rest (← IO.getStdin) [] else pure []
  return ⟨Table.ofEntries files.flatten, ← environment, input⟩

end Program
end RoutePattern

def main (args : List String) : IO UInt32 := do
  let args := args.map String.toList
  let outcome := RoutePattern.CommandLine.run (← RoutePattern.Program.surroundings args) args
  IO.print (String.ofList outcome.output)
  IO.eprint (String.ofList outcome.errors)
  if let some refusal := outcome.refusal then
    IO.eprintln ("Error: " ++ String.ofList refusal.message)
  return UInt32.ofNat outcome.exitCode
