import Retint.CommandLine.Program
import Retint.Tree.Listing

/-!
# The executable

The files that a run may look at are taken from the disk, the run is carried out, and what it made
is put back there. The grammars are another program: it hands over the listed trees and tables of
symbols on the standard input, a line for each.
-/

open Retint

namespace Retint.Main

/-- What the next line of the standard input lists. -/
def nextListed : IO (Option Json.Value) := do
  let line ← (← IO.getStdin).getLine
  return Json.Value.read? line.toList

/-- The tree of a text by the grammar behind the standard input. -/
def grow : Grow IO := fun _ _ _ => return (← nextListed).bind SyntaxTree.ofValue?

/-- The symbols of a language by the grammar behind the standard input. -/
def symbols (_ : Language) : IO SymbolTable :=
  return ((← nextListed).bind SymbolTable.ofValue?).getD []

/-- What is on the disk at a path, if it is a file or a directory. -/
def look (path : Text) : IO (Option Entry) := do
  try
    return some (.file (← IO.FS.readBinFile (String.ofList path)))
  catch
    | .inappropriateType .. => return some .directory
    | _ => return none

/-- The paths above a path, from the root, and the path itself. -/
def route (path : Text) : List Text :=
  let top : Text := if path.head? = some '/' then ['/'] else []
  let names := Path.names '/' path
  (List.range names.length).map fun n => (names.take (n + 1)).foldl Path.join top

/-- Take what is on the disk at some paths and above them. -/
def takeFiles (working : Location) (paths : List Text) : IO FileSystem := do
  let mut fs : FileSystem := ⟨[], working⟩
  for n in List.range working.length do
    fs := fs.put (working.take (n + 1)) .directory
  for path in paths.flatMap route do
    if let some entry ← look path then
      if let .ok location := fs.follow (fs.origin path) (Path.names '/' path) then
        fs := fs.put location entry
  return fs

/-- Put on the disk what was made at some paths and above them. -/
def putFiles (before after : FileSystem) (paths : List Text) : IO Unit := do
  for path in paths.flatMap route do
    unless before.has path do
      match after.stat path with
      | .ok .directory => IO.FS.createDirAll (String.ofList path)
      | .ok (.file bytes) => IO.FS.writeBinFile (String.ofList path) bytes
      | .error _ => pure ()

end Retint.Main

/-- Highlight the file that the arguments name. -/
def main (args : List String) : IO UInt32 := do
  let setting? (name : String) : IO (Option Text) := return (← IO.getEnv name).map (·.toList)
  let environment : Environment := {
    home := ← setting? "HOME"
    dataHome := ← setting? "XDG_DATA_HOME"
    cacheHome := ← setting? "XDG_CACHE_HOME" }
  let temporary := ((← setting? "TMPDIR").getD "/tmp".toList)
  let args := args.map (·.toList)
  let source := (Arguments.read args).toOption.map (·.path)
  let spare := Path.join (Path.join temporary "rehighlight".toList) "logs".toList
  let paths := environment.logDirectory?.toList ++ [spare] ++ environment.settingsPath?.toList ++
    source.toList
  let working := Path.names '/' (← IO.currentDir).toString.toList
  let before ← Retint.Main.takeFiles working paths
  let (prepared, after) := (Program.prepare environment temporary args).run before
  Retint.Main.putFiles before after paths
  let outcome ← match prepared with
    | .error outcome => pure outcome
    | .ok job =>
      if job.arguments.listKinds then job.listKinds Retint.Main.symbols
      else job.highlight Retint.Main.grow
  (← IO.getStdout).putStr (String.ofList outcome.output)
  (← IO.getStderr).putStr (String.ofList outcome.errors)
  return outcome.status.toUInt32
