import Retint.Files.Directories
import Retint.Settings.Basic

/-!
# The settings file

The file is made with the default settings where it is missing, and then belongs to the user: it is
never written again, whatever it holds. Settings that cannot be read are as good as none.
-/

namespace Retint

/-- Why there are no settings in a file. -/
inductive SettingsError where
  /-- The file cannot be read. -/
  | file (error : FileError)
  /-- The text of the file writes no settings. -/
  | malformed
  deriving DecidableEq, Repr

namespace Settings

/-- The settings in a file. -/
def load (fs : FileSystem) (path : Text) : Except SettingsError Settings :=
  match fs.readText path with
  | .error error => .error (.file error)
  | .ok text =>
    match read? text with
    | none => .error .malformed
    | some settings => .ok settings

/-- Make a file with the default settings unless there is something at its path. -/
def writeDefault (path : Text) : FileAction Unit := do
  FileAction.makeParents path
  unless (← get).has path do
    FileAction.create path (String.ofList defaultText).toUTF8

/-- The path of the settings file, which is made if it is missing. -/
def ensureFile (e : Environment) : FileAction Text := do
  let some path := e.settingsPath? | throw .notFound
  writeDefault path
  return path

/-- The settings in the settings file, if there is one with settings. -/
def loadFile? (fs : FileSystem) (e : Environment) : Option Settings := do
  (load fs (← e.settingsPath?)).toOption

end Settings

end Retint
