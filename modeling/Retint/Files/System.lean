import Retint.Files.Path

/-!
# Files and directories

A file system of directories and regular files, as a table from locations to what is there. A
location is the list of names from the root; a path is resolved to one name by name, and each name
but the last has to lead to a directory. An action on files can fail midway, and then what it did
before stays done.
-/

namespace Retint

/-- Why an action on files failed. -/
inductive FileError where
  | notFound
  | alreadyExists
  | notADirectory
  | isADirectory
  | invalidData
  deriving DecidableEq, Repr

namespace FileError

/-- The error in words. -/
def message : FileError → Text
  | notFound => "No such file or directory (os error 2)".toList
  | alreadyExists => "File exists (os error 17)".toList
  | notADirectory => "Not a directory (os error 20)".toList
  | isADirectory => "Is a directory (os error 21)".toList
  | invalidData => "stream did not contain valid UTF-8".toList

end FileError

/-- The names that lead from the root to a file or directory. -/
abbrev Location := List Text

/-- What is at a location. -/
inductive Entry where
  /-- A directory. -/
  | directory
  /-- A file with its bytes. -/
  | file (bytes : ByteArray)

/-- The files and directories below the root. -/
structure FileSystem where
  /-- What is at each location below the root. -/
  entries : List (Location × Entry)
  /-- The location from which paths without a slash in front are resolved. -/
  working : Location

/-- An action on files, which may fail and keeps what was done before it failed. -/
abbrev FileAction := ExceptT FileError (StateM FileSystem)

namespace FileSystem

/-- What is at a location. The root is always a directory. -/
def entry? (fs : FileSystem) (location : Location) : Option Entry :=
  if location = [] then some .directory else fs.entries.lookup location

/-- The file system with something put at a location. -/
def put (fs : FileSystem) (location : Location) (entry : Entry) : FileSystem :=
  { fs with entries := (location, entry) :: fs.entries.filter (·.1 ≠ location) }

/-- The file system without what is at a location and below it. -/
def remove (fs : FileSystem) (location : Location) : FileSystem :=
  { fs with entries := fs.entries.filter fun (there, _) => !location.isPrefixOf there }

/-- The location to which names lead from another one; there may be nothing at the last one. -/
def follow (fs : FileSystem) : Location → List Text → Except FileError Location
  | here, [] => .ok here
  | here, name :: later =>
    match fs.entry? here with
    | none => .error .notFound
    | some (.file _) => .error .notADirectory
    | some .directory =>
      if name = ['.'] then fs.follow here later
      else if name = ['.', '.'] then fs.follow here.dropLast later
      else fs.follow (here ++ [name]) later

/-- Where the names of a path start to lead from. -/
def origin (fs : FileSystem) (path : Text) : Location :=
  if path.head? = some '/' then [] else fs.working

/-- What is at a path. A slash at its end asks for a directory. -/
def stat (fs : FileSystem) (path : Text) : Except FileError Entry := do
  if path = [] then throw .notFound
  let location ← fs.follow (fs.origin path) (Path.names '/' path)
  match fs.entry? location with
  | none => throw .notFound
  | some (.file bytes) =>
    if path.getLast? = some '/' then throw .notADirectory else return .file bytes
  | some .directory => return .directory

/-- Whether there is something at a path. -/
def has (fs : FileSystem) (path : Text) : Bool := (fs.stat path).isOk

/-- Whether there is a directory at a path. -/
def hasDirectory (fs : FileSystem) (path : Text) : Bool :=
  match fs.stat path with
  | .ok .directory => true
  | _ => false

/-- The bytes of the file at a path. -/
def read (fs : FileSystem) (path : Text) : Except FileError ByteArray := do
  match ← fs.stat path with
  | .file bytes => return bytes
  | .directory => throw .isADirectory

/-- The text of the file at a path. -/
def readText (fs : FileSystem) (path : Text) : Except FileError Text := do
  match String.fromUTF8? (← fs.read path) with
  | some s => return s.toList
  | none => throw .invalidData

/-- The directory in which the last of some names stands. -/
def directoryOf (fs : FileSystem) (origin : Location) (names : List Text) :
    Except FileError Location := do
  let directory ← fs.follow origin names.dropLast
  match fs.entry? directory with
  | none => throw .notFound
  | some (.file _) => throw .notADirectory
  | some .directory => return directory

/-- The location below a directory at which something new can be made under a name. -/
def newLocation (fs : FileSystem) (directory : Location) (name : Text) :
    Except FileError Location :=
  if name = ['.'] ∨ name = ['.', '.'] ∨ (fs.entry? (directory ++ [name])).isSome then
    .error .alreadyExists
  else .ok (directory ++ [name])

end FileSystem

namespace FileAction

/-- An action that only looks at the files. -/
def look {α : Type} (f : FileSystem → Except FileError α) : FileAction α := do
  match f (← get) with
  | .ok a => return a
  | .error error => throw error

/-- Make one directory in a directory that exists. -/
def makeDirectory (origin : Location) (names : List Text) : FileAction Unit := do
  let some name := names.getLast? | throw .alreadyExists
  let directory ← look fun fs => fs.directoryOf origin names
  let location ← look fun fs => fs.newLocation directory name
  modify (·.put location .directory)

/-- Be content with a failure to make a directory where there is one. -/
def unlessDirectory (origin : Location) (names : List Text) (error : FileError) :
    FileAction Unit := do
  let fs ← get
  match (fs.follow origin names).toOption.bind fs.entry? with
  | some .directory => return
  | _ => throw error

/-- Make a directory and those above it that are missing; the names are given last first. -/
def makeDirectoriesUp (origin : Location) : List Text → FileAction Unit
  | [] => return
  | name :: above =>
    let names := (name :: above).reverse
    tryCatch (makeDirectory origin names) fun
      | .notFound => do
        makeDirectoriesUp origin above
        tryCatch (makeDirectory origin names) (unlessDirectory origin names)
      | error => unlessDirectory origin names error

/-- Make the directory at a path and those above it that are missing. -/
def makeDirectories (path : Text) : FileAction Unit := do
  let names := (Path.names '/' path).filter (· ≠ ['.'])
  makeDirectoriesUp ((← get).origin path) names.reverse

/-- Make the directories that are missing above a path. -/
def makeParents (path : Text) : FileAction Unit := do
  let fs ← get
  let origin := fs.origin path
  let above := ((Path.names '/' path).filter (· ≠ ['.'])).dropLast
  match (fs.follow origin above).toOption.bind fs.entry? with
  | some _ => return
  | none => makeDirectoriesUp origin above.reverse

/-- Write a file that does not exist yet, into a directory that does. -/
def create (path : Text) (bytes : ByteArray) : FileAction Unit := do
  let names := Path.names '/' path
  let some name := names.getLast? | throw .notFound
  let directory ← look fun fs => fs.directoryOf (fs.origin path) names
  if path.getLast? = some '/' then throw .isADirectory
  let location ← look fun fs => fs.newLocation directory name
  modify (·.put location (.file bytes))

/-- Write a file, whatever was there before, with the directories that are missing above it. -/
def save (path : Text) (bytes : ByteArray) : FileAction Unit := do
  makeParents path
  let location ← look fun fs => fs.follow (fs.origin path) (Path.names '/' path)
  modify (·.put location (.file bytes))

/-- Remove what is at a path. -/
def remove (path : Text) : FileAction Unit := do
  let location ← look fun fs => fs.follow (fs.origin path) (Path.names '/' path)
  modify (·.remove location)

end FileAction

end Retint
