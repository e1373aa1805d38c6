import Retint.Files.System

/-!
# Where the program keeps its files

The environment tells where data and caches belong; where it does not, both go below the home
directory. A variable that is set to nothing counts as set.
-/

namespace Retint

/-- The variables of the environment that name directories. -/
structure Environment where
  /-- The home directory. -/
  home : Option Text
  /-- Where data belongs. -/
  dataHome : Option Text
  /-- Where caches belong. -/
  cacheHome : Option Text
  deriving DecidableEq, Repr

namespace Environment

/-- The directory of the program's own data. -/
def dataDirectory? (e : Environment) : Option Text :=
  match e.dataHome with
  | some base => some (Path.join base "rehighlight".toList)
  | none => e.home.map fun home =>
    Path.join (Path.join home ".local/share".toList) "rehighlight".toList

/-- The directory of all caches. -/
def cacheDirectory? (e : Environment) : Option Text :=
  match e.cacheHome with
  | some base => some base
  | none => e.home.map fun home => Path.join home ".cache".toList

/-- The directory of the logs. -/
def logDirectory? (e : Environment) : Option Text :=
  e.dataDirectory?.map fun base => Path.join base "logs".toList

/-- The settings file. -/
def settingsPath? (e : Environment) : Option Text :=
  e.cacheDirectory?.map fun base =>
    Path.join (Path.join base ".rehighlight".toList) "settings.json".toList

/-- The directory of the logs, made if it is missing. -/
def ensureLogDirectory (e : Environment) : FileAction Text := do
  let some path := e.logDirectory? | throw .notFound
  unless (← get).has path do FileAction.makeDirectories path
  return path

end Environment

end Retint
