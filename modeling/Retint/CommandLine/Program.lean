import Retint.CommandLine.Arguments
import Retint.CommandLine.Report
import Retint.Pipeline.Settle
import Retint.Settings.File
import Retint.Tree.Session
import Retint.Viewport.Filter

/-!
# The program

One run highlights one file: it makes sure that there are a directory for logs and a settings file,
reads the file, lets a pipeline parse it, and prints the spans that a window on it shows. A run
whose arguments are at fault touches nothing.
-/

namespace Retint.Program

/-- How a run ends. -/
structure Outcome where
  /-- The status: zero if the run succeeded. -/
  status : UInt8
  /-- What is printed. -/
  output : Text
  /-- What is printed as an error. -/
  errors : Text
  deriving DecidableEq, Repr

/-- The end of a run that succeeded. -/
def success (output : Text) : Outcome := ⟨0, output, []⟩

/-- The end of a run that failed, with some lines of explanation. -/
def failure (lines : List Text) : Outcome := ⟨1, [], lines.flatMap (· ++ ['\n'])⟩

/-- What a run works on once its files are read. -/
structure Job where
  /-- What the program was asked to do. -/
  arguments : Arguments
  /-- The settings. -/
  settings : Settings
  /-- The language of the file. -/
  language : Language
  /-- The text of the file. -/
  source : Text
  /-- The directory of the logs, if there could be one. -/
  logs : Option Text

/-- An action on files whose failure is of no interest. -/
def attempt {α : Type} (action : FileAction α) : StateM FileSystem (Option α) := do
  return (← action.run).toOption

/-- The directory of the logs, or one among the temporary files where there cannot be one. -/
def openLogs (e : Environment) (temporary : Text) : StateM FileSystem (Option Text) := do
  match ← attempt e.ensureLogDirectory with
  | some path => return some path
  | none =>
    let path := Path.join (Path.join temporary "rehighlight".toList) "logs".toList
    attempt do
      FileAction.makeDirectories path
      return path

/-- Everything that a run does before it highlights; its failure is the end of the run. -/
def prepare (e : Environment) (temporary : Text) (args : List Text) :
    StateM FileSystem (Except Outcome Job) := do
  match Arguments.read args with
  | .error fault => return .error (failure [fault.message, UsageError.usage.toList])
  | .ok arguments =>
    let logs ← openLogs e temporary
    let _ ← attempt (Settings.ensureFile e)
    let fs ← get
    let settings := (Settings.loadFile? fs e).getD {}
    match fs.readText arguments.path with
    | .error error =>
      return .error (failure
        ["cannot read ".toList ++ arguments.path ++ ": ".toList ++ error.message])
    | .ok source =>
      let language := (arguments.language.or (Language.ofPath? arguments.path)).getD
        settings.highlight.defaultLanguage
      return .ok ⟨arguments, settings, language, source, logs⟩

namespace Job

/-- The layout of the file. -/
def layout (job : Job) : Monospace := .ofText job.source job.settings.highlight.lineHeight

/-- The window on the file; without a height it is as high as the file. -/
def window (job : Job) : Window :=
  ⟨job.arguments.scroll, job.arguments.height.getD job.layout.contentHeight⟩

/-- What the filter is told once the spans are there, in this order. -/
def moves (job : Job) : List Filter.Move :=
  [.resize job.window.height, .scroll job.window.scroll, .layout (some job.layout.toLayout)]

/-- The filter over the spans of the file before it is told anything. -/
def filter (job : Job) (spans : List Span) : Filter :=
  .watching spans job.settings.highlight.scrollDebounce

/-- The spans that the window shows; none if the filter shows nothing. -/
def visible? (job : Job) (spans : List Span) : Option (List Span) := do
  let filter ← (job.filter spans).run job.moves
  let filter := filter.settle
  if filter.publications = 0 then none else some filter.visible

/-- The end of a run that failed while highlighting. -/
def fail (job : Job) (reason : Text) : Outcome :=
  failure (reason :: job.logs.toList.map ("logs: ".toList ++ ·))

variable {m : Type → Type} [Monad m]

/-- The end of a run that highlights. -/
def highlight (grow : Grow m) (job : Job) : m Outcome := do
  let palette := Palette.ofTheme job.settings.theme
  let opened := Pipeline.opened job.language job.source
  let (pipeline, _) ← (opened.settle palette (Session.parser grow)).run .start
  if pipeline.publishedRevision = 0 then
    return job.fail ("no highlight result for ".toList ++ job.language.displayName.toList)
  match job.visible? pipeline.published with
  | none => return job.fail "viewport was never restyled".toList
  | some spans => return success (Report.print job.source spans)

/-- The end of a run that lists the kinds of nodes. -/
def listKinds (symbols : Language → m SymbolTable) (job : Job) : m Outcome := do
  let table ← symbols job.language
  match (Session.start.setLanguage job.language).listKinds fun _ => table with
  | .error error => return job.fail error.message
  | .ok kinds => return success (kinds.flatMap fun kind => kind.toList ++ ['\n'])

end Job

end Retint.Program
