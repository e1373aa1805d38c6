import Retint.Parser.Basic
import Retint.Text.Digits
import Retint.Text.Lines
import Retint.Tree.Walk

/-!
# Parsing with syntax trees

A session keeps the last tree together with the text it was grown from. An incremental request
replaces a region of that text, tells the grammar which part of the old tree changed, and has a
new tree grown. A request that does not fit the text is refused and leaves the session as it was.

Growing a tree is the business of a grammar, which is a function here: it takes the language, the
text and, for an incremental request, the old tree with the edit. A language whose grammar cannot
be loaded is refused; which ones these are is another function, and the languages that come with the
program are all loaded.
-/

namespace Retint

/-- An edit by its byte offsets and by their positions. -/
structure TreeEdit where
  /-- The edit. -/
  edit : Edit
  /-- Where the edit starts. -/
  start : Text.Position
  /-- Where the replaced region ends in the old text. -/
  oldEnd : Text.Position
  /-- Where the region that takes its place ends in the new text. -/
  newEnd : Text.Position
  deriving DecidableEq, Repr

/-- How a grammar grows the tree of a text, from nothing or from an edited tree. -/
abbrev Grow (m : Type → Type) :=
  Language → Text → Option (SyntaxTree × TreeEdit) → m (Option SyntaxTree)

/-- The kinds of nodes of a grammar by their number: a name, and whether nodes of it are named. -/
abbrev SymbolTable := List (Option String × Bool)

/-- The names of a table's named kinds, each once, in increasing order. Numbers have sixteen
bits. -/
def SymbolTable.kinds (table : SymbolTable) : List String :=
  let names := (table.take 65536).filterMap fun (name, named) => if named then name else none
  (names.mergeSort fun a b => a ≤ b).eraseReps

/-- What a parser with syntax trees remembers. -/
structure Session where
  /-- The language chosen last. -/
  language : Option Language
  /-- The tree grown last. -/
  tree : Option SyntaxTree
  /-- The text of that tree. -/
  text : Text

namespace Session

/-- The session before any language is chosen. -/
def start : Session := ⟨none, none, []⟩

/-- The session after choosing a language: whatever was parsed before is forgotten. -/
def setLanguage (_ : Session) (language : Language) : Session := ⟨some language, none, []⟩

/-- The answer to the choice of a language. One that is refused, with the reason why, leaves the
session as it was. -/
def choose (refused? : Language → Option Text) (s : Session) (language : Language) :
    Except ParserError Unit × Session :=
  match refused? language with
  | none => (.ok (), s.setLanguage language)
  | some reason => (.error (.grammar (language.displayName.toList ++ ": ".toList ++ reason)), s)

/-- Why an edit does not fit a text, if it does not: its region is out of range, the inserted text
has another length than the edit says, or a character is split. -/
def refusal? (text changed : Text) (e : Edit) : Option ParserError :=
  let size := text.byteSize
  if e.oldEnd < e.start || size < e.oldEnd then
    some <| .misfit <| "range ".toList ++ Text.ofNat e.start ++ "..".toList ++
      Text.ofNat e.oldEnd ++ " outside parsed text of ".toList ++ Text.ofNat size ++ " bytes".toList
  else if e.newEnd < e.start || changed.byteSize != e.insertedLength then
    some <| .misfit <| "changed text is ".toList ++ Text.ofNat changed.byteSize ++
      " bytes, diff expects ".toList ++ Text.ofNat e.insertedLength
  else
    ([e.start, e.oldEnd].find? fun offset => !text.isBoundary offset).map fun offset =>
      .misfit <| "offset ".toList ++ Text.ofNat offset ++ " splits a character".toList

variable {m : Type → Type} [Monad m]

/-- The highlights of a whole text. -/
def parseFull (grow : Grow m) (s : Session) (text : Text) :
    m (Except ParserError (List Highlight) × Session) := do
  let some language := s.language | return (.error .noLanguage, s)
  match ← grow language text none with
  | none => return (.error .noTree, { s with tree := none })
  | some tree =>
    return (.ok (tree.highlights language text), { s with tree := some tree, text := text })

/-- The highlights of the text after an edit. -/
def parseIncremental (grow : Grow m) (s : Session) (changed : Text) (e : Edit) :
    m (Except ParserError (List Highlight) × Session) := do
  let some language := s.language | return (.error .noLanguage, s)
  let some oldTree := s.tree
    | return (.error (.misfit "no previous tree to edit".toList), s)
  if let some error := refusal? s.text changed e then return (.error error, s)
  let some text := e.splice? changed s.text | return (.error .noTree, s)
  let treeEdit : TreeEdit := {
    edit := e
    start := s.text.position e.start
    oldEnd := s.text.position e.oldEnd
    newEnd := text.position e.newEnd }
  match ← grow language text (some (oldTree, treeEdit)) with
  | none => return (.error .noTree, { s with tree := none, text := text })
  | some tree =>
    return (.ok (tree.highlights language text), { s with tree := some tree, text := text })

/-- The answer to either kind of request. -/
def parse (grow : Grow m) (s : Session) :
    ParseRequest → m (Except ParserError (List Highlight) × Session)
  | .full text => s.parseFull grow text
  | .incremental changed e => s.parseIncremental grow changed e

/-- The names of the named kinds of the chosen language. -/
def listKinds (symbols : Language → SymbolTable) (s : Session) :
    Except ParserError (List String) :=
  match s.language with
  | none => .error .noLanguage
  | some language => .ok (symbols language).kinds

/-- The parser that keeps a session as its state. It is always ready and never breaks down. -/
def parser (grow : Grow m) (refused? : Language → Option Text := fun _ => none) :
    Parser (StateT Session m) where
  setLanguage language := do
    let (answer, s) := (← get).choose refused? language
    set s
    return some (answer.mapError .reported)
  parse request := do
    let (answer, s) ← ((← get).parse grow request : m _)
    set s
    return some (answer.mapError .reported)

end Session

end Retint
