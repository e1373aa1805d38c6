import Retint.Parser.Basic
import Retint.Style.Palette

/-!
# The highlight pipeline

The owner of a document tells a worker of every change of the text and of the language. Each notice
raises the epoch and waits in a queue. The worker takes all that is queued, has the parser run once
for the newest text and language, and publishes the style spans if no notice came in the meantime;
what it computed for a superseded notice it keeps for later. Owner and worker run side by side: the
moves of a pipeline are those of either of them and the answers of the parser, and between any two
moves of the worker there may be any number of moves of the owner.
-/

namespace Retint

/-- What the worker is told. -/
inductive Notice where
  /-- A document was opened. -/
  | opened (text : Text) (language : Language)
  /-- The document has a new text. -/
  | text (text : Text)
  /-- The document has a new language, or its grammar is to be loaded again. -/
  | language (language : Language)
  deriving DecidableEq, Repr

/-- A notice with the epoch that began with it. -/
structure Event where
  /-- The number of notices sent up to this one. -/
  epoch : Nat
  /-- What the worker is told. -/
  notice : Notice
  deriving DecidableEq, Repr

/-- The text that the parser consumed last and the result for it. -/
structure Synced where
  /-- The text. -/
  text : Text
  /-- The spans computed for it. -/
  spans : List Span
  /-- The number of results up to this one. -/
  revision : Nat
  deriving DecidableEq, Repr

/-- What the worker is doing. -/
inductive Phase where
  /-- It waits for an event. -/
  | idle
  /-- It takes events from the queue; the last one began the given epoch. -/
  | draining (epoch : Nat)
  /-- The queue was empty and the cycle for an epoch is about to begin. -/
  | starting (epoch : Nat)
  /-- The parser has been told a language. -/
  | choosing (epoch : Nat) (language : Language)
  /-- The parser has been asked for highlights. -/
  | parsing (epoch : Nat) (request : ParseRequest)
  /-- The result of the cycle is about to be published. -/
  | publishing (epoch : Nat)
  deriving DecidableEq, Repr

/-- The owner's side and the worker's side of a pipeline. -/
structure Pipeline where
  /-- The number of notices sent. -/
  epoch : Nat
  /-- The text of the last notice that had one. -/
  lastText : Text
  /-- The language of the last notice that had one. -/
  language : Language
  /-- The events that the worker has not taken yet, oldest first. -/
  queue : List Event
  /-- The newest text among the events taken. -/
  current : Text
  /-- The newest language among the events taken, until a text has been parsed in it. -/
  pendingLanguage : Option Language
  /-- The text that the parser saw last; none if the next cycle has to parse everything. -/
  synced : Option Synced
  /-- The number of results so far. -/
  revision : Nat
  /-- The revision of the result published last, zero if there is none. -/
  publishedRevision : Nat
  /-- The spans published last. -/
  published : List Span
  /-- What the worker is doing. -/
  phase : Phase
  deriving DecidableEq, Repr

namespace Pipeline

/-- A pipeline for a document, with the notice of its opening on the way. -/
def opened (language : Language) (text : Text) : Pipeline where
  epoch := 1
  lastText := text
  language := language
  queue := [⟨1, .opened text language⟩]
  current := []
  pendingLanguage := none
  synced := none
  revision := 0
  publishedRevision := 0
  published := []
  phase := .idle

/-- The pipeline after sending a notice. -/
def send (p : Pipeline) (notice : Notice) : Pipeline :=
  { p with epoch := p.epoch + 1, queue := p.queue ++ [⟨p.epoch + 1, notice⟩] }

/-- The pipeline after the owner saw a text, which is news only if it differs from the last. -/
def textChanged (p : Pipeline) (text : Text) : Pipeline :=
  if text = p.lastText then p else { p with lastText := text }.send (.text text)

/-- Whether a text would be news. -/
def isNews (p : Pipeline) (text : Text) : Bool := text ≠ p.lastText

/-- The pipeline after the owner chose a language, which is news even if it is the same. -/
def languageChanged (p : Pipeline) (language : Language) : Pipeline :=
  { p with language := language }.send (.language language)

/-- The pipeline after the worker took an event. -/
def absorb (p : Pipeline) (event : Event) (later : List Event) : Pipeline :=
  let p := { p with queue := later, phase := .draining event.epoch }
  match event.notice with
  | .opened text language => { p with current := text, pendingLanguage := some language }
  | .text text => { p with current := text }
  | .language language => { p with pendingLanguage := some language }

/-- The pipeline after a cycle failed. A language whose grammar cannot be loaded is given up. -/
def fail (p : Pipeline) (failure : Failure) : Pipeline :=
  { p with
    phase := .idle
    synced := none
    pendingLanguage :=
      match failure with
      | .reported error => if error.isGrammar then none else p.pendingLanguage
      | .crashed => p.pendingLanguage }

/-- What a cycle begins with: a language that is waiting is chosen first, a text of which nothing
is known is parsed as a whole, and otherwise only what changed. Where nothing changed there is
nothing to parse. -/
def firstPhase (p : Pipeline) (epoch : Nat) : Phase :=
  match p.pendingLanguage, p.synced with
  | some language, _ => .choosing epoch language
  | none, none => .parsing epoch (.full p.current)
  | none, some synced =>
    match Edit.between? synced.text p.current with
    | none => .publishing epoch
    | some edit => .parsing epoch (.incremental ((edit.insertedText? p.current).getD []) edit)

/-- The pipeline at the beginning of a cycle; one that is superseded ends at once. -/
def begin (p : Pipeline) (epoch : Nat) : Pipeline :=
  { p with phase := if epoch = p.epoch then p.firstPhase epoch else .idle }

/-- The pipeline after a result was published, unless it was published before or is superseded. -/
def publish (p : Pipeline) (epoch : Nat) : Pipeline :=
  match p.synced with
  | none => { p with phase := .idle }
  | some synced =>
    if synced.revision = p.publishedRevision ∨ epoch ≠ p.epoch then { p with phase := .idle }
    else
      { p with
        phase := .idle
        published := synced.spans
        publishedRevision := synced.revision }

/-- The pipeline after the next move that the worker makes by itself; none if it waits for an
event or for the parser. -/
def work (p : Pipeline) : Option Pipeline :=
  match p.phase, p.queue with
  | .idle, [] => none
  | .idle, event :: later => some (p.absorb event later)
  | .draining _, event :: later => some (p.absorb event later)
  | .draining epoch, [] => some { p with phase := .starting epoch }
  | .starting epoch, _ => some (p.begin epoch)
  | .publishing epoch, _ => some (p.publish epoch)
  | .choosing _ _, _ => none
  | .parsing _ _, _ => none

/-- The pipeline after the parser answered to the choice of a language. -/
def afterChoice (p : Pipeline) (epoch : Nat) (answer : Except Failure Unit) : Pipeline :=
  match answer with
  | .ok () => { p with phase := .parsing epoch (.full p.current) }
  | .error failure => p.fail failure

/-- The pipeline with a result for the newest text. -/
def sync (palette : Palette) (p : Pipeline) (epoch : Nat) (highlights : List Highlight) :
    Pipeline :=
  { p with
    phase := .publishing epoch
    revision := p.revision + 1
    synced := some ⟨p.current, palette.spans highlights, p.revision + 1⟩ }

/-- The failure of a cycle whose full parse answers a range that is none of the text. -/
def outOfRange : Failure :=
  .reported (.misfit "full parse returned out-of-range highlight".toList)

/-- The pipeline after the parser answered to a request. Where an edit does not fit what the
parser knows, or its answer does not fit the text, the whole text is parsed instead. -/
def afterParse (palette : Palette) (p : Pipeline) (epoch : Nat) (request : ParseRequest)
    (answer : Except Failure (List Highlight)) : Pipeline :=
  match request, answer with
  | .full _, .ok highlights =>
    if Highlight.allFit highlights p.current.byteSize then
      { p with pendingLanguage := none }.sync palette epoch highlights
    else p.fail outOfRange
  | .incremental _ _, .ok highlights =>
    if Highlight.allFit highlights p.current.byteSize then p.sync palette epoch highlights
    else { p with phase := .parsing epoch (.full p.current) }
  | .incremental _ _, .error (.reported (.misfit _)) =>
    { p with phase := .parsing epoch (.full p.current) }
  | _, .error failure => p.fail failure

/-- What can happen next. -/
inductive Move where
  /-- The owner sees a text. -/
  | text (text : Text)
  /-- The owner chooses a language. -/
  | language (language : Language)
  /-- The worker goes on. -/
  | work
  /-- The parser answers to the choice of a language. -/
  | chosen (answer : Except Failure Unit)
  /-- The parser answers to a request. -/
  | parsed (answer : Except Failure (List Highlight))

/-- The pipeline after a move; none if the move is not possible. -/
def step (palette : Palette) (p : Pipeline) : Move → Option Pipeline
  | .text text => some (p.textChanged text)
  | .language language => some (p.languageChanged language)
  | .work => p.work
  | .chosen answer =>
    match p.phase with
    | .choosing epoch _ => some (p.afterChoice epoch answer)
    | _ => none
  | .parsed answer =>
    match p.phase with
    | .parsing epoch request => some (p.afterParse palette epoch request answer)
    | _ => none

/-- The pipeline after several moves; none if one of them is not possible. -/
def run (palette : Palette) (p : Pipeline) : List Move → Option Pipeline
  | [] => some p
  | move :: later => (p.step palette move).bind fun next => next.run palette later

/-- The pipelines that some sequence of moves leads to. -/
def Reachable (palette : Palette) (language : Language) (text : Text) (p : Pipeline) : Prop :=
  ∃ moves, (opened language text).run palette moves = some p

/-- Whether nothing is queued and no cycle is under way. -/
def isQuiet (p : Pipeline) : Bool := p.queue.isEmpty && p.phase = .idle

end Pipeline

end Retint
