import Retint.Edit
import Retint.Kind
import Retint.Language

/-!
# Parsers

A parser turns a text into highlights. It is told the language first, and then either given whole
texts or told, one edit after another, how the text it saw last has changed. It may answer with an
error, it may break down without an answer, and it may take its time.
-/

namespace Retint

/-- Why a parser has no highlights for a text. -/
inductive ParserError where
  /-- The grammar of a language cannot be loaded. -/
  | grammar (reason : Text)
  /-- No language has been chosen yet. -/
  | noLanguage
  /-- The text has no tree. -/
  | noTree
  /-- An edit does not fit the text it is applied to, or a highlight does not fit its text. -/
  | misfit (reason : Text)
  /-- Anything else. -/
  | other (reason : Text)
  deriving DecidableEq, Repr

namespace ParserError

/-- The error in words. -/
def message : ParserError → Text
  | grammar reason => "Language error: ".toList ++ reason
  | noLanguage => "No language selected".toList
  | noTree => "Parser produced no syntax tree".toList
  | misfit reason => "Invalid diff state: ".toList ++ reason
  | other reason => "Parser error: ".toList ++ reason

/-- Whether a grammar could not be loaded. -/
def isGrammar : ParserError → Bool
  | grammar _ => true
  | _ => false

end ParserError

/-- How a call of a parser can end without what was asked for. -/
inductive Failure where
  /-- The parser answers that it cannot. -/
  | reported (error : ParserError)
  /-- The parser breaks down. -/
  | crashed
  deriving DecidableEq, Repr

/-- What a parser can be asked for. -/
inductive ParseRequest where
  /-- The highlights of a whole text. -/
  | full (text : Text)
  /-- The highlights of the text seen last after an edit that inserts some text. -/
  | incremental (changed : Text) (edit : Edit)
  deriving DecidableEq, Repr

/-- A parser, as the answers it gives in some monad; no answer means that it is not ready. -/
structure Parser (m : Type → Type) where
  /-- Choose a language. -/
  setLanguage : Language → m (Option (Except Failure Unit))
  /-- Parse a text. -/
  parse : ParseRequest → m (Option (Except Failure (List Highlight)))

end Retint
