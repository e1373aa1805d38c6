import Retint.Style.Palette
import Retint.Text.Quoted

/-!
# The printed spans

Each span is printed on a line of its own: its range, its colour, how it is drawn, and the first
characters it covers between quotes.
-/

namespace Retint.Report

/-- The number of characters shown of a span. -/
def snippetLength : Nat := 40

/-- The first characters of a span, none if its range is none of the text. -/
def snippet (source : Text) (s : Span) : Text :=
  ((source.slice? s.start s.stop).getD []).take snippetLength

/-- The words for how a span is drawn, each with a blank in front. -/
def flags (s : Style) : Text :=
  (if s.bold then " bold".toList else []) ++ (if s.italic then " italic".toList else [])

/-- The line of a span without its break. -/
def line (source : Text) (s : Span) : Text :=
  Text.ofNat s.start ++ "..".toList ++ Text.ofNat s.stop ++ ' ' :: s.style.foreground.toHex ++
    flags s.style ++ ' ' :: Text.quoted (snippet source s)

/-- The lines of several spans, each with its break. -/
def print (source : Text) (spans : List Span) : Text :=
  spans.flatMap fun s => line source s ++ ['\n']

end Retint.Report
