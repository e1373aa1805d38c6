import Retint.Style.Palette
import Retint.Tree.Basic
import Retint.Viewport.Layout

/-!
# The visible part of a text

A window on a layout has a position and a height. It shows whole lines: all from the one at its top
to the one at its bottom. A span is visible if it shares a byte with what the window shows.
-/

namespace Retint

/-- A window on a layout. -/
structure Window where
  /-- The vertical position of its top. -/
  scroll : Float32
  /-- Its height. -/
  height : Float32

namespace Window

/-- The vertical position of the bottom; a height that is no positive number counts as zero. -/
def bottom (w : Window) : Float32 := w.scroll + if 0 < w.height then w.height else 0

/-- The line at the top. -/
def firstLine (w : Window) (layout : Layout) : Nat := layout.lineAt w.scroll

/-- The line at the bottom, which is not above the one at the top. -/
def lastLine (w : Window) (layout : Layout) : Nat :=
  max (layout.lineAt w.bottom) (w.firstLine layout)

/-- The bytes of the lines that the window shows. -/
def bytes (w : Window) (layout : Layout) : Range :=
  let start := layout.lineStart (w.firstLine layout)
  ⟨start, max (layout.lineEnd (w.lastLine layout)) start⟩

end Window

/-- Whether a span shares a byte with a range. -/
def Span.meets (s : Span) (r : Range) : Bool := s.start < r.stop && r.start < s.stop

/-- The spans that share a byte with a range, in their order. -/
def Span.within (spans : List Span) (r : Range) : List Span := spans.filter (·.meets r)

end Retint
