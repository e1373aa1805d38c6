import Retint.Number.Whole
import Retint.Text.Lines

/-!
# Laid-out lines

A layout says which line stands at a vertical position and which bytes a line covers. Where all
lines are equally high the line at a position is found by a division, cut off at the last line.
-/

namespace Retint

/-- A text cut into lines on a vertical axis. -/
structure Layout where
  /-- The line at a vertical position. -/
  lineAt : Float32 → Nat
  /-- The offset of the first byte of a line. -/
  lineStart : Nat → Nat
  /-- The offset after a line and its break. -/
  lineEnd : Nat → Nat

/-- The lines of a text, all of one height. -/
structure Monospace where
  /-- The height of a line, which is finite and above zero. -/
  lineHeight : Float32
  /-- The offset at which each line starts. -/
  lineStarts : List Nat
  /-- The number of bytes of the text. -/
  size : Nat

namespace Monospace

/-- The height that is used for a given one: itself if lines can have it, and one otherwise. -/
def usableHeight (height : Float32) : Float32 :=
  if height.isFinite && (0 : Float32) < height then height else 1

/-- The layout of a text. -/
def ofText (text : Text) (height : Float32) : Monospace where
  lineHeight := usableHeight height
  lineStarts := text.lineStarts
  size := text.byteSize

/-- The number of lines. -/
def lineCount (l : Monospace) : Nat := l.lineStarts.length

/-- The height of all lines together. -/
def contentHeight (l : Monospace) : Float32 := Single.ofCount l.lineCount * l.lineHeight

/-- The line at a vertical position: the first one above all lines and where there is no position,
the last one below them. -/
def lineAt (l : Monospace) (y : Float32) : Nat :=
  let last := l.lineCount - 1
  if 0 < y then
    let line := Single.floor (y / l.lineHeight)
    if Single.ofCount last ≤ line then last else line.toUInt64.toNat
  else 0

/-- The offset of the first byte of a line; for a line below the last one, the end of the text. -/
def lineStart (l : Monospace) (line : Nat) : Nat := l.lineStarts.getD line l.size

/-- The offset after a line, which is where the next one starts. -/
def lineEnd (l : Monospace) (line : Nat) : Nat := l.lineStart (line + 1)

/-- The lines as any other layout. -/
def toLayout (l : Monospace) : Layout := ⟨l.lineAt, l.lineStart, l.lineEnd⟩

end Monospace

end Retint
