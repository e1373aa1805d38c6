import Retint.Text.Basic

/-!
# Lines

A line ends with a line feed, a carriage return, both in this order (one break), a vertical tab, a
form feed, a next line (U+0085), or a line or paragraph separator. What follows the last break is
a line even when it is empty, so a text always has at least one. `lines_flatten` says that the
lines, each with its break, put together are the text again.
-/

namespace Retint.Text

/-- The characters that end a line on their own. -/
def isLineBreak (c : Char) : Bool :=
  c == '\n' || c == '\r' || c == '\x0b' || c == '\x0c' || c == '\u0085' ||
    c == '\u2028' || c == '\u2029'

/-- The lines of a text, each with its break. -/
def lines : Text → List Text
  | [] => [[]]
  | '\r' :: '\n' :: rest => ['\r', '\n'] :: lines rest
  | c :: rest =>
    if isLineBreak c then [c] :: lines rest
    else
      match lines rest with
      | [] => [[c]]
      | line :: later => (c :: line) :: later

/-- Nothing is lost when a text is cut into lines. -/
theorem lines_flatten (t : Text) : (lines t).flatten = t := by
  fun_induction lines t with
  | case1 => rfl
  | case2 rest ih => simp [ih]
  | case3 c rest _ _ ih => simp [ih]
  | case4 c rest _ _ hnil ih => simp [hnil] at ih; simp [← ih]
  | case5 c rest _ _ line later hcons ih => simp [hcons] at ih; simp [← ih]

theorem lines_ne_nil (t : Text) : lines t ≠ [] := by
  fun_cases lines t <;> simp

/-- The offsets at which consecutive pieces start, the first of them at `start`. -/
def startsFrom (start : Nat) : List Text → List Nat
  | [] => []
  | piece :: later => start :: startsFrom (start + byteSize piece) later

/-- The offset at which each line starts. -/
def lineStarts (t : Text) : List Nat := startsFrom 0 (lines t)

/-- A line number and a distance in bytes from the start of that line. -/
structure Position where
  /-- The number of lines before this one. -/
  row : Nat
  /-- The number of bytes between the start of the line and the position. -/
  column : Nat
  deriving DecidableEq, Repr

/-- The position of a byte offset: its line is the last one that starts at or before it. -/
def position (t : Text) (offset : Nat) : Position :=
  let before := (lineStarts t).takeWhile (· ≤ offset)
  { row := before.length - 1, column := offset - before.getLastD 0 }

end Retint.Text
