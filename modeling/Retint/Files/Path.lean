import Retint.Text.Basic

/-!
# Paths

A path is a text in which slashes separate names. Empty names count for nothing, the name of one
dot stands for the directory it is in, and two dots for the one above. Paths are joined and taken
apart as texts, without looking at any file; the same rules serve paths of raw bytes, so a path is
here a list of whatever holds a separator and a dot.
-/

namespace Retint.Path

variable {α : Type} [DecidableEq α]

/-- The runs between separators, empty ones included. -/
def pieces (slash : α) : List α → List (List α)
  | [] => [[]]
  | a :: rest =>
    match pieces slash rest with
    | [] => [[a]]
    | piece :: later => if a = slash then [] :: piece :: later else (a :: piece) :: later

/-- The names of a path, dots among them, from left to right. -/
def names (slash : α) (p : List α) : List (List α) := (pieces slash p).filter (· ≠ [])

/-- The name of the file that a path leads to; none if it leads to a directory by dots alone. -/
def fileName? (slash dot : α) (p : List α) : Option (List α) :=
  match ((names slash p).filter (· ≠ [dot])).getLast? with
  | some name => if name = [dot, dot] then none else some name
  | none => none

/-- What stands after the last dot of a file name, unless that dot is its first character. -/
def extension? (slash dot : α) (p : List α) : Option (List α) := do
  let name ← fileName? slash dot p
  let after := name.reverse.takeWhile (· ≠ dot)
  if after.length + 1 < name.length then some after.reverse else none

/-- One path below another. A path that begins with a slash stands for itself. -/
def join (base below : Text) : Text :=
  if below.head? = some '/' || base = [] then below
  else if base.getLast? = some '/' then base ++ below
  else base ++ '/' :: below

end Retint.Path
