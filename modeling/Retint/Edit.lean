import Retint.Text.Basic

/-!
# The edit between two snapshots

An edit replaces the bytes of one region by others. Of all the edits that lead from one text to
another, `Edit.between?` answers the one that leaves the longest common beginning in place, and
then the longest common end of what remains. It compares characters and not bytes, so that every
offset it answers is a boundary of its text.
-/

namespace Retint

/-- A region of the old text and the region of the new text that takes its place. -/
structure Edit where
  /-- The offset of the first byte of both regions. -/
  start : Nat
  /-- The offset after the region of the old text. -/
  oldEnd : Nat
  /-- The offset after the region of the new text. -/
  newEnd : Nat
  deriving DecidableEq, Repr

/-- The longest text with which both texts begin. -/
def Text.commonStart : Text → Text → Text
  | a :: s, b :: t => if a = b then a :: commonStart s t else []
  | _, _ => []

namespace Edit

/-- The number of bytes that the edit removes. -/
def removedLength (e : Edit) : Nat := e.oldEnd - e.start

/-- The number of bytes that the edit inserts. -/
def insertedLength (e : Edit) : Nat := e.newEnd - e.start

/-- The characters of the new text that the edit inserts, those that hold an offset included at
the start and left out at the end; `none` if the offsets are in the wrong order or outside. -/
def insertedText? (e : Edit) (new : Text) : Option Text := do
  let first ← new.charIndex? e.start
  let last ← new.charIndex? e.newEnd
  if first ≤ last then some ((new.take last).drop first) else none

/-- The edit that leads from one text to another; `none` if they have the same length and the common
beginning is all of it. -/
def between? (old new : Text) : Option Edit :=
  let front := Text.commonStart old new
  if old.length = new.length ∧ front.length = old.length then none
  else
    let oldRest := old.drop front.length
    let newRest := new.drop front.length
    let back := Text.commonStart oldRest.reverse newRest.reverse
    some {
      start := front.byteSize
      oldEnd := old.byteSize - back.byteSize
      newEnd := new.byteSize - back.byteSize }

/-- The old text with the edited region replaced, if both its ends are boundaries in order. -/
def splice? (e : Edit) (changed old : Text) : Option Text := do
  let (front, _) ← old.splitAt? e.start
  let (_, back) ← old.splitAt? e.oldEnd
  return front ++ changed ++ back

end Edit

end Retint
