import Retint.Proofs.Text.Cuts

/-!
# The edit between two texts as a script

`IsScript` says what makes an edit a correct instruction for turning one text into another, in
terms of the two texts and the offsets alone: the offsets are boundaries in order, the texts agree
outside the regions, and the inserted text in the place of the removed one gives the new text. The
edit that is computed for two different texts is always such a script.
-/

namespace Retint.Edit

/-- An edit that turns one text into another. -/
structure IsScript (old new : Text) (e : Edit) : Prop where
  /-- The region of the old text lies in that text. -/
  old_range : e.start ≤ e.oldEnd ∧ e.oldEnd ≤ old.byteSize
  /-- The region of the new text lies in that text. -/
  new_range : e.start ≤ e.newEnd ∧ e.newEnd ≤ new.byteSize
  /-- The region of the old text splits no character. -/
  old_boundaries : old.isBoundary e.start = true ∧ old.isBoundary e.oldEnd = true
  /-- The region of the new text splits no character. -/
  new_boundaries : new.isBoundary e.start = true ∧ new.isBoundary e.newEnd = true
  /-- The texts agree before and after the regions; what is inserted is the region of the new text
  and as long as the edit says; and the old text with this in the place of its region is the new
  text. -/
  replaces : ∃ front inserted back,
    old.slice? 0 e.start = some front ∧ new.slice? 0 e.start = some front ∧
    old.slice? e.oldEnd old.byteSize = some back ∧ new.slice? e.newEnd new.byteSize = some back ∧
    e.insertedText? new = some inserted ∧ new.slice? e.start e.newEnd = some inserted ∧
    inserted.byteSize = e.insertedLength ∧ front ++ inserted ++ back = new

variable {old new front removed inserted back : Text} {e : Edit}

/-- The old text up to the edited region. -/
theorem Parts.slice?_front (h : Parts old new e front removed inserted back) :
    old.slice? 0 e.start = some front := by
  rw [h.old_eq, h.start_eq, List.append_assoc]
  exact Text.slice?_front front (removed ++ back)

/-- The old text from the edited region on. -/
theorem Parts.slice?_back (h : Parts old new e front removed inserted back) :
    old.slice? e.oldEnd old.byteSize = some back := by
  rw [h.old_eq, h.oldEnd_eq, ← Text.byteSize_append]
  exact Text.slice?_back (front ++ removed) back

/-- The edited region lies in the old text. -/
theorem Parts.range (h : Parts old new e front removed inserted back) :
    e.start ≤ e.oldEnd ∧ e.oldEnd ≤ old.byteSize := by
  have hstart := h.start_eq
  have hstop := h.oldEnd_eq
  have hsize := congrArg Text.byteSize h.old_eq
  simp only [Text.byteSize_append] at hsize
  omega

/-- The edited region splits no character of the old text. -/
theorem Parts.boundaries (h : Parts old new e front removed inserted back) :
    old.isBoundary e.start = true ∧ old.isBoundary e.oldEnd = true := by
  constructor
  · apply Text.isBoundary_iff.mpr
    exact ⟨front, removed ++ back, by rw [h.old_eq, List.append_assoc], h.start_eq.symm⟩
  · apply Text.isBoundary_iff.mpr
    exact ⟨front ++ removed, back, h.old_eq, by rw [Text.byteSize_append, h.oldEnd_eq]⟩

/-- What is inserted is as long as the edit says. -/
theorem Parts.byteSize_inserted (h : Parts old new e front removed inserted back) :
    inserted.byteSize = e.insertedLength := by
  have hstart := h.start_eq
  have hstop := h.newEnd_eq
  unfold insertedLength
  omega

/-- An edit that comes with its parts is a script. -/
theorem Parts.isScript (h : Parts old new e front removed inserted back) : IsScript old new e where
  old_range := h.range
  new_range := h.inverse.range
  old_boundaries := h.boundaries
  new_boundaries := h.inverse.boundaries
  replaces := ⟨front, inserted, back, h.slice?_front, h.inverse.slice?_front, h.slice?_back,
    h.inverse.slice?_back, h.insertedText?_eq, h.slice?_eq, h.byteSize_inserted, h.new_eq.symm⟩

/-- **The edit between two texts is correct, whatever they are made of.** Only equal texts have
none; otherwise the edit is a script that turns the old text into the new one. -/
theorem between?_is_correct_script (old new : Text) :
    (between? old new = none ↔ old = new) ∧
      ∀ e, between? old new = some e → IsScript old new e := by
  refine ⟨between?_eq_none_iff, fun e h => ?_⟩
  obtain ⟨front, removed, inserted, back, hparts⟩ := exists_parts_of_between? h
  exact hparts.isScript

/-- Two characters whose encodings begin with the same byte are replaced as a whole, and a repeated
end is kept once. -/
theorem between?_is_correct_script_of_shared_byte :
    between? ['a', 'ñ', 'b', 'b'] ['a', 'é', 'b'] = some ⟨1, 4, 3⟩ ∧
      IsScript ['a', 'ñ', 'b', 'b'] ['a', 'é', 'b'] ⟨1, 4, 3⟩ := by
  have h : between? ['a', 'ñ', 'b', 'b'] ['a', 'é', 'b'] = some ⟨1, 4, 3⟩ := by decide
  exact ⟨h, (between?_is_correct_script _ _).2 _ h⟩

end Retint.Edit
