import Retint.Proofs.Edit.Script

/-!
# The edit between two texts is the smallest one

Many edits lead from one text to another: each keeps a front and a back that the texts share and
replaces what stands in between. The computed edit keeps the longest common front, and then as much
of a common back as does not overlap it. Keeping a shorter front in favour of a longer back never
pays: a back that does not fit beside the longest front contains all that the front leaves of one of
the texts, and then the computed edit already keeps the whole of that text.
-/

namespace Retint

namespace Text

variable {s t o n back : Text}

/-- What two texts begin with is the beginning of what they have in common. -/
theorem commonStart_append (front s t : Text) :
    commonStart (front ++ s) (front ++ t) = front ++ commonStart s t := by
  induction front with
  | nil => rfl
  | cons c front ih => simp [commonStart, ih]

/-- Nothing that two texts begin with is longer than their common beginning. -/
theorem byteSize_le_commonStart {front : Text} (hs : front <+: s) (ht : front <+: t) :
    front.byteSize ≤ (commonStart s t).byteSize := by
  obtain ⟨s, rfl⟩ := hs
  obtain ⟨t, rfl⟩ := ht
  rw [commonStart_append, byteSize_append]
  exact Nat.le_add_right _ _

/-- Of two beginnings of a text the shorter one is a beginning of the longer one. -/
theorem isPrefix_of_byteSize_le (hs : s <+: t) (ho : o <+: t) (hle : s.byteSize ≤ o.byteSize) :
    s <+: o := by
  obtain ⟨rest, hrest⟩ := hs
  obtain ⟨other, hother⟩ := ho
  obtain ⟨middle, hmiddle, _⟩ := append_of_byteSize_le (hrest.trans hother.symm) hle
  exact ⟨middle, hmiddle.symm⟩

/-- Two texts with a common beginning: what their own beginnings have in common is that common
beginning, or one of them as a whole, or longer than these. -/
theorem min_byteSize_le_commonStart (ho : o <+: s) (hn : n <+: t) (hs : back <+: s)
    (ht : back <+: t) :
    min back.byteSize (min o.byteSize n.byteSize) ≤ (commonStart o n).byteSize := by
  -- The shortest of the three is a beginning of both `o` and `n`.
  by_cases hback : back.byteSize ≤ min o.byteSize n.byteSize
  · have hshared := byteSize_le_commonStart (isPrefix_of_byteSize_le hs ho (by omega))
      (isPrefix_of_byteSize_le ht hn (by omega))
    omega
  · by_cases hle : o.byteSize ≤ n.byteSize
    · have hot := (isPrefix_of_byteSize_le ho hs (by omega)).trans ht
      have hshared := byteSize_le_commonStart (List.prefix_refl o)
        (isPrefix_of_byteSize_le hot hn hle)
      omega
    · have hns := (isPrefix_of_byteSize_le hn ht (by omega)).trans hs
      have hshared := byteSize_le_commonStart (isPrefix_of_byteSize_le hns ho (by omega))
        (List.prefix_refl n)
      omega

end Text

namespace Edit

/-- An edit whose regions split no character and outside of which two texts agree. -/
structure IsBetween (old new : Text) (e : Edit) : Prop where
  /-- The region of the old text lies in that text. -/
  old_range : e.start ≤ e.oldEnd ∧ e.oldEnd ≤ old.byteSize
  /-- The region of the new text lies in that text. -/
  new_range : e.start ≤ e.newEnd ∧ e.newEnd ≤ new.byteSize
  /-- The region of the old text splits no character. -/
  old_boundaries : old.isBoundary e.start = true ∧ old.isBoundary e.oldEnd = true
  /-- The region of the new text splits no character. -/
  new_boundaries : new.isBoundary e.start = true ∧ new.isBoundary e.newEnd = true
  /-- The texts agree before the regions. -/
  same_front : old.slice? 0 e.start = new.slice? 0 e.start
  /-- The texts agree after the regions. -/
  same_back : old.slice? e.oldEnd old.byteSize = new.slice? e.newEnd new.byteSize

variable {old new front removed inserted back : Text} {e : Edit}

/-- An edit that comes with its parts leads from one text to the other. -/
theorem Parts.isBetween (h : Parts old new e front removed inserted back) :
    IsBetween old new e where
  old_range := h.range
  new_range := h.inverse.range
  old_boundaries := h.boundaries
  new_boundaries := h.inverse.boundaries
  same_front := h.slice?_front.trans h.inverse.slice?_front.symm
  same_back := h.slice?_back.trans h.inverse.slice?_back.symm

/-- An edit that leads from one text to another comes with its parts. -/
theorem IsBetween.exists_parts (h : IsBetween old new e) :
    ∃ front removed inserted back, Parts old new e front removed inserted back := by
  obtain ⟨front, removed, back, hold, hstart, holdEnd⟩ :=
    Text.exists_middle_of_isBoundary h.old_boundaries.1 h.old_boundaries.2 h.old_range.1
  obtain ⟨front', inserted, back', hnew, hstart', hnewEnd⟩ :=
    Text.exists_middle_of_isBoundary h.new_boundaries.1 h.new_boundaries.2 h.new_range.1
  -- Each text has parts of its own; those outside the regions are the same.
  have hkeep : Parts old old ⟨e.start, e.oldEnd, e.oldEnd⟩ front removed removed back :=
    ⟨hold, hold, hstart.symm, holdEnd.symm, holdEnd.symm⟩
  have hkeep' : Parts new new ⟨e.start, e.newEnd, e.newEnd⟩ front' inserted inserted back' :=
    ⟨hnew, hnew, hstart'.symm, hnewEnd.symm, hnewEnd.symm⟩
  have hfront : front = front' := by
    have hsame := h.same_front
    rw [hkeep.slice?_front, hkeep'.slice?_front] at hsame
    exact Option.some.inj hsame
  have hback : back = back' := by
    have hsame := h.same_back
    rw [hkeep.slice?_back, hkeep'.slice?_back] at hsame
    exact Option.some.inj hsame
  subst hfront hback
  exact ⟨front, removed, inserted, back, hold, hnew, hstart.symm, holdEnd.symm, hnewEnd.symm⟩

/-- A back that two texts share is no longer than the common end of what follows a front that they
share, unless that common end is one of the two rests as a whole. -/
theorem Parts.min_byteSize_le (h : Parts old new e front removed inserted back)
    {longest oldRest newRest : Text} (hold : longest ++ oldRest = old)
    (hnew : longest ++ newRest = new) :
    min back.byteSize (min oldRest.byteSize newRest.byteSize) ≤
      (Text.commonStart oldRest.reverse newRest.reverse).byteSize := by
  have holdRest : oldRest.reverse <+: old.reverse :=
    ⟨longest.reverse, by rw [← List.reverse_append, hold]⟩
  have hnewRest : newRest.reverse <+: new.reverse :=
    ⟨longest.reverse, by rw [← List.reverse_append, hnew]⟩
  have holdBack : back.reverse <+: old.reverse :=
    ⟨(front ++ removed).reverse, by rw [← List.reverse_append, h.old_eq]⟩
  have hnewBack : back.reverse <+: new.reverse :=
    ⟨(front ++ inserted).reverse, by rw [← List.reverse_append, h.new_eq]⟩
  have hshared := Text.min_byteSize_le_commonStart holdRest hnewRest holdBack hnewBack
  rwa [Text.byteSize_reverse, Text.byteSize_reverse, Text.byteSize_reverse] at hshared

/-- The computed edit starts no earlier than any other one, and its regions are no longer. -/
theorem Parts.le_of_between? (h : Parts old new e front removed inserted back) {least : Edit}
    (hleast : between? old new = some least) :
    front.byteSize ≤ least.start ∧ least.oldEnd - least.start ≤ removed.byteSize ∧
      least.newEnd - least.start ≤ inserted.byteSize := by
  unfold between? at hleast
  dsimp only at hleast
  split at hleast
  · contradiction
  · rw [Option.some.injEq] at hleast
    subst hleast
    have hfront : front.byteSize ≤ (Text.commonStart old new).byteSize := by
      apply Text.byteSize_le_commonStart
      · exact ⟨removed ++ back, by rw [h.old_eq, List.append_assoc]⟩
      · exact ⟨inserted ++ back, by rw [h.new_eq, List.append_assoc]⟩
    have hold := Text.commonStart_append_drop_left old new
    have hnew := Text.commonStart_append_drop_right old new
    have hback := h.min_byteSize_le hold hnew
    have holdSize := congrArg Text.byteSize hold
    have hnewSize := congrArg Text.byteSize hnew
    have holdParts := congrArg Text.byteSize h.old_eq
    have hnewParts := congrArg Text.byteSize h.new_eq
    simp only [Text.byteSize_append] at holdSize hnewSize holdParts hnewParts
    -- Either both texts keep the longer front and the back, or one of them is kept as a whole.
    dsimp only
    omega

/-- **The edit between two texts is the smallest one.** Different texts always have an edit between
them, and every edit that splits no character and outside of which the texts agree removes at least
as many bytes, inserts at least as many, and starts no later. -/
theorem between?_is_smallest (hne : old ≠ new) :
    ∃ e, between? old new = some e ∧ IsBetween old new e ∧
      ∀ other, IsBetween old new other →
        e.removedLength ≤ other.oldEnd - other.start ∧
        e.insertedLength ≤ other.newEnd - other.start ∧ other.start ≤ e.start := by
  cases hedit : between? old new with
  | none => exact absurd (between?_eq_none_iff.mp hedit) hne
  | some e =>
    obtain ⟨_, _, _, _, hparts⟩ := exists_parts_of_between? hedit
    refine ⟨e, rfl, hparts.isBetween, fun other hother => ?_⟩
    obtain ⟨front, removed, inserted, back, hother⟩ := hother.exists_parts
    obtain ⟨hfront, hremoved, hinserted⟩ := hother.le_of_between? hedit
    have hstart := hother.start_eq
    have holdEnd := hother.oldEnd_eq
    have hnewEnd := hother.newEnd_eq
    unfold removedLength insertedLength
    omega

/-- A text that is repeated is removed after its first occurrence. Removing the first occurrence and
keeping the second is no smaller, and starts earlier. -/
theorem between?_is_smallest_of_repetition :
    let old := ['é', 'a', 'é', 'a']
    let new := ['é', 'a']
    old ≠ new ∧ IsBetween old new ⟨0, 3, 0⟩ ∧
      ∃ e, between? old new = some e ∧ e = ⟨3, 6, 3⟩ ∧
        e.removedLength ≤ 3 - 0 ∧ e.insertedLength ≤ 0 - 0 ∧ 0 ≤ e.start := by
  intro old new
  have hne : old ≠ new := by decide
  have hother : IsBetween old new ⟨0, 3, 0⟩ :=
    ⟨by decide, by decide, by decide, by decide, by decide, by decide⟩
  obtain ⟨e, hedit, _, hleast⟩ := between?_is_smallest hne
  have hcomputed : between? old new = some ⟨3, 6, 3⟩ := by decide
  have he : e = ⟨3, 6, 3⟩ := Option.some.inj (hedit.symm.trans hcomputed)
  exact ⟨hne, hother, e, hedit, he, hleast _ hother⟩

end Edit

end Retint
