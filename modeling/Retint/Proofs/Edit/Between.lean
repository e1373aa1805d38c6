import Retint.Edit

/-!
# The parts of an edit

The edit from one text to another keeps a front and a back that both texts share. Everything that
is said about its offsets follows from this decomposition: the offsets are the byte sizes of the
parts, so they are boundaries, the inserted text is the middle of the new text, and putting it in
the place of the middle of the old text gives the new text.
-/

namespace Retint

/-- The common beginning of two texts, with what follows it in the first. -/
theorem Text.commonStart_append_drop_left (s t : Text) :
    commonStart s t ++ s.drop (commonStart s t).length = s := by
  induction s generalizing t with
  | nil => simp [commonStart]
  | cons a s ih =>
    cases t with
    | nil => simp [commonStart]
    | cons b t =>
      by_cases hab : a = b
      · simpa [commonStart, hab] using ih t
      · simp [commonStart, hab]

theorem Text.commonStart_comm (s t : Text) : commonStart s t = commonStart t s := by
  induction s generalizing t with
  | nil => cases t <;> rfl
  | cons a s ih =>
    cases t with
    | nil => rfl
    | cons b t =>
      by_cases hab : a = b
      · simp [commonStart, hab, ih t]
      · simp [commonStart, hab, Ne.symm hab]

/-- The common beginning of two texts, with what follows it in the second. -/
theorem Text.commonStart_append_drop_right (s t : Text) :
    commonStart s t ++ t.drop (commonStart s t).length = t := by
  rw [commonStart_comm]
  exact commonStart_append_drop_left t s

/-- Two texts of the same length that share all of it are the same. -/
theorem Text.commonStart_is_whole_iff (s t : Text) :
    s.length = t.length ∧ (commonStart s t).length = s.length ↔ s = t := by
  constructor
  · rintro ⟨hlength, hcommon⟩
    have hleft := commonStart_append_drop_left s t
    have hright := commonStart_append_drop_right s t
    rw [hcommon, List.drop_length, List.append_nil] at hleft
    rw [hcommon, hlength, List.drop_length, List.append_nil] at hright
    exact hleft.symm.trans hright
  · rintro rfl
    have hself : commonStart s s = s := by
      induction s with
      | nil => rfl
      | cons a s ih => simp [commonStart, ih]
    exact ⟨rfl, congrArg List.length hself⟩

/-- Counting characters up to the end of the first part of a concatenation counts that part. -/
theorem Text.charIndex?_append (s t : Text) :
    charIndex? (s ++ t) (byteSize s) = some s.length := by
  induction s with
  | nil => cases t <;> rfl
  | cons c s ih =>
    obtain ⟨n, hn⟩ : ∃ n, c.utf8Size + byteSize s = n + 1 :=
      ⟨c.utf8Size + byteSize s - 1, by have := c.utf8Size_pos; omega⟩
    have hle : c.utf8Size ≤ n + 1 := by omega
    have hrest : n + 1 - c.utf8Size = byteSize s := by omega
    simp only [byteSize_cons, List.cons_append, hn, charIndex?, hle, if_true, hrest, ih]
    rfl

/-- The middle part of a concatenation is its slice between the ends of the parts around it. -/
theorem Text.slice?_append (front middle back : Text) :
    (front ++ middle ++ back).slice? front.byteSize (front.byteSize + middle.byteSize) =
      some middle := by
  have houter := splitAt?_append (front ++ middle) back
  rw [byteSize_append] at houter
  unfold slice?
  rw [houter]
  show ((front ++ middle).splitAt? front.byteSize).bind (fun cut => some cut.2) = some middle
  rw [splitAt?_append]
  rfl

namespace Edit

/-- The texts around an edit: what both texts have before and after it, and the region of each
in between. -/
structure Parts (old new : Text) (e : Edit) (front removed inserted back : Text) : Prop where
  old_eq : old = front ++ removed ++ back
  new_eq : new = front ++ inserted ++ back
  start_eq : e.start = front.byteSize
  oldEnd_eq : e.oldEnd = front.byteSize + removed.byteSize
  newEnd_eq : e.newEnd = front.byteSize + inserted.byteSize

/-- Only equal texts have no edit between them. -/
theorem between?_eq_none_iff {old new : Text} : between? old new = none ↔ old = new := by
  rw [← Text.commonStart_is_whole_iff]
  unfold between?
  dsimp only
  split
  · rename_i hwhole
    exact iff_of_true rfl hwhole
  · rename_i hpart
    exact iff_of_false nofun hpart

variable {old new front removed inserted back : Text} {e : Edit}

/-- The edit between two texts comes with its parts. -/
theorem exists_parts_of_between? (h : between? old new = some e) :
    ∃ front removed inserted back, Parts old new e front removed inserted back := by
  unfold between? at h
  dsimp only at h
  split at h
  · simp at h
  · rw [Option.some.injEq] at h
    let front := Text.commonStart old new
    let oldRest := old.drop front.length
    let newRest := new.drop front.length
    let back := Text.commonStart oldRest.reverse newRest.reverse
    let removed := (oldRest.reverse.drop back.length).reverse
    let inserted := (newRest.reverse.drop back.length).reverse
    have holdRest : oldRest = removed ++ back.reverse := by
      rw [← List.reverse_append, Text.commonStart_append_drop_left, List.reverse_reverse]
    have hnewRest : newRest = inserted ++ back.reverse := by
      rw [← List.reverse_append, Text.commonStart_append_drop_right, List.reverse_reverse]
    have hold : old = front ++ removed ++ back.reverse := by
      rw [List.append_assoc, ← holdRest, Text.commonStart_append_drop_left]
    have hnew : new = front ++ inserted ++ back.reverse := by
      rw [List.append_assoc, ← hnewRest, Text.commonStart_append_drop_right]
    have holdSize := congrArg Text.byteSize hold
    have hnewSize := congrArg Text.byteSize hnew
    simp only [Text.byteSize_append, Text.byteSize_reverse] at holdSize hnewSize
    have holdEnd : e.oldEnd = old.byteSize - back.byteSize := by rw [← h]
    have hnewEnd : e.newEnd = new.byteSize - back.byteSize := by rw [← h]
    exact ⟨front, removed, inserted, back.reverse, hold, hnew, by rw [← h], by omega, by omega⟩

/-- The edit that leads back. -/
def inverse (e : Edit) : Edit := ⟨e.start, e.newEnd, e.oldEnd⟩

theorem Parts.inverse (h : Parts old new e front removed inserted back) :
    Parts new old e.inverse front inserted removed back :=
  ⟨h.new_eq, h.old_eq, h.start_eq, h.newEnd_eq, h.oldEnd_eq⟩

/-- The number of characters before the edited region. -/
theorem Parts.charIndex?_start (h : Parts old new e front removed inserted back) :
    old.charIndex? e.start = some front.length := by
  rw [h.old_eq, h.start_eq, List.append_assoc]
  exact Text.charIndex?_append _ _

/-- The number of characters up to the end of the edited region. -/
theorem Parts.charIndex?_oldEnd (h : Parts old new e front removed inserted back) :
    old.charIndex? e.oldEnd = some (front.length + removed.length) := by
  rw [h.old_eq, h.oldEnd_eq, ← Text.byteSize_append, ← List.length_append]
  exact Text.charIndex?_append _ _

/-- The inserted text is the middle of the new text. -/
theorem Parts.insertedText?_eq (h : Parts old new e front removed inserted back) :
    e.insertedText? new = some inserted := by
  have hfirst : new.charIndex? e.start = some front.length := h.inverse.charIndex?_start
  have hlast : new.charIndex? e.newEnd = some (front.length + inserted.length) :=
    h.inverse.charIndex?_oldEnd
  unfold insertedText?
  rw [hfirst, hlast]
  simp [h.new_eq, List.take_append]

/-- The middle of the new text is its slice between the offsets of the edit. -/
theorem Parts.slice?_eq (h : Parts old new e front removed inserted back) :
    new.slice? e.start e.newEnd = some inserted := by
  rw [h.new_eq, h.start_eq, h.newEnd_eq]
  exact Text.slice?_append front inserted back

/-- The middle of the new text in the place of the middle of the old text gives the new text. -/
theorem Parts.splice?_eq (h : Parts old new e front removed inserted back) :
    e.splice? inserted old = some new := by
  have hfront : old.splitAt? e.start = some (front, removed ++ back) := by
    rw [h.old_eq, h.start_eq, List.append_assoc]
    exact Text.splitAt?_append _ _
  have hback : old.splitAt? e.oldEnd = some (front ++ removed, back) := by
    rw [h.old_eq, h.oldEnd_eq, ← Text.byteSize_append]
    exact Text.splitAt?_append _ _
  unfold splice?
  rw [hfront, hback, h.new_eq]
  rfl

/-- What the edit between two texts inserts is the slice of the new text between its offsets, and
splicing it into the old text gives the new one. -/
theorem exists_inserted_of_between? (h : between? old new = some e) :
    ∃ inserted, e.insertedText? new = some inserted ∧
      new.slice? e.start e.newEnd = some inserted ∧ e.splice? inserted old = some new := by
  obtain ⟨front, removed, inserted, back, hparts⟩ := exists_parts_of_between? h
  exact ⟨inserted, hparts.insertedText?_eq, hparts.slice?_eq, hparts.splice?_eq⟩

end Edit

end Retint
