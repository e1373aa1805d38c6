import Retint.Proofs.Edit.Between

/-!
# Cuts of a text

A boundary is an offset at which a text can be written as two parts, and a slice is the middle of a
text written as three. Both are said here without the functions that find them, so that statements
about offsets turn into statements about parts, and back.
-/

namespace Retint.Text

/-- An offset is a boundary if it is the size of a front of the text. -/
theorem isBoundary_iff {t : Text} {offset : Nat} :
    t.isBoundary offset = true ↔ ∃ front back, t = front ++ back ∧ front.byteSize = offset := by
  unfold isBoundary
  rw [Option.isSome_iff_exists]
  constructor
  · rintro ⟨⟨front, back⟩, hcut⟩
    exact ⟨front, back, eq_append_of_splitAt? hcut⟩
  · rintro ⟨front, back, hparts⟩
    exact ⟨(front, back), splitAt?_eq_some_iff.mpr hparts⟩

/-- No boundary lies beyond the end of the text. -/
theorem le_byteSize_of_isBoundary {t : Text} {offset : Nat} (h : t.isBoundary offset = true) :
    offset ≤ t.byteSize := by
  obtain ⟨front, back, rfl, hfront⟩ := isBoundary_iff.mp h
  rw [byteSize_append]
  omega

/-- A slice is what stands between a front and a back with sizes that fit its offsets. -/
theorem slice?_eq_some_iff {t part : Text} {start stop : Nat} :
    t.slice? start stop = some part ↔
      ∃ front back, t = front ++ part ++ back ∧ front.byteSize = start ∧
        front.byteSize + part.byteSize = stop := by
  constructor
  · intro h
    obtain ⟨⟨outer, back⟩, houter, h⟩ := Option.bind_eq_some_iff.mp h
    obtain ⟨⟨front, middle⟩, hinner, h⟩ := Option.bind_eq_some_iff.mp h
    have hmiddle : middle = part := Option.some.inj h
    subst hmiddle
    obtain ⟨ht, hstop⟩ := eq_append_of_splitAt? houter
    obtain ⟨hsplit, hstart⟩ := eq_append_of_splitAt? hinner
    refine ⟨front, back, by rw [ht, hsplit], hstart, ?_⟩
    rw [← byteSize_append, ← hsplit]
    exact hstop
  · rintro ⟨front, back, rfl, rfl, rfl⟩
    exact slice?_append front part back

/-- The slice up to the end of the first part of a concatenation is that part. -/
theorem slice?_front (s t : Text) : (s ++ t).slice? 0 s.byteSize = some s :=
  slice?_eq_some_iff.mpr ⟨[], t, rfl, rfl, Nat.zero_add _⟩

/-- The slice from the end of the first part of a concatenation on is the second part. -/
theorem slice?_back (s t : Text) : (s ++ t).slice? s.byteSize (s ++ t).byteSize = some t :=
  slice?_eq_some_iff.mpr ⟨s, [], (List.append_nil _).symm, rfl, (byteSize_append s t).symm⟩

/-- The shorter one of two fronts of a text is a front of the longer one. -/
theorem append_of_byteSize_le {s t s' t' : Text} (h : s ++ t = s' ++ t')
    (hle : s.byteSize ≤ s'.byteSize) : ∃ middle, s' = s ++ middle ∧ t = middle ++ t' := by
  rcases List.append_eq_append_iff.mp h with ⟨middle, hs', ht⟩ | ⟨middle, hs, ht'⟩
  · exact ⟨middle, hs', ht⟩
  · -- The other front would be longer by `middle`, which therefore is empty.
    have hsize := congrArg byteSize hs
    rw [byteSize_append] at hsize
    have hnil : middle = [] := by
      cases middle with
      | nil => rfl
      | cons c rest =>
        have hpos := c.utf8Size_pos
        rw [byteSize_cons] at hsize
        omega
    subst hnil
    rw [List.append_nil] at hs
    exact ⟨[], by rw [hs, List.append_nil], by simpa using ht'.symm⟩

/-- Behind a front the slices of a text are what they were. -/
theorem slice?_append_right (front t : Text) (start stop : Nat) :
    (front ++ t).slice? (front.byteSize + start) (front.byteSize + stop) = t.slice? start stop := by
  apply Option.ext
  intro part
  rw [slice?_eq_some_iff, slice?_eq_some_iff]
  constructor
  · rintro ⟨outer, back, htext, hstart, hstop⟩
    rw [List.append_assoc] at htext
    obtain ⟨inner, rfl, ht⟩ := append_of_byteSize_le htext (by omega)
    rw [byteSize_append] at hstart hstop
    exact ⟨inner, back, by rw [ht, List.append_assoc], by omega, by omega⟩
  · rintro ⟨inner, back, rfl, hstart, hstop⟩
    refine ⟨front ++ inner, back, by simp, ?_, ?_⟩
    · rw [byteSize_append, hstart]
    · rw [byteSize_append]
      omega

/-- Two boundaries in order cut a text into a front, a middle and a back. -/
theorem exists_middle_of_isBoundary {t : Text} {start stop : Nat}
    (hstart : t.isBoundary start = true) (hstop : t.isBoundary stop = true) (hle : start ≤ stop) :
    ∃ front middle back, t = front ++ middle ++ back ∧ front.byteSize = start ∧
      front.byteSize + middle.byteSize = stop := by
  obtain ⟨front, rest, hfront, rfl⟩ := isBoundary_iff.mp hstart
  obtain ⟨outer, back, houter, rfl⟩ := isBoundary_iff.mp hstop
  obtain ⟨middle, hsplit, _⟩ := append_of_byteSize_le (hfront.symm.trans houter) hle
  exact ⟨front, middle, back, by rw [houter, hsplit], rfl, by rw [hsplit, byteSize_append]⟩

end Retint.Text
