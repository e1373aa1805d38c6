import Retint.Text.Lines

/-!
# Where lines end

A character ends a line if it is a line break, except for a carriage return in front of a line feed:
there the line feed ends the line. Character by character this is how a text is cut into lines, and
the lines that come out are what a cut should be: each one but the last has one break, at its end,
and the last one has none.
-/

namespace Retint.Text

/-- Whether a character ends a line in front of some text. -/
def endsLine (c : Char) (rest : Text) : Bool :=
  isLineBreak c && !(c == '\r' && rest.head? == some '\n')

/-- The lines with a character put in front of the first one. -/
def prepend (c : Char) : List Text → List Text
  | [] => [[c]]
  | line :: later => (c :: line) :: later

/-- A text without a line break. -/
def IsUnbroken (t : Text) : Prop := ∀ c ∈ t, isLineBreak c = false

/-- One line break. -/
def IsBreak (t : Text) : Prop := t = ['\r', '\n'] ∨ ∃ c, isLineBreak c = true ∧ t = [c]

/-- Lines each of which but the last ends in one line break and has no other, and none of which
begins with the second half of a break. -/
inductive IsCut : List Text → Prop where
  | last {body : Text} (unbroken : IsUnbroken body) : IsCut [body]
  | more {body ending : Text} {later : List Text} (unbroken : IsUnbroken body)
      (ends : IsBreak ending) (whole : ending = ['\r'] → later.flatten.head? ≠ some '\n')
      (cut : IsCut later) : IsCut ((body ++ ending) :: later)

variable {c : Char} {rest t : Text} {pieces : List Text}

theorem endsLine_lineFeed (rest : Text) : endsLine '\n' rest = true := by
  simp [endsLine, isLineBreak]

/-- A character either ends a line, or is no break, or is the first half of one. -/
theorem endsLine_eq_false_iff :
    endsLine c rest = false ↔ isLineBreak c = false ∨ c = '\r' ∧ rest.head? = some '\n' := by
  cases hbreak : isLineBreak c with
  | false => simp [endsLine, hbreak]
  | true => simp [endsLine, hbreak]

/-- The lines of a text by its first character. -/
theorem lines_cons (c : Char) (rest : Text) :
    lines (c :: rest) = if endsLine c rest then [c] :: lines rest else prepend c (lines rest) := by
  by_cases hpair : c = '\r' ∧ rest.head? = some '\n'
  · obtain ⟨rfl, hhead⟩ := hpair
    cases rest with
    | nil => simp at hhead
    | cons d rest =>
      obtain rfl : d = '\n' := by simpa using hhead
      simp [lines, endsLine, isLineBreak, prepend]
  · have hlines : lines (c :: rest) =
        if isLineBreak c then [c] :: lines rest else prepend c (lines rest) := by
      rw [lines.eq_3]
      · rfl
      · rintro rest' rfl rfl
        exact hpair ⟨rfl, rfl⟩
    have hends : endsLine c rest = isLineBreak c := by
      cases hbreak : isLineBreak c with
      | false => simp [endsLine, hbreak]
      | true =>
        have hwhole : (c == '\r' && rest.head? == some '\n') = false := by simpa using hpair
        simp only [endsLine, hbreak, hwhole]
        rfl
    rw [hlines, hends]

/-! ### The lines are a cut -/

theorem IsUnbroken.cons (hc : isLineBreak c = false) (ht : IsUnbroken t) : IsUnbroken (c :: t) := by
  intro d hd
  rcases List.mem_cons.mp hd with rfl | hd
  · exact hc
  · exact ht d hd

/-- A text without a line break does not begin with a line feed. -/
theorem IsUnbroken.head?_ne (ht : IsUnbroken t) : t.head? ≠ some '\n' := by
  intro hhead
  have hbreak := ht '\n' (List.mem_of_mem_head? hhead)
  simp [isLineBreak] at hbreak

/-- A break that begins with a line feed is the line feed. -/
theorem IsBreak.eq_lineFeed (h : IsBreak t) (hhead : t.head? = some '\n') : t = ['\n'] := by
  rcases h with rfl | ⟨c, _, rfl⟩
  · simp at hhead
  · obtain rfl : c = '\n' := by simpa using hhead
    rfl

/-- The first half of a break joins the line feed behind it. -/
theorem IsCut.prepend_return (h : IsCut pieces) (hhead : pieces.flatten.head? = some '\n') :
    IsCut (prepend '\r' pieces) := by
  cases h with
  | last unbroken => exact absurd (by simpa using hhead) unbroken.head?_ne
  | @more body ending later unbroken ends whole cut =>
    cases body with
    | nil =>
      have hending : ending ≠ [] := by
        rcases ends with rfl | ⟨_, _, rfl⟩ <;> simp
      have hfirst : ending.head? = some '\n' := by
        rw [← hhead]
        cases ending with
        | nil => contradiction
        | cons d _ => simp
      obtain rfl := ends.eq_lineFeed hfirst
      exact @IsCut.more [] ['\r', '\n'] later (by simp [IsUnbroken]) (.inl rfl) (by simp) cut
    | cons d body =>
      refine absurd ?_ unbroken.head?_ne
      simpa using hhead

/-- A character that is no break joins the line behind it. -/
theorem IsCut.prepend (h : IsCut pieces) (hc : isLineBreak c = false) :
    IsCut (prepend c pieces) := by
  cases h with
  | last unbroken => exact .last (unbroken.cons hc)
  | more unbroken ends whole cut => exact .more (unbroken.cons hc) ends whole cut

/-- The lines of a text: each but the last ends in one break, and there is no other break. -/
theorem lines_isCut (t : Text) : IsCut (lines t) := by
  induction t with
  | nil => exact .last (by simp [IsUnbroken])
  | cons c rest ih =>
    rw [lines_cons]
    cases hends : endsLine c rest with
    | true =>
      obtain ⟨hbreak, hwhole⟩ : isLineBreak c = true ∧
          (c == '\r' && rest.head? == some '\n') = false := by
        simpa only [endsLine, Bool.and_eq_true, Bool.not_eq_true'] using hends
      refine @IsCut.more [] [c] (lines rest) (by simp [IsUnbroken]) (.inr ⟨c, hbreak, rfl⟩) ?_ ih
      rintro hreturn
      rw [lines_flatten]
      simpa [List.cons.inj hreturn] using hwhole
    | false =>
      rcases endsLine_eq_false_iff.mp hends with hc | ⟨rfl, hhead⟩
      · exact ih.prepend hc
      · exact ih.prepend_return (by rwa [lines_flatten])

/-! ### Where the lines start -/

/-- The pieces start one after the other; behind the last one, where the text ends. -/
theorem getD_startsFrom (start : Nat) (pieces : List Text) (i : Nat) :
    (startsFrom start pieces).getD i (start + byteSize pieces.flatten) =
      start + byteSize (pieces.take i).flatten := by
  induction pieces generalizing start i with
  | nil => simp [startsFrom]
  | cons piece later ih =>
    cases i with
    | zero => simp [startsFrom]
    | succ i =>
      simp only [startsFrom, List.getD_cons_succ, List.take_succ_cons, List.flatten_cons,
        byteSize_append, ← Nat.add_assoc]
      exact ih (start + byteSize piece) i

theorem length_startsFrom (start : Nat) (pieces : List Text) :
    (startsFrom start pieces).length = pieces.length := by
  induction pieces generalizing start with
  | nil => rfl
  | cons piece later ih => simp [startsFrom, ih]

/-- Pieces that are moved on start as much later. -/
theorem startsFrom_add (start distance : Nat) (pieces : List Text) :
    startsFrom (distance + start) pieces = (startsFrom start pieces).map (distance + ·) := by
  induction pieces generalizing start with
  | nil => rfl
  | cons piece later ih => simp [startsFrom, Nat.add_assoc, ih]

theorem le_of_mem_startsFrom {start offset : Nat} (h : offset ∈ startsFrom start pieces) :
    start ≤ offset := by
  induction pieces generalizing start with
  | nil => simp [startsFrom] at h
  | cons piece later ih =>
    rcases List.mem_cons.mp h with rfl | hlater
    · exact Nat.le_refl _
    · exact Nat.le_trans (Nat.le_add_right _ _) (ih hlater)

theorem IsBreak.byteSize_pos (h : IsBreak t) : 0 < byteSize t := by
  rcases h with rfl | ⟨c, _, rfl⟩
  · decide
  · have := c.utf8Size_pos
    simpa

/-- No two lines start at the same place. -/
theorem IsCut.pairwise_startsFrom (h : IsCut pieces) (start : Nat) :
    (startsFrom start pieces).Pairwise (· < ·) := by
  induction h generalizing start with
  | last unbroken => exact List.pairwise_singleton _ _
  | @more body ending later unbroken ends whole cut ih =>
    refine List.pairwise_cons.mpr ⟨fun offset hoffset => ?_, ih _⟩
    have hle := le_of_mem_startsFrom hoffset
    have hpos := ends.byteSize_pos
    rw [byteSize_append] at hle
    omega

end Retint.Text
