import Retint.Proofs.Text.Breaks

/-!
# Rows that only line feeds end

A position counts the lines before it, and a line can end in many ways. Where rows are counted by
line feeds alone, the same offset may have another position. The two agree exactly if every line
that ends before the offset ends in a line feed, on its own or behind a carriage return.
-/

namespace Retint.Text

/-- The position behind a text whose rows are ended by line feeds alone: their number, and the
number of bytes behind the last one. -/
def feedPosition (front : Text) : Position where
  row := front.count '\n'
  column := byteSize (front.reverse.takeWhile (· != '\n'))

variable {c : Char} {front back t : Text}

/-! ### Positions by the first character -/

/-- A position in a text with one more character in front. -/
def Position.shift (p : Position) (ends : Bool) (size : Nat) : Position :=
  if ends then ⟨p.row + 1, p.column⟩
  else if p.row = 0 then ⟨0, size + p.column⟩
  else p

/-- A text begins in the first column of the first row. -/
theorem position_zero (t : Text) : position t 0 = ⟨0, 0⟩ := by
  have hcut := (lines_isCut t).pairwise_startsFrom 0
  obtain ⟨line, later, hlines⟩ := List.exists_cons_of_ne_nil (lines_ne_nil t)
  rw [hlines, startsFrom, List.pairwise_cons] at hcut
  have hlater : (startsFrom (0 + byteSize line) later).takeWhile (· ≤ 0) = [] := by
    cases hstarts : startsFrom (0 + byteSize line) later with
    | nil => rfl
    | cons start _ =>
      have hpos : 0 < start := hcut.1 start (hstarts ▸ List.mem_cons_self)
      exact List.takeWhile_cons_of_neg (by simpa using Nat.ne_of_gt hpos)
  have hbefore : (lineStarts t).takeWhile (· ≤ 0) = [0] := by
    rw [lineStarts, hlines, startsFrom, List.takeWhile_cons_of_pos rfl, hlater]
  simp only [position, hbefore]
  rfl

/-- The position of an offset behind the first character. -/
theorem position_cons (c : Char) (t : Text) (offset : Nat) :
    position (c :: t) (c.utf8Size + offset) =
      (position t offset).shift (endsLine c t) c.utf8Size := by
  obtain ⟨line, later, hlines⟩ := List.exists_cons_of_ne_nil (lines_ne_nil t)
  -- The lines that start at or before the offset: the first one, and those of `within`.
  obtain ⟨within, hwithin⟩ :
      ∃ within, within = (startsFrom (0 + byteSize line) later).takeWhile (· ≤ offset) := ⟨_, rfl⟩
  have hbefore : (lineStarts t).takeWhile (· ≤ offset) = 0 :: within := by
    simp [lineStarts, hlines, startsFrom, hwithin]
  have hmoved : ((startsFrom (0 + byteSize line) later).map (c.utf8Size + ·)).takeWhile
      (· ≤ c.utf8Size + offset) = within.map (c.utf8Size + ·) := by
    rw [List.takeWhile_map, hwithin]
    congr 2
    funext start
    simp
  cases hends : endsLine c t with
  | true =>
    have hafter : (lineStarts (c :: t)).takeWhile (· ≤ c.utf8Size + offset) =
        0 :: c.utf8Size :: within.map (c.utf8Size + ·) := by
      simp [lineStarts, lines_cons, hends, hlines, startsFrom, ← hmoved, startsFrom_add]
    simp only [position, hafter, hbefore, Position.shift, if_true]
    rcases List.eq_nil_or_concat within with rfl | ⟨earlier, last, rfl⟩
    · simp
    · simp only [List.concat_eq_append, List.map_append, List.map_singleton, ← List.cons_append,
        List.getLastD_concat]
      simp [Nat.add_sub_add_left]
  | false =>
    have hafter : (lineStarts (c :: t)).takeWhile (· ≤ c.utf8Size + offset) =
        0 :: within.map (c.utf8Size + ·) := by
      simp [lineStarts, lines_cons, hends, hlines, prepend, startsFrom, ← hmoved, startsFrom_add]
    simp only [position, hafter, hbefore, Position.shift]
    rcases List.eq_nil_or_concat within with rfl | ⟨earlier, last, rfl⟩
    · simp
    · simp only [List.concat_eq_append, List.map_append, List.map_singleton, ← List.cons_append,
        List.getLastD_concat]
      simp [Nat.add_sub_add_left]

/-- The position behind a text in front of which stands one more character. -/
theorem feedPosition_cons (c : Char) (front : Text) :
    feedPosition (c :: front) = (feedPosition front).shift (c == '\n') c.utf8Size := by
  by_cases hfeeds : '\n' ∈ front
  · -- The row does not reach back to the first character.
    obtain ⟨before, after, hsplit⟩ := List.append_of_mem (List.mem_reverse.mpr hfeeds)
    have hrow : 0 < front.count '\n' := List.count_pos_iff.mpr hfeeds
    have hcolumn : (front.reverse ++ [c]).takeWhile (· != '\n') =
        front.reverse.takeWhile (· != '\n') := by
      rw [hsplit]
      simp [List.takeWhile_append]
    by_cases hc : c = '\n'
    · subst hc
      simp [feedPosition, Position.shift, hcolumn]
    · have hne : front.count '\n' ≠ 0 := by omega
      simp [feedPosition, Position.shift, hcolumn, hc, hne]
  · have hall : ∀ d ∈ front.reverse, (d != '\n') = true := by
      intro d hd
      rw [bne_iff_ne]
      rintro rfl
      exact hfeeds (List.mem_reverse.mp hd)
    have hrow : front.count '\n' = 0 := List.count_eq_zero.mpr hfeeds
    have hcolumn (later : Text) : (front.reverse ++ later).takeWhile (· != '\n') =
        front.reverse ++ later.takeWhile (· != '\n') := List.takeWhile_append_of_pos hall
    have hwhole : front.reverse.takeWhile (· != '\n') = front.reverse := by
      simpa using hcolumn []
    by_cases hc : c = '\n'
    · simp [feedPosition, Position.shift, hcolumn, hwhole, hrow, hc]
    · simp [feedPosition, Position.shift, hcolumn, hwhole, hrow, hc, Nat.add_comm]

/-- A row more if a line ends, and none otherwise. -/
theorem Position.row_shift (p : Position) (ends : Bool) (size : Nat) :
    (p.shift ends size).row = p.row + if ends then 1 else 0 := by
  cases ends with
  | true => rfl
  | false =>
    by_cases hrow : p.row = 0
    · simp [shift, hrow]
    · simp [shift, hrow]

/-- Positions that differ do so behind one more character. -/
theorem Position.shift_inj {p q : Position} {ends : Bool} {size : Nat} :
    p.shift ends size = q.shift ends size ↔ p = q := by
  constructor
  · intro h
    obtain ⟨row, column⟩ := p
    obtain ⟨row', column'⟩ := q
    have hrow := congrArg Position.row h
    rw [Position.row_shift, Position.row_shift] at hrow
    obtain rfl : row = row' := Nat.add_right_cancel hrow
    have hcolumn := congrArg Position.column h
    cases ends with
    | true => simpa [shift] using hcolumn
    | false =>
      by_cases hzero : row = 0
      · simpa [shift, hzero] using hcolumn
      · simpa [shift, hzero] using hcolumn
  · rintro rfl
    rfl

/-! ### When the rows are the lines -/

/-- Every line that ends in a front of a text ends with a line feed. -/
def OnlyFeedsEnd (front back : Text) : Prop :=
  ∀ before c after, front = before ++ c :: after → endsLine c (after ++ back) = true → c = '\n'

theorem onlyFeedsEnd_nil (back : Text) : OnlyFeedsEnd [] back := by
  intro before c after hfront
  simp at hfront

theorem onlyFeedsEnd_cons :
    OnlyFeedsEnd (c :: front) back ↔
      (endsLine c (front ++ back) = true → c = '\n') ∧ OnlyFeedsEnd front back := by
  constructor
  · intro h
    exact ⟨h [] c front rfl, fun before d after hfront =>
      h (c :: before) d after (by rw [hfront, List.cons_append])⟩
  · rintro ⟨hfirst, hlater⟩ before d after hfront hends
    cases before with
    | nil =>
      obtain ⟨rfl, rfl⟩ := List.cons.inj hfront
      exact hfirst hends
    | cons _ before =>
      obtain ⟨_, hfront⟩ := List.cons.inj hfront
      exact hlater before d after hfront hends

/-- There are never more rows than lines. -/
theorem row_feedPosition_le (front back : Text) :
    (feedPosition front).row ≤ (position (front ++ back) front.byteSize).row := by
  induction front with
  | nil => exact Nat.zero_le _
  | cons c front ih =>
    rw [List.cons_append, byteSize_cons, position_cons, feedPosition_cons, Position.row_shift,
      Position.row_shift]
    by_cases hc : c = '\n'
    · simpa [hc, endsLine_lineFeed] using ih
    · have hne : (c == '\n') = false := beq_eq_false_iff_ne.mpr hc
      rw [hne, if_neg Bool.false_ne_true]
      omega

/-- The position of an offset is counted by line feeds exactly if every line that ends before the
offset ends with a line feed. -/
theorem position_eq_feedPosition_iff (front back : Text) :
    position (front ++ back) front.byteSize = feedPosition front ↔ OnlyFeedsEnd front back := by
  induction front with
  | nil =>
    simp only [onlyFeedsEnd_nil, iff_true]
    exact position_zero back
  | cons c front ih =>
    rw [List.cons_append, byteSize_cons, position_cons, feedPosition_cons, onlyFeedsEnd_cons, ← ih]
    constructor
    · intro hsame
      have hrow := congrArg Position.row hsame
      rw [Position.row_shift, Position.row_shift] at hrow
      have hle := row_feedPosition_le front back
      by_cases hc : c = '\n'
      · subst hc
        rw [endsLine_lineFeed] at hsame
        exact ⟨fun _ => rfl, Position.shift_inj.mp hsame⟩
      · have hne : (c == '\n') = false := beq_eq_false_iff_ne.mpr hc
        cases hends : endsLine c (front ++ back) with
        | true =>
          rw [hends, hne, if_pos rfl, if_neg Bool.false_ne_true] at hrow
          omega
        | false =>
          rw [hends, hne] at hsame
          exact ⟨fun h => absurd h Bool.false_ne_true, Position.shift_inj.mp hsame⟩
    · rintro ⟨hfirst, hsame⟩
      have hends : endsLine c (front ++ back) = (c == '\n') := by
        by_cases hc : c = '\n'
        · rw [hc, endsLine_lineFeed]
          rfl
        · rw [beq_eq_false_iff_ne.mpr hc]
          exact Bool.eq_false_iff.mpr fun h => hc (hfirst h)
      rw [hsame, hends]

/-- Whether a character ends a line depends on what stands behind it only if it is a carriage
return. -/
theorem endsLine_eq_iff {s : Text} : endsLine c s = endsLine c t ↔
    (c = '\r' → (s.head? = some '\n' ↔ t.head? = some '\n')) := by
  by_cases hc : c = '\r'
  · subst hc
    rw [Bool.eq_iff_iff]
    simp [endsLine, isLineBreak, Decidable.not_iff_not]
  · have hother (u : Text) : endsLine c u = isLineBreak c := by
      rw [endsLine, beq_eq_false_iff_ne.mpr hc]
      simp
    simp [hother, hc]

/-- The position behind a front is the same whatever stands there, unless a carriage return at its
end is joined by a line feed. -/
theorem position_append_eq_iff (front s t : Text) :
    position (front ++ s) front.byteSize = position (front ++ t) front.byteSize ↔
      (front.getLast? = some '\r' → (s.head? = some '\n' ↔ t.head? = some '\n')) := by
  induction front with
  | nil => simp [position_zero]
  | cons c front ih =>
    simp only [List.cons_append, byteSize_cons, position_cons]
    cases front with
    | nil =>
      have hboth : position s 0 = position t 0 := (position_zero s).trans (position_zero t).symm
      have hlast : [c].getLast? = some '\r' ↔ c = '\r' := by simp
      rw [hlast, ← endsLine_eq_iff]
      simp only [List.nil_append, byteSize_nil, hboth]
      constructor
      · intro hsame
        have hrow := congrArg Position.row hsame
        rw [Position.row_shift, Position.row_shift] at hrow
        cases hs : endsLine c s <;> cases ht : endsLine c t <;> simp_all
      · intro hends
        rw [hends]
    | cons d front =>
      have hends : endsLine c (d :: front ++ s) = endsLine c (d :: front ++ t) := rfl
      rw [hends, Position.shift_inj, ih, List.getLast?_cons_cons]

end Retint.Text
