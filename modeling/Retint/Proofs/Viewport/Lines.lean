import Retint.Proofs.Number.Nearest
import Retint.Proofs.Text.Breaks
import Retint.Proofs.Text.Cuts
import Retint.Viewport.Window

/-!
# Whole lines on a layout of equal lines

The lines of a text tile it: each one starts where the one before it ends, and each but the last
ends with its one line break. A window on them shows all lines from the one at its top to the one at
its bottom, and a span is visible if and only if it shares a byte with one of these.
-/

namespace Retint

namespace Monospace

/-- The lines of a layout are those of a text, and they tile it. -/
structure Tiles (l : Monospace) (text : Text) : Prop where
  /-- The first line starts where the text does. -/
  first : l.lineStarts.head? = some 0
  /-- Every line starts behind the start of the one before it. -/
  increasing : l.lineStarts.Pairwise (· < ·)
  /-- A line ends where the next one starts, on the layout and below it. -/
  adjacent : ∀ line, l.lineEnd line = l.lineStart (line + 1)
  /-- Below the layout there is nothing left of the text. -/
  below : ∀ line, l.lineCount ≤ line → l.lineStart line = text.byteSize
  /-- The bytes of a line are the line with its break. -/
  covers : ∀ line, line < l.lineCount →
    text.slice? (l.lineStart line) (l.lineEnd line) = text.lines[line]?
  /-- The lines are the text cut behind every line break. -/
  cut : Text.IsCut text.lines ∧ text.lines.flatten = text

variable {i j first last : Nat}

theorem lineCount_ofText (text : Text) (height : Float32) :
    (ofText text height).lineCount = text.lines.length :=
  Text.length_startsFrom 0 text.lines

/-- A line starts where the lines before it end. -/
theorem lineStart_ofText (text : Text) (height : Float32) (line : Nat) :
    (ofText text height).lineStart line = Text.byteSize (text.lines.take line).flatten := by
  have h := Text.getD_startsFrom 0 text.lines line
  rw [Text.lines_flatten, Nat.zero_add, Nat.zero_add] at h
  exact h

/-- The lines from one on, up to another one, are a slice of the text. -/
theorem slice?_lines (text : Text) (height : Float32) (h : i ≤ j) :
    text.slice? ((ofText text height).lineStart i) ((ofText text height).lineStart j) =
      some ((text.lines.take j).drop i).flatten := by
  have hfront : text.lines.take i ++ (text.lines.take j).drop i = text.lines.take j := by
    have hsplit := List.take_append_drop i (text.lines.take j)
    rwa [List.take_take, Nat.min_eq_left h] at hsplit
  rw [lineStart_ofText, lineStart_ofText, Text.slice?_eq_some_iff]
  refine ⟨(text.lines.take i).flatten, (text.lines.drop j).flatten, ?_, rfl, ?_⟩
  · rw [← List.flatten_append, hfront, ← List.flatten_append, List.take_append_drop,
      Text.lines_flatten]
  · rw [← Text.byteSize_append, ← List.flatten_append, hfront]

/-- No line starts before an earlier one. -/
theorem lineStart_le (text : Text) (height : Float32) (h : i ≤ j) :
    (ofText text height).lineStart i ≤ (ofText text height).lineStart j := by
  obtain ⟨_, _, _, hstart, hstop⟩ := Text.slice?_eq_some_iff.mp (slice?_lines text height h)
  omega

theorem lineStart_le_byteSize (text : Text) (height : Float32) (line : Nat) :
    (ofText text height).lineStart line ≤ text.byteSize := by
  obtain ⟨_, _, htext, _, hstop⟩ :=
    Text.slice?_eq_some_iff.mp (slice?_lines text height (Nat.zero_le line))
  have hsize := congrArg Text.byteSize htext
  simp only [Text.byteSize_append] at hsize
  omega

/-- The lines of a text tile it. -/
theorem ofText_tiles (text : Text) (height : Float32) : (ofText text height).Tiles text where
  first := by
    obtain ⟨line, later, hlines⟩ := List.exists_cons_of_ne_nil (Text.lines_ne_nil text)
    simp [ofText, Text.lineStarts, hlines, Text.startsFrom]
  increasing := (Text.lines_isCut text).pairwise_startsFrom 0
  adjacent _ := rfl
  below line hline := by
    rw [lineCount_ofText] at hline
    rw [lineStart_ofText, List.take_of_length_le hline, Text.lines_flatten]
  covers line hline := by
    rw [lineCount_ofText] at hline
    rw [lineEnd, slice?_lines text height (Nat.le_succ line), List.getElem?_eq_getElem hline,
      List.take_succ_eq_append_getElem hline, List.drop_append_of_le_length (by simp; omega)]
    simp
  cut := ⟨Text.lines_isCut text, Text.lines_flatten text⟩

/-- A position is on the layout. -/
theorem lineAt_lt (text : Text) (height y : Float32) :
    (ofText text height).lineAt y < (ofText text height).lineCount := by
  have hpos : 0 < (ofText text height).lineCount := by
    rw [lineCount_ofText]
    exact List.length_pos_iff.mpr (Text.lines_ne_nil text)
  unfold lineAt
  dsimp only
  split
  · split
    · omega
    · rename_i habove
      have hle := Single.toUInt64_le_of_not_le habove
      omega
  · exact hpos

/-- Where something reaches into the lines between two, there is a line between them that it reaches
into. -/
theorem exists_line_of_reaches (l : Monospace) {start stop : Nat} (hfull : start < stop)
    (hle : first ≤ last) (hstart : start < l.lineEnd last) (hstop : l.lineStart first < stop) :
    ∃ line, first ≤ line ∧ line ≤ last ∧ start < l.lineEnd line ∧ l.lineStart line < stop := by
  obtain ⟨more, rfl⟩ := Nat.exists_eq_add_of_le hle
  induction more with
  | zero => exact ⟨first, Nat.le_refl _, Nat.le_refl _, hstart, hstop⟩
  | succ more ih =>
    by_cases hearlier : start < l.lineEnd (first + more)
    · obtain ⟨line, hfirst, hlast, hreaches⟩ := ih (Nat.le_add_right _ _) hearlier
      exact ⟨line, hfirst, by omega, hreaches⟩
    · -- It starts behind the line before the last one, which is where the last one starts.
      have hlast : l.lineStart (first + (more + 1)) ≤ start := Nat.le_of_not_lt hearlier
      exact ⟨first + (more + 1), hle, Nat.le_refl _, hstart, by omega⟩

/-- What reaches into the lines of a text from one to another reaches into one of them. -/
theorem reaches_iff (text : Text) (height : Float32) {start stop : Nat} (hfull : start < stop)
    (hle : first ≤ last) :
    start < (ofText text height).lineEnd last ∧ (ofText text height).lineStart first < stop ↔
      ∃ line, first ≤ line ∧ line ≤ last ∧ start < (ofText text height).lineEnd line ∧
        (ofText text height).lineStart line < stop := by
  constructor
  · rintro ⟨hstart, hstop⟩
    exact exists_line_of_reaches _ hfull hle hstart hstop
  · rintro ⟨line, hfirst, hlast, hstart, hstop⟩
    have hbefore := lineStart_le text height hfirst
    have hbehind := lineStart_le text height (Nat.succ_le_succ hlast)
    exact ⟨Nat.lt_of_lt_of_le hstart hbehind, Nat.lt_of_le_of_lt hbefore hstop⟩

end Monospace

namespace Window

/-- A window on the lines of a text shows whole lines, from the first one of them to the last one,
and of the spans those that reach into one of these. -/
structure ShowsLines (w : Window) (l : Monospace) (text : Text) (first last : Nat) : Prop where
  /-- The bytes shown are bytes of the text. -/
  inside : (w.bytes l.toLayout).start ≤ (w.bytes l.toLayout).stop ∧
    (w.bytes l.toLayout).stop ≤ text.byteSize
  /-- The lines are lines of the layout and in order. -/
  ordered : first ≤ last ∧ last < l.lineCount
  /-- What is shown is the lines from the first to the last. -/
  whole : text.slice? (w.bytes l.toLayout).start (w.bytes l.toLayout).stop =
    some ((text.lines.take (last + 1)).drop first).flatten
  /-- A byte is shown if it is a byte of one of these lines. -/
  union : ∀ offset,
    (w.bytes l.toLayout).start ≤ offset ∧ offset < (w.bytes l.toLayout).stop ↔
      ∃ line, first ≤ line ∧ line ≤ last ∧ l.lineStart line ≤ offset ∧ offset < l.lineEnd line
  /-- Spans are kept or left out, in their order; one that is not empty is kept if it reaches into
  one of these lines. -/
  spans : ∃ keeps : Span → Bool,
    (∀ spans, Span.within spans (w.bytes l.toLayout) = spans.filter keeps) ∧
    ∀ span, span.start < span.stop →
      (keeps span = true ↔
        ∃ line, first ≤ line ∧ line ≤ last ∧ span.start < l.lineEnd line ∧
          l.lineStart line < span.stop)

variable (w : Window) (text : Text) (height : Float32)

theorem firstLine_le_lastLine (layout : Layout) : w.firstLine layout ≤ w.lastLine layout :=
  Nat.le_max_right _ _

/-- The window begins and ends where lines do. -/
theorem bytes_ofText :
    w.bytes (Monospace.ofText text height).toLayout =
      ⟨(Monospace.ofText text height).lineStart
          (w.firstLine (Monospace.ofText text height).toLayout),
        (Monospace.ofText text height).lineEnd
          (w.lastLine (Monospace.ofText text height).toLayout)⟩ := by
  have hle := Monospace.lineStart_le text height
    (Nat.le_succ_of_le (w.firstLine_le_lastLine (Monospace.ofText text height).toLayout))
  exact congrArg (Range.mk _) (Nat.max_eq_left hle)

/-- A window shows the lines from the one at its top to the one at its bottom. -/
theorem showsLines_ofText :
    w.ShowsLines (Monospace.ofText text height) text
      (w.firstLine (Monospace.ofText text height).toLayout)
      (w.lastLine (Monospace.ofText text height).toLayout) := by
  have hle := w.firstLine_le_lastLine (Monospace.ofText text height).toLayout
  refine ⟨?_, ⟨hle, ?_⟩, ?_, fun offset => ?_,
    (·.meets (w.bytes (Monospace.ofText text height).toLayout)), fun _ => rfl,
    fun span hspan => ?_⟩
  · rw [bytes_ofText]
    exact ⟨Monospace.lineStart_le text height (Nat.le_succ_of_le hle),
      Monospace.lineStart_le_byteSize text height _⟩
  · exact Nat.max_lt.mpr
      ⟨Monospace.lineAt_lt text height w.bottom, Monospace.lineAt_lt text height w.scroll⟩
  · rw [bytes_ofText]
    exact Monospace.slice?_lines text height (Nat.le_succ_of_le hle)
  · -- A byte is a span of length one.
    rw [bytes_ofText]
    have hreaches := Monospace.reaches_iff text height (Nat.lt_succ_self offset) hle
    simpa only [Nat.lt_succ_iff, and_comm, and_assoc] using hreaches
  · rw [bytes_ofText]
    have hreaches := Monospace.reaches_iff text height hspan hle
    simpa only [Span.meets, Bool.and_eq_true, decide_eq_true_eq] using hreaches

/-- **Whole lines, and the spans in them.** The lines of a text tile it. Wherever a window on them
is and however high, it shows all lines from the one at its position to the one at the sum of its
position and its height, or only the first of these if the other is not below it; a height that is
no positive number counts as zero. These are lines of the text. A span with at least one byte is
visible if and only if it shares a byte with one of them, and the visible spans keep their order and
their number. -/
theorem shows_whole_lines :
    (Monospace.ofText text height).Tiles text ∧
      w.ShowsLines (Monospace.ofText text height) text
        ((Monospace.ofText text height).lineAt w.scroll)
        (max ((Monospace.ofText text height).lineAt w.scroll)
          ((Monospace.ofText text height).lineAt
            (w.scroll + if 0 < w.height then w.height else 0))) := by
  refine ⟨Monospace.ofText_tiles text height, ?_⟩
  rw [Nat.max_comm]
  exact w.showsLines_ofText text height

end Window

end Retint
