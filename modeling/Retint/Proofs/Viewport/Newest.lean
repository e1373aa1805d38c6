import Mathlib.Data.List.TakeWhile
import Retint.Viewport.Filter

/-!
# The newest values

A filter is told its spans, its position, its height and its layout from outside, each as often as
one likes. Whatever it does meanwhile, the values that it goes by are the ones it was told last.
Spans that come after their source went away do not count.
-/

namespace Retint.Filter

namespace Move

/-- A move that is not the filter's own. -/
def isOutside : Move → Bool
  | .wake _ => false
  | _ => true

/-- The spans that come with a move. -/
def spans? : Move → Option (List Span)
  | .spans new => some new
  | _ => none

/-- The position to which a move goes. -/
def position? : Move → Option Float32
  | .scroll y => some y
  | _ => none

/-- The height that a move sets. -/
def height? : Move → Option Float32
  | .resize height => some height
  | _ => none

/-- The layout that a move sets, or that it is withdrawn. -/
def layout? : Move → Option (Option Layout)
  | .layout new => some new
  | _ => none

/-- Whether the source of spans goes away with a move. -/
def isClose : Move → Bool
  | .close => true
  | _ => false

end Move

/-- The last value that some moves set, where a value to begin with is given. -/
def newest {α : Type} (value? : Move → Option α) (first : α) (moves : List Move) : α :=
  (moves.filterMap value?).getLastD first

/-- The moves before the source of spans goes away. -/
def beforeClose (moves : List Move) : List Move := moves.takeWhile (!·.isClose)

/-- The values of a filter are those that some moves have set last. -/
structure Knows (spans : List Span) (moves : List Move) (f : Filter) : Prop where
  /-- New spans can come as long as their source did not go away. -/
  sourceOpen : f.sourceOpen = moves.all (!·.isClose)
  spans : f.spans.value = newest Move.spans? spans (beforeClose moves)
  scroll : f.scroll.value = newest Move.position? 0 moves
  height : f.height.value = newest Move.height? 0 moves
  layout : f.layout.value = newest Move.layout? none moves

variable {spans : List Span} {f next : Filter} {move : Move} {moves : List Move}

theorem wake?_eq_some_iff {w : Wake} :
    f.wake? w = some next ↔ f.ready w = true ∧ next = f.take w := by
  unfold wake?
  split
  · rename_i hready
    simp [hready, eq_comm]
  · rename_i hready
    simp [hready]

theorem newest_concat {α : Type} (value? : Move → Option α) (first : α) (moves : List Move)
    (move : Move) :
    newest value? first (moves ++ [move]) = (value? move).getD (newest value? first moves) := by
  cases hvalue : value? move <;> simp [newest, hvalue]

/-- Spans count that come while their source is there. -/
theorem newest_spans_concat (spans : List Span) (moves : List Move) (move : Move) :
    newest Move.spans? spans (beforeClose (moves ++ [move])) =
      if moves.all (!·.isClose) then
        move.spans?.getD (newest Move.spans? spans (beforeClose moves))
      else newest Move.spans? spans (beforeClose moves) := by
  unfold beforeClose
  split
  · rename_i hopen
    have hall := List.all_eq_true.mp hopen
    rw [List.takeWhile_append_of_pos hall, List.takeWhile_eq_self_iff.mpr hall]
    cases move with
    | close => exact congrArg (newest Move.spans? spans) (List.append_nil moves)
    | wake | spans | scroll | resize | layout | tick => exact newest_concat _ _ _ _
  · rename_i hclosed
    rw [List.takeWhile_append, if_neg]
    intro hlength
    have hself := (List.takeWhile_prefix _).eq_of_length hlength
    exact hclosed (List.all_eq_true.mpr (List.takeWhile_eq_self_iff.mp hself))

/-! ### What moves do to the values -/

/-- Only moves from outside set values, each of them its own. -/
theorem step_values (hstep : f.step move = some next) :
    next.sourceOpen = (f.sourceOpen && !move.isClose) ∧
      next.spans.value =
        (if f.sourceOpen then move.spans?.getD f.spans.value else f.spans.value) ∧
      next.scroll.value = move.position?.getD f.scroll.value ∧
      next.height.value = move.height?.getD f.height.value ∧
      next.layout.value = move.layout?.getD f.layout.value := by
  cases move with
  | wake w =>
    obtain ⟨_, rfl⟩ := wake?_eq_some_iff.mp hstep
    cases w <;>
      simp [take, Watched.seen, Move.isClose, Move.spans?, Move.position?, Move.height?,
        Move.layout?]
  | spans new =>
    cases hstep
    unfold putSpans
    split
    · rename_i hopen
      simp [Watched.put, Move.isClose, Move.spans?, Move.position?, Move.height?, Move.layout?,
        hopen]
    · rename_i hclosed
      simp [Move.isClose, Move.position?, Move.height?, Move.layout?, hclosed]
  | close | scroll | resize | layout | tick =>
    cases hstep
    simp [close, scrollTo, resize, setLayout, Watched.put, Move.isClose, Move.spans?,
      Move.position?, Move.height?, Move.layout?]

/-! ### What a filter knows -/

theorem knows_watching (spans : List Span) (debounce : Nat) :
    Knows spans [] (watching spans debounce) :=
  ⟨rfl, rfl, rfl, rfl, rfl⟩

/-- A filter that keeps its values goes on knowing them. -/
theorem Knows.keep (h : Knows spans moves f) (hopen : next.sourceOpen = f.sourceOpen)
    (hspans : next.spans.value = f.spans.value) (hscroll : next.scroll.value = f.scroll.value)
    (hheight : next.height.value = f.height.value) (hlayout : next.layout.value = f.layout.value) :
    Knows spans moves next :=
  ⟨hopen.trans h.sourceOpen, hspans.trans h.spans, hscroll.trans h.scroll, hheight.trans h.height,
    hlayout.trans h.layout⟩

/-- What a filter is told it knows. -/
theorem Knows.step (h : Knows spans moves f) (hstep : f.step move = some next) :
    Knows spans (moves ++ [move]) next := by
  obtain ⟨hopen, hspans, hscroll, hheight, hlayout⟩ := step_values hstep
  constructor
  · rw [hopen, h.sourceOpen, List.all_append]
    simp
  · rw [hspans, newest_spans_concat, h.sourceOpen, h.spans]
  · rw [hscroll, newest_concat, h.scroll]
  · rw [hheight, newest_concat, h.height]
  · rw [hlayout, newest_concat, h.layout]

/-- What the values of a filter show on a layout is what the newest ones show. -/
theorem Knows.view_eq (h : Knows spans moves f) (layout : Layout) :
    f.view layout = Span.within (newest Move.spans? spans (beforeClose moves))
      (Window.bytes ⟨newest Move.position? 0 moves, newest Move.height? 0 moves⟩ layout) := by
  rw [view, window, h.spans, h.scroll, h.height]

end Retint.Filter
