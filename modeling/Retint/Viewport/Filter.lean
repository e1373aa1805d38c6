import Retint.Viewport.Window

/-!
# Following the viewport

A filter keeps the set of visible spans up to date while the spans, the layout, the height of the
window and its position change. A change of position waits until there has been no other for some
time; all other changes take effect at once, and every recomputation uses the newest values. While
there is no layout nothing is recomputed. When several changes are waiting, the filter may take
them in any order.
-/

namespace Retint

/-- A value that someone else replaces, with a mark that the newest one was not seen yet. -/
structure Watched (α : Type) where
  /-- The newest value. -/
  value : α
  /-- Whether it was replaced since it was seen. -/
  unseen : Bool

namespace Watched

variable {α : Type}

/-- A value that was never replaced. -/
def first (a : α) : Watched α := ⟨a, false⟩

/-- The value after replacing it. -/
def put (_ : Watched α) (a : α) : Watched α := ⟨a, true⟩

/-- The value after it was seen. -/
def seen (w : Watched α) : Watched α := { w with unseen := false }

end Watched

/-- A filter with its inputs, its clock and what it shows. -/
structure Filter where
  /-- All spans. -/
  spans : Watched (List Span)
  /-- The position of the window. -/
  scroll : Watched Float32
  /-- The height of the window. -/
  height : Watched Float32
  /-- The layout, if there is one. -/
  layout : Watched (Option Layout)
  /-- Whether new spans can still come. -/
  sourceOpen : Bool
  /-- Whether the filter still waits for them. -/
  listening : Bool
  /-- How long the position has to rest before it takes effect. -/
  debounce : Nat
  /-- The time. -/
  now : Nat
  /-- When the position takes effect, if it changed. -/
  deadline : Option Nat
  /-- Whether the filter has begun to run. -/
  started : Bool
  /-- The spans shown. -/
  visible : List Span
  /-- How often a set of spans was shown. -/
  publications : Nat

namespace Filter

/-- A filter over some spans that has not begun to run. -/
def watching (spans : List Span) (debounce : Nat) : Filter where
  spans := .first spans
  scroll := .first 0
  height := .first 0
  layout := .first none
  sourceOpen := true
  listening := true
  debounce := debounce
  now := 0
  deadline := none
  started := false
  visible := []
  publications := 0

/-- The window by its newest position and height. -/
def window (f : Filter) : Window := ⟨f.scroll.value, f.height.value⟩

/-- What the newest values show on a layout. -/
def view (f : Filter) (layout : Layout) : List Span :=
  Span.within f.spans.value (f.window.bytes layout)

/-- The filter after new spans came, unless no more can come. -/
def putSpans (f : Filter) (spans : List Span) : Filter :=
  if f.sourceOpen then { f with spans := f.spans.put spans } else f

/-- The filter after the source of spans went away. -/
def close (f : Filter) : Filter := { f with sourceOpen := false }

/-- The filter after the window moved. -/
def scrollTo (f : Filter) (y : Float32) : Filter := { f with scroll := f.scroll.put y }

/-- The filter after the window changed its height. -/
def resize (f : Filter) (height : Float32) : Filter := { f with height := f.height.put height }

/-- The filter after the layout changed or was withdrawn. -/
def setLayout (f : Filter) (layout : Option Layout) : Filter :=
  { f with layout := f.layout.put layout }

/-- The filter after showing what the newest values say, if there is a layout. -/
def recompute (f : Filter) : Filter :=
  match f.layout.value with
  | none => f
  | some layout => { f with visible := f.view layout, publications := f.publications + 1 }

@[simp] theorem recompute_spans (f : Filter) : f.recompute.spans = f.spans := by
  unfold recompute
  split <;> rfl

@[simp] theorem recompute_scroll (f : Filter) : f.recompute.scroll = f.scroll := by
  unfold recompute
  split <;> rfl

@[simp] theorem recompute_height (f : Filter) : f.recompute.height = f.height := by
  unfold recompute
  split <;> rfl

@[simp] theorem recompute_layout (f : Filter) : f.recompute.layout = f.layout := by
  unfold recompute
  split <;> rfl

@[simp] theorem recompute_sourceOpen (f : Filter) : f.recompute.sourceOpen = f.sourceOpen := by
  unfold recompute
  split <;> rfl

@[simp] theorem recompute_debounce (f : Filter) : f.recompute.debounce = f.debounce := by
  unfold recompute
  split <;> rfl

@[simp] theorem recompute_now (f : Filter) : f.recompute.now = f.now := by
  unfold recompute
  split <;> rfl

@[simp] theorem recompute_deadline (f : Filter) : f.recompute.deadline = f.deadline := by
  unfold recompute
  split <;> rfl

@[simp] theorem recompute_started (f : Filter) : f.recompute.started = f.started := by
  unfold recompute
  split <;> rfl

/-- What the filter can take up next. -/
inductive Wake where
  /-- It begins to run. -/
  | start
  /-- There are new spans. -/
  | spans
  /-- No more spans can come. -/
  | closed
  /-- The layout changed. -/
  | layout
  /-- The height changed. -/
  | height
  /-- The position changed. -/
  | scroll
  /-- The position has rested long enough. -/
  | timer
  deriving DecidableEq, Repr

namespace Wake

/-- Everything that a filter can take up, each before what it can bring about. -/
def all : List Wake := [.start, .spans, .closed, .layout, .height, .scroll, .timer]

end Wake

/-- Whether there is something to take up. -/
def ready (f : Filter) : Wake → Bool
  | .start => !f.started
  | .spans => f.started && f.listening && f.spans.unseen
  | .closed => f.started && f.listening && !f.spans.unseen && !f.sourceOpen
  | .layout => f.started && f.layout.unseen
  | .height => f.started && f.height.unseen
  | .scroll => f.started && f.scroll.unseen
  | .timer => f.started && f.deadline.any (· ≤ f.now)

/-- The filter after taking something up. -/
def take (f : Filter) : Wake → Filter
  | .start => { f with started := true }.recompute
  | .spans => { f with spans := f.spans.seen }.recompute
  | .closed => { f with listening := false }
  | .layout => { f with layout := f.layout.seen }.recompute
  | .height => { f with height := f.height.seen }.recompute
  | .scroll => { f with scroll := f.scroll.seen, deadline := some (f.now + f.debounce) }
  | .timer => { f with deadline := none }.recompute

/-- The filter after taking something up that is ready; none if it is not. -/
def wake? (f : Filter) (w : Wake) : Option Filter := if f.ready w then some (f.take w) else none

/-- The filter after taking up all that is waiting. -/
def settle (f : Filter) : Filter := Wake.all.foldl (fun f w => (f.wake? w).getD f) f

/-- The filter some time later: all that is waiting is taken up at once, and what is due on the way
at its own time. -/
def advance (f : Filter) (time : Nat) : Filter :=
  let f := f.settle
  let stop := f.now + time
  match f.deadline with
  | some due =>
    if due ≤ stop then { { f with now := max f.now due }.settle with now := stop }
    else { f with now := stop }
  | none => { f with now := stop }

/-- What can happen to a filter. -/
inductive Move where
  /-- New spans come. -/
  | spans (spans : List Span)
  /-- The source of spans goes away. -/
  | close
  /-- The window moves. -/
  | scroll (y : Float32)
  /-- The window changes its height. -/
  | resize (height : Float32)
  /-- The layout changes or is withdrawn. -/
  | layout (layout : Option Layout)
  /-- Time passes. -/
  | tick (time : Nat)
  /-- The filter takes something up. -/
  | wake (w : Wake)

/-- The filter after a move; none if the move is not possible. -/
def step (f : Filter) : Move → Option Filter
  | .spans spans => some (f.putSpans spans)
  | .close => some f.close
  | .scroll y => some (f.scrollTo y)
  | .resize height => some (f.resize height)
  | .layout layout => some (f.setLayout layout)
  | .tick time => some { f with now := f.now + time }
  | .wake w => f.wake? w

/-- The filter after several moves; none if one of them is not possible. -/
def run (f : Filter) : List Move → Option Filter
  | [] => some f
  | move :: later => (f.step move).bind fun next => next.run later

/-- Whether nothing is waiting and no change of position is about to take effect. -/
def isQuiet (f : Filter) : Bool := !Wake.all.any f.ready && f.deadline.isNone

end Filter

end Retint
