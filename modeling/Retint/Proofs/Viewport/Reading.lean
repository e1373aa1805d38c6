import Retint.Proofs.Viewport.Freshness

/-!
# Recomputing part by part

A recomputation reads the layout, the position, the height and the spans one after the other before
it shows anything, and the inputs may change between any two of these. Here each of them is a part
of its own. A recomputation whose parts follow each other without a change in between is one that
happens at once.
-/

namespace Retint.Filter

/-- How far a filter has got with a recomputation. -/
inductive Reading where
  /-- No recomputation is under way. -/
  | idle
  /-- One is due. -/
  | due
  /-- It has read the layout. -/
  | layout (layout : Layout)
  /-- It has also read the position. -/
  | scroll (layout : Layout) (scroll : Float32)
  /-- It has also read the height. -/
  | window (layout : Layout) (window : Window)
  /-- It has also read the spans and knows which ones are visible. -/
  | visible (spans : List Span)

/-- The filter after the next part of a recomputation, and how far it has got by then. Without a
layout it gives up. -/
def proceed (f : Filter) : Reading → Filter × Reading
  | .idle => (f, .idle)
  | .due =>
    match f.layout.value with
    | none => (f, .idle)
    | some layout => (f, .layout layout)
  | .layout layout => (f, .scroll layout f.scroll.value)
  | .scroll layout scroll => (f, .window layout ⟨scroll, f.height.value⟩)
  | .window layout window => (f, .visible (Span.within f.spans.value (window.bytes layout)))
  | .visible spans => ({ f with visible := spans, publications := f.publications + 1 }, .idle)

/-- What a filter does next by itself: it notices something if it is idle, or it goes on with a
recomputation. -/
inductive Beat (f : Filter) : Reading → Filter → Reading → Prop where
  /-- The filter notices something. -/
  | notice (w : Wake) : f.ready w = true →
      Beat f .idle (f.notice w) (if w.recomputes then .due else .idle)
  /-- The filter goes on. -/
  | proceed (reading : Reading) : Beat f reading (f.proceed reading).1 (f.proceed reading).2

variable {f : Filter} {layout : Layout}

theorem proceed_due_of_none (h : f.layout.value = none) : f.proceed .due = (f, .idle) := by
  simp only [proceed, h]

theorem proceed_due_of_layout (h : f.layout.value = some layout) :
    f.proceed .due = (f, .layout layout) := by
  simp only [proceed, h]

/-- Whatever beats keep, a recomputation at once keeps. -/
theorem recompute_of_beat {P : Filter → Reading → Prop}
    (hbeat : ∀ f reading next later, P f reading → Beat f reading next later → P next later)
    (h : P f .due) : P f.recompute .idle := by
  have hproceed : ∀ {g reading}, P g reading → P (g.proceed reading).1 (g.proceed reading).2 :=
    fun hg => hbeat _ _ _ _ hg (.proceed _)
  cases hlayout : f.layout.value with
  | none =>
    have hend := hproceed h
    rw [proceed_due_of_none hlayout] at hend
    rwa [recompute_of_none hlayout]
  | some layout =>
    have hread := hproceed h
    rw [proceed_due_of_layout hlayout] at hread
    -- The position, the height and the spans are read, and what is visible is shown.
    have hshown := hproceed (hproceed (hproceed (hproceed hread)))
    rwa [recompute_of_layout hlayout]

/-- Whatever beats keep, a filter keeps that takes something up at once. -/
theorem wake?_of_beat {P : Filter → Reading → Prop}
    (hbeat : ∀ f reading next later, P f reading → Beat f reading next later → P next later)
    (h : P f .idle) {w : Wake} {next : Filter} (hwake : f.wake? w = some next) : P next .idle := by
  unfold wake? at hwake
  split at hwake
  · rename_i hready
    cases hwake
    have hnotice := hbeat _ _ _ _ h (.notice w hready)
    rw [take_eq_notice]
    split
    · rename_i hrecomputes
      rw [hrecomputes] at hnotice
      exact recompute_of_beat hbeat hnotice
    · rename_i hrecomputes
      rw [Bool.not_eq_true] at hrecomputes
      rwa [hrecomputes] at hnotice
  · contradiction

/-- Whatever beats keep, a filter keeps that takes up all that is waiting. -/
theorem settle_of_beat {P : Filter → Reading → Prop}
    (hbeat : ∀ f reading next later, P f reading → Beat f reading next later → P next later)
    (h : P f .idle) : P f.settle .idle := by
  unfold settle
  generalize Wake.all = waiting
  induction waiting generalizing f with
  | nil => exact h
  | cons w later ih =>
    have htaken : P ((f.wake? w).getD f) .idle := by
      cases hwake : f.wake? w with
      | none => exact h
      | some next => exact wake?_of_beat hbeat h hwake
    exact ih htaken

/-! ### Taking up all that is waiting -/

/-- A filter that runs goes on running. -/
theorem started_wake? (w : Wake) (h : f.started = true) :
    ((f.wake? w).getD f).started = true := by
  unfold wake?
  split
  · cases w <;> simp [take, h]
  · exact h

/-- A layout that was seen stays seen. -/
theorem layout_seen_wake? (w : Wake) (h : f.layout.unseen = false) :
    ((f.wake? w).getD f).layout.unseen = false := by
  unfold wake?
  split
  · cases w <;> simp [take, Watched.seen, h]
  · exact h

/-- A filter that has taken up all that is waiting has seen the layout. -/
theorem layout_seen_settle (f : Filter) : f.settle.layout.unseen = false := by
  have hstart : ((f.wake? .start).getD f).started = true := by
    cases hstarted : f.started <;> simp [wake?, ready, take, hstarted]
  have hrunning := started_wake? .closed (started_wake? .spans hstart)
  have hlayout : ∀ {g : Filter}, g.started = true →
      ((g.wake? .layout).getD g).layout.unseen = false := by
    intro g hg
    cases hunseen : g.layout.unseen <;> simp [wake?, ready, take, Watched.seen, hg, hunseen]
  exact layout_seen_wake? .timer (layout_seen_wake? .scroll (layout_seen_wake? .height
    (hlayout hrunning)))

end Retint.Filter
