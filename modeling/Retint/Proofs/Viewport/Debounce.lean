import Mathlib.Data.List.Chain
import Retint.Proofs.Viewport.Prompt

/-!
# A burst of changes of the position

In a run of a filter that takes everything up when it occurs, every change of the position that is
noticed sets the deadline anew, and nothing else touches it before it comes. So changes that follow
each other within the time for which the position has to rest lead to one recomputation, at that
time after the last of them. Whatever is recomputed earlier uses the newest position as well.
-/

namespace Retint.Filter

/-- The time at which something is taken up by a move. -/
def takenAt (w : Wake) : Filter × Move → Option Nat
  | (g, .wake v) => if v = w then some g.now else none
  | _ => none

/-- The times at which something was taken up in a run. -/
def timesOf (w : Wake) (trace : List (Filter × Move)) : List Nat := trace.filterMap (takenAt w)

/-- The positions of a run, in their order. -/
def positions (trace : List (Filter × Move)) : List Float32 :=
  trace.filterMap fun entry => entry.2.position?

/-- The spans that a filter shows with a move, and when. -/
def shownBy (f : Filter) (move : Move) : Option (Nat × List Span) :=
  (f.step move).bind fun next =>
    if next.publications = f.publications then none else some (f.now, next.visible)

/-- What was shown in a run, and when. -/
def shown (trace : List (Filter × Move)) : List (Nat × List Span) :=
  trace.filterMap fun entry => entry.1.shownBy entry.2

/-- What the newest spans and the newest height show on a layout from a position. -/
def viewFrom (f : Filter) (layout : Layout) (y : Float32) : List Span :=
  Span.within f.spans.value (Window.bytes ⟨y, f.height.value⟩ layout)

/-- A change of the position, or a move of the filter itself or of the clock. -/
def Move.IsCalm : Move → Prop
  | .scroll _ | .tick _ | .wake _ => True
  | .spans _ | .close | .resize _ | .layout _ => False

variable {f g next : Filter} {trace later : List (Filter × Move)} {move : Move} {w : Wake}
  {layout : Layout}

theorem timesOf_append (w : Wake) (trace later : List (Filter × Move)) :
    timesOf w (trace ++ later) = timesOf w trace ++ timesOf w later :=
  List.filterMap_append

theorem positions_append (trace later : List (Filter × Move)) :
    positions (trace ++ later) = positions trace ++ positions later :=
  List.filterMap_append

theorem shown_append (trace later : List (Filter × Move)) :
    shown (trace ++ later) = shown trace ++ shown later :=
  List.filterMap_append

/-- What changes outside leaves the clock alone, and with it all that depends on the clock. -/
theorem clock_of_isOutside (houtside : move.isOutside = true) (htick : ¬∃ time, move = .tick time)
    (hstep : f.step move = some next) :
    next.now = f.now ∧ next.deadline = f.deadline ∧ next.debounce = f.debounce ∧
      next.started = f.started := by
  cases move with
  | wake w => contradiction
  | tick time => exact absurd ⟨time, rfl⟩ htick
  | spans new =>
    cases hstep
    unfold putSpans
    split <;> exact ⟨rfl, rfl, rfl, rfl⟩
  | close | scroll | resize | layout =>
    cases hstep
    exact ⟨rfl, rfl, rfl, rfl⟩

/-! ### The deadline of a burst -/

/-- When a change of the position was noticed last, in a run that begins right after one was. -/
def lastNoticed (f : Filter) (trace : List (Filter × Move)) : Nat :=
  (timesOf .scroll trace).getLastD f.now

/-- When the position takes effect after a run, if it rests from then on. -/
def dueAfter (f : Filter) (trace : List (Filter × Move)) : Nat := lastNoticed f trace + f.debounce

/-- Each change of the position was noticed while the one before it had not come into effect. -/
def IsBurst (f : Filter) (trace : List (Filter × Move)) : Prop :=
  (f.now :: timesOf .scroll trace).IsChain fun earlier later => later < earlier + f.debounce

/-- A run is still before its deadline, or it has passed it and took it up once, when it came. -/
inductive Stands (due : Nat) (trace : List (Filter × Move)) (g : Filter) : Prop where
  /-- The deadline has not come, and the clock is not beyond it. -/
  | ahead : timesOf .timer trace = [] → g.deadline = some due → g.now ≤ due → Stands due trace g
  /-- The deadline has come. -/
  | past : timesOf .timer trace = [due] → g.deadline = none → due ≤ g.now → Stands due trace g

/-- Where a run stands that begins right after a change of the position was noticed. -/
structure Rests (f : Filter) (trace : List (Filter × Move)) (g : Filter) : Prop where
  started : g.started = true
  debounce : g.debounce = f.debounce
  stands : Stands (dueAfter f trace) trace g

theorem timesOf_of_none {entry : Filter × Move} (h : takenAt w entry = none) :
    timesOf w (trace ++ [entry]) = timesOf w trace := by
  have hnone : timesOf w [entry] = [] := by
    simp [timesOf, h]
  rw [timesOf_append, hnone, List.append_nil]

theorem takenAt_of_ne {v : Wake} (h : v ≠ w) : takenAt w (g, .wake v) = none := by
  simp [takenAt, h]

theorem takenAt_of_isOutside (houtside : move.isOutside = true) : takenAt w (g, move) = none := by
  cases move with
  | wake v => contradiction
  | spans | close | scroll | resize | layout | tick => rfl

theorem dueAfter_of_none {entry : Filter × Move} (h : takenAt .scroll entry = none) :
    dueAfter f (trace ++ [entry]) = dueAfter f trace := by
  rw [dueAfter, lastNoticed, timesOf_of_none h, dueAfter, lastNoticed]

theorem dueAfter_of_scroll :
    dueAfter f (trace ++ [(g, .wake .scroll)]) = g.now + f.debounce := by
  have hnoticed : timesOf .scroll [(g, .wake .scroll)] = [g.now] := rfl
  rw [dueAfter, lastNoticed, timesOf_append, hnoticed, List.getLastD_concat]

/-- A burst was one before its last move. -/
theorem IsBurst.of_concat {entry : Filter × Move} (h : IsBurst f (trace ++ [entry])) :
    IsBurst f trace := by
  unfold IsBurst at h ⊢
  rw [timesOf_append, ← List.cons_append, List.isChain_append] at h
  exact h.1

/-- In a burst a change of the position is noticed before the deadline of the one before it. -/
theorem IsBurst.now_lt (h : IsBurst f (trace ++ [(g, .wake .scroll)])) :
    g.now < dueAfter f trace := by
  unfold IsBurst at h
  rw [timesOf_append, ← List.cons_append, List.isChain_append] at h
  refine h.2.2 _ ?_ g.now rfl
  rw [List.getLast?_cons]
  simp [lastNoticed]

/-- A move that takes neither a change of the position nor the deadline up and keeps the clock keeps
where a run stands. -/
theorem Rests.keep (h : Rests f trace g) (hscroll : takenAt .scroll (g, move) = none)
    (htimer : takenAt .timer (g, move) = none) (hnow : next.now = g.now)
    (hdeadline : next.deadline = g.deadline) (hdebounce : next.debounce = g.debounce)
    (hstarted : next.started = true) : Rests f (trace ++ [(g, move)]) next := by
  refine ⟨hstarted, by rw [hdebounce, h.debounce], ?_⟩
  rw [dueAfter_of_none hscroll]
  cases h.stands with
  | ahead hnone hdue hle =>
    exact .ahead ((timesOf_of_none htimer).trans hnone) (hdeadline.trans hdue) (hnow ▸ hle)
  | past hone hdue hle =>
    exact .past ((timesOf_of_none htimer).trans hone) (hdeadline.trans hdue) (hnow ▸ hle)

/-- Time passes up to the deadline, or freely once it has come. -/
theorem Rests.tick {time : Nat} (h : Rests f trace g) (hwait : g.MayWait time) :
    Rests f (trace ++ [(g, .tick time)]) (g.atTime (g.now + time)) := by
  have hscroll : takenAt .scroll (g, .tick time) = none := rfl
  have htimer : takenAt .timer (g, .tick time) = none := rfl
  refine ⟨h.started, h.debounce, ?_⟩
  rw [dueAfter_of_none hscroll]
  cases h.stands with
  | ahead hnone hdue hle =>
    exact .ahead ((timesOf_of_none htimer).trans hnone) hdue (hwait.le_deadline _ hdue)
  | past hone hdue hle =>
    exact .past ((timesOf_of_none htimer).trans hone) hdue (Nat.le_add_right_of_le hle)

/-- A change of the position in a burst is noticed before the deadline has come. -/
theorem Rests.timesOf_timer (h : Rests f trace g)
    (hburst : IsBurst f (trace ++ [(g, .wake .scroll)])) : timesOf .timer trace = [] := by
  cases h.stands with
  | ahead hnone hdue hle => exact hnone
  | past hone hdue hle => exact absurd hburst.now_lt (Nat.not_lt_of_le hle)

/-- A change of the position that is noticed in time sets the deadline anew. -/
theorem Rests.scroll (h : Rests f trace g) (hburst : IsBurst f (trace ++ [(g, .wake .scroll)])) :
    Rests f (trace ++ [(g, .wake .scroll)]) (g.take .scroll) := by
  refine ⟨started_take _ h.started, by rw [take_debounce, h.debounce], ?_⟩
  rw [dueAfter_of_scroll, ← h.debounce]
  refine .ahead ?_ rfl (Nat.le_add_right _ _)
  rw [timesOf_of_none (takenAt_of_ne (by decide)), h.timesOf_timer hburst]

/-- The deadline is taken up when it comes. -/
theorem Rests.timer (h : Rests f trace g) (hready : g.ready .timer = true) :
    Rests f (trace ++ [(g, .wake .timer)]) (g.take .timer) := by
  refine ⟨started_take _ h.started, by rw [take_debounce, h.debounce], ?_⟩
  rw [dueAfter_of_none (takenAt_of_ne (by decide))]
  cases h.stands with
  | ahead hnone hdue hle =>
    have hcome : dueAfter f trace ≤ g.now := by
      simpa [ready, h.started, hdue] using hready
    have hnow : g.now = dueAfter f trace := Nat.le_antisymm hle hcome
    refine .past ?_ deadline_take_timer (by rwa [take_now])
    rw [timesOf_append, hnone, ← hnow]
    rfl
  | past hone hdue hle => simp [ready, hdue] at hready

/-- **The deadline stands until it comes.** In a burst, whatever else happens, the deadline is the
one of the last change, and it is taken up once, when it comes. -/
theorem Prompt.rests (hrun : Prompt (f.take .scroll) trace g) (hready : f.ready .scroll = true)
    (hburst : IsBurst f trace) : Rests f trace g := by
  induction hrun with
  | start =>
    have hstarted : f.started = true := by
      simp only [ready, Bool.and_eq_true] at hready
      exact hready.1
    exact ⟨hstarted, rfl, .ahead rfl rfl (Nat.le_add_right _ _)⟩
  | @move trace g next move _ hadmits hstep ih =>
    have hrests := ih hburst.of_concat
    cases move with
    | tick time =>
      cases hstep
      exact hrests.tick hadmits
    | wake w =>
      obtain ⟨hready, rfl⟩ := wake?_eq_some_iff.mp hstep
      by_cases hscroll : w = .scroll
      · subst hscroll
        exact hrests.scroll hburst
      · by_cases htimer : w = .timer
        · subst htimer
          exact hrests.timer hready
        · exact hrests.keep (takenAt_of_ne hscroll) (takenAt_of_ne htimer) (take_now g w)
            (deadline_take hscroll htimer) (take_debounce g w) (started_take w hrests.started)
    | spans | close | scroll | resize | layout =>
      obtain ⟨hnow, hdeadline, hdebounce, hstarted⟩ := clock_of_isOutside rfl (by simp) hstep
      exact hrests.keep rfl rfl hnow hdeadline hdebounce (hstarted.trans hrests.started)

/-! ### What is shown -/

/-- The newest position is the last one that came. -/
theorem Prompt.scroll_value (hrun : Prompt (f.take .scroll) trace g) :
    g.scroll.value = (positions trace).getLastD f.scroll.value := by
  induction hrun with
  | start => rfl
  | @move trace g next move _ _ hstep ih =>
    rw [positions_append, (step_values hstep).2.2.1]
    cases hposition : move.position? with
    | none => simpa [positions, hposition] using ih
    | some y => simp [positions, hposition]

theorem shownBy_of_isOutside (houtside : move.isOutside = true) : f.shownBy move = none := by
  unfold shownBy
  cases hstep : f.step move with
  | none => rfl
  | some next => rw [Option.bind_some, if_pos (shown_of_isOutside houtside hstep).1]

/-- Whatever is shown is what the newest values say. -/
theorem shownBy_wake (hready : f.ready w = true) :
    f.shownBy (.wake w) = if w.recomputes then
      f.layout.value.map fun layout => (f.now, f.viewFrom layout f.scroll.value) else none := by
  have hstep : f.step (.wake w) = some (f.take w) := wake?_eq_some_iff.mpr ⟨hready, rfl⟩
  obtain ⟨hspans, hscroll, hheight, hlayout⟩ := notice_values f w
  rw [shownBy, hstep, Option.bind_some, take_eq_notice]
  split
  · cases hvalue : f.layout.value with
    | none =>
      rw [recompute_of_none (hlayout.trans hvalue)]
      simp
    | some layout =>
      rw [recompute_of_layout (hlayout.trans hvalue)]
      simp [view, window, viewFrom, hspans, hscroll, hheight]
  · simp

/-! ### A burst and nothing else -/

/-- Nothing but the position and the deadline has changed, and nothing else waits. -/
structure Undisturbed (f g : Filter) : Prop where
  spans : g.spans = f.spans
  height : g.height = f.height
  layout : g.layout = f.layout
  idle : ∀ w : Wake, w.recomputes = true → w ≠ .timer → g.ready w = false

theorem Undisturbed.step (h : Undisturbed f g) (hcalm : move.IsCalm)
    (hstep : g.step move = some next) : Undisturbed f next := by
  cases move with
  | scroll | tick =>
    cases hstep
    refine ⟨h.spans, h.height, h.layout, ?_⟩
    intro w hrecomputes htimer
    rw [← h.idle w hrecomputes htimer]
    cases w <;> first
      | contradiction
      | rfl
  | wake w =>
    obtain ⟨hready, rfl⟩ := wake?_eq_some_iff.mp hstep
    cases w with
    | start | spans | layout | height =>
      rw [h.idle _ rfl (by decide)] at hready
      contradiction
    | closed | scroll | timer =>
      refine ⟨by simp [take, h.spans], by simp [take, h.height], by simp [take, h.layout], ?_⟩
      intro v hrecomputes htimer
      refine not_ready_take (h.idle v hrecomputes htimer) ?_
      cases v <;> first
        | contradiction
        | rfl
  | spans | close | resize | layout => exact hcalm.elim

/-- All that an undisturbed filter shows is shown at its deadline. -/
theorem Undisturbed.shownBy_eq (h : Undisturbed f g) (hlayout : f.layout.value = some layout)
    (hstep : g.step move = some next) :
    g.shownBy move =
      (takenAt .timer (g, move)).map fun time => (time, f.viewFrom layout g.scroll.value) := by
  cases move with
  | wake w =>
    have hready := (wake?_eq_some_iff.mp hstep).1
    rw [shownBy_wake hready, h.layout, hlayout]
    cases w with
    | start | spans | layout | height =>
      rw [h.idle _ rfl (by decide)] at hready
      contradiction
    | closed | scroll => rfl
    | timer => simp [Wake.recomputes, takenAt, viewFrom, h.spans, h.height]
  | spans | close | scroll | resize | layout | tick =>
    rw [shownBy_of_isOutside rfl, takenAt_of_isOutside rfl, Option.map_none]

/-- There is a layout, and nothing but changes of the position waits and happens in a run. -/
structure OnlyScrolls (f : Filter) (layout : Layout) (trace : List (Filter × Move)) : Prop where
  layout_eq : f.layout.value = some layout
  spans : f.ready .spans = false
  layout : f.ready .layout = false
  height : f.ready .height = false
  calm : ∀ entry ∈ trace, entry.2.IsCalm

theorem OnlyScrolls.undisturbed (h : OnlyScrolls f layout trace) (hready : f.ready .scroll = true)
    (hrun : Prompt (f.take .scroll) trace g) : Undisturbed f g := by
  have hcalm := h.calm
  induction hrun with
  | start =>
    have hstarted : f.ready .start = false := by
      simp only [ready, Bool.and_eq_true] at hready
      simp [ready, hready.1]
    refine ⟨rfl, rfl, rfl, ?_⟩
    intro w hrecomputes htimer
    cases w with
    | start => exact not_ready_take hstarted rfl
    | spans => exact not_ready_take h.spans rfl
    | layout => exact not_ready_take h.layout rfl
    | height => exact not_ready_take h.height rfl
    | closed | scroll | timer => contradiction
  | @move trace g next move _ _ hstep ih =>
    obtain ⟨hbefore, hmove⟩ := List.forall_mem_append.mp hcalm
    exact (ih ⟨h.layout_eq, h.spans, h.layout, h.height, hbefore⟩ hbefore).step
      (hmove _ List.mem_cons_self) hstep

/-- A change of the position is seen only by noticing it. -/
theorem scroll_of_seen (hcalm : move.IsCalm) (hstep : g.step move = some next)
    (hseen : next.scroll.unseen = false) :
    move = .wake .scroll ∨ g.scroll.unseen = false ∧ next.scroll.value = g.scroll.value := by
  cases move with
  | scroll y =>
    cases hstep
    contradiction
  | tick time =>
    cases hstep
    exact .inr ⟨hseen, rfl⟩
  | wake w =>
    obtain ⟨_, rfl⟩ := wake?_eq_some_iff.mp hstep
    cases w with
    | scroll => exact .inl rfl
    | start | spans | closed | layout | height | timer =>
      simp only [take, recompute_scroll] at hseen ⊢
      exact .inr ⟨hseen, trivial⟩
  | spans | close | resize | layout => exact hcalm.elim

/-- **One recomputation.** If nothing else happens in a burst, what is shown is shown at its
deadline, from the position at which it came to rest. -/
theorem Prompt.shown_of_onlyScrolls (hrun : Prompt (f.take .scroll) trace g)
    (hready : f.ready .scroll = true) (hburst : IsBurst f trace)
    (honly : OnlyScrolls f layout trace) :
    (shown trace).map Prod.fst = timesOf .timer trace ∧
      (g.scroll.unseen = false → shown trace =
        (timesOf .timer trace).map fun time => (time, f.viewFrom layout g.scroll.value)) := by
  induction hrun with
  | start => exact ⟨rfl, fun _ => rfl⟩
  | @move trace g next move hbefore _ hstep ih =>
    obtain ⟨hcalm, hmove⟩ := List.forall_mem_append.mp honly.calm
    have honlyBefore : OnlyScrolls f layout trace := { honly with calm := hcalm }
    obtain ⟨htimes, hshown⟩ := ih hburst.of_concat honlyBefore
    have hmoveShown : shown [(g, move)] = (timesOf .timer [(g, move)]).map fun time =>
        (time, f.viewFrom layout g.scroll.value) := by
      have hentry := (honlyBefore.undisturbed hready hbefore).shownBy_eq honly.layout_eq hstep
      cases htaken : takenAt .timer (g, move) <;> simp [shown, timesOf, hentry, htaken]
    rw [shown_append, timesOf_append, hmoveShown]
    refine ⟨?_, fun hseen => ?_⟩
    · rw [List.map_append, htimes, List.map_map]
      exact congrArg _ (List.map_id _)
    · rcases scroll_of_seen (hmove _ List.mem_cons_self) hstep hseen with rfl | ⟨hseen, hvalue⟩
      · -- The deadline has not come, so nothing was shown so far.
        have hnone := (hbefore.rests hready hburst.of_concat).timesOf_timer hburst
        rw [hnone] at htimes ⊢
        rw [List.map_eq_nil_iff.mp htimes]
        rfl
      · rw [List.map_append, hshown hseen, hvalue]

/-! ### The end of a burst -/

/-- Once a change of the position was seen, the filter by itself leaves the position as it is. -/
theorem Prompt.scroll_of_own (hrun : Prompt g later next) (hown : ∀ entry ∈ later, entry.2.IsOwn)
    (hseen : g.scroll.unseen = false) :
    timesOf .scroll later = [] ∧ next.scroll = g.scroll := by
  induction hrun with
  | start => exact ⟨rfl, rfl⟩
  | @move trace h next move _ _ hstep ih =>
    obtain ⟨hbefore, hmove⟩ := List.forall_mem_append.mp hown
    obtain ⟨hnone, hscroll⟩ := ih hbefore
    have hmove := hmove _ List.mem_cons_self
    cases move with
    | tick time =>
      cases hstep
      exact ⟨(timesOf_of_none rfl).trans hnone, hscroll⟩
    | wake w =>
      obtain ⟨hready, rfl⟩ := wake?_eq_some_iff.mp hstep
      cases w with
      | scroll => simp [ready, hscroll, hseen] at hready
      | start | spans | closed | layout | height | timer =>
        refine ⟨(timesOf_of_none (takenAt_of_ne (by decide))).trans hnone, ?_⟩
        simpa [take] using hscroll
    | spans | close | scroll | resize | layout => exact hmove.elim

theorem Move.IsOwn.isCalm (h : move.IsOwn) : move.IsCalm := by
  cases move with
  | tick | wake => trivial
  | spans | close | scroll | resize | layout => exact h.elim

/-- **A burst of changes of the position is shown once.** Changes of the position follow each other,
each noticed before the one before it has rested long enough, while anything else may happen. The
deadline is always that of the last change, whatever is recomputed meanwhile; it is taken up once,
and at no other time than when it comes. Every recomputation uses the newest values, those for other
reasons the newest position as well. If there is a layout and nothing else happens, what is shown is
what is shown at the deadline, from the last position. And once the last change was noticed, the
filter gets past the deadline by itself. -/
theorem burst_is_shown_once (hready : f.ready .scroll = true)
    (hrun : Prompt (f.take .scroll) trace g) (hburst : IsBurst f trace) :
    Stands (dueAfter f trace) trace g ∧
    (∀ w, g.ready w = true → g.shownBy (.wake w) = if w.recomputes then
      g.layout.value.map fun layout =>
        (g.now, g.viewFrom layout ((positions trace).getLastD f.scroll.value)) else none) ∧
    (∀ layout, OnlyScrolls f layout trace →
      (shown trace).map Prod.fst = timesOf .timer trace ∧
      (g.scroll.unseen = false → shown trace = (timesOf .timer trace).map fun time =>
        (time, f.viewFrom layout ((positions trace).getLastD f.scroll.value)))) ∧
    (g.scroll.unseen = false → ∀ time, dueAfter f trace ≤ g.now + time →
      ∃ later, Prompt (f.take .scroll) (trace ++ later) (g.advance time) ∧
        (∀ entry ∈ later, entry.2.IsOwn) ∧ timesOf .scroll later = [] ∧
        timesOf .timer (trace ++ later) = [dueAfter f trace] ∧
        ∀ layout, OnlyScrolls f layout trace → shown (trace ++ later) = [(dueAfter f trace,
          f.viewFrom layout ((positions trace).getLastD f.scroll.value))]) := by
  refine ⟨(hrun.rests hready hburst).stands, ?_, ?_, ?_⟩
  · intro w hw
    rw [shownBy_wake hw, hrun.scroll_value]
  · intro layout honly
    rw [← hrun.scroll_value]
    exact hrun.shown_of_onlyScrolls hready hburst honly
  · intro hseen time hle
    obtain ⟨later, hlater, hown⟩ := GetsTo.advance g time
    obtain ⟨hnone, hscroll⟩ := hlater.scroll_of_own hown hseen
    have hall := hrun.trans hlater
    -- The rest of the run notices no change, so it belongs to the same burst.
    have hsame : timesOf .scroll (trace ++ later) = timesOf .scroll trace := by
      rw [timesOf_append, hnone, List.append_nil]
    have hburstAll : IsBurst f (trace ++ later) := by
      rwa [IsBurst, hsame]
    have hdue : dueAfter f (trace ++ later) = dueAfter f trace := by
      rw [dueAfter, lastNoticed, hsame, dueAfter, lastNoticed]
    have htimer : timesOf .timer (trace ++ later) = [dueAfter f trace] := by
      have hstands := (hall.rests hready hburstAll).stands
      rw [hdue] at hstands
      cases hstands with
      | ahead _ hdeadline _ =>
        exact absurd (now_lt_of_deadline_advance hdeadline) (Nat.not_lt_of_le hle)
      | past hone _ _ => exact hone
    refine ⟨later, hall, hown, hnone, htimer, ?_⟩
    intro layout honly
    have honlyAll : OnlyScrolls f layout (trace ++ later) :=
      { honly with calm := List.forall_mem_append.mpr ⟨honly.calm, fun e he => (hown e he).isCalm⟩ }
    have hshown := (hall.shown_of_onlyScrolls hready hburstAll honlyAll).2 (by rwa [hscroll])
    rw [hshown, htimer, hscroll, hrun.scroll_value]
    rfl

/-- The window moves, and again while the first move waits, and rests then. -/
theorem burst_is_shown_once_of_two_moves :
    let style : Style := .plain ⟨0, 0, 0⟩
    let layout : Layout := ⟨fun _ => 0, fun _ => 0, fun _ => 5⟩
    let f : Filter := { watching [⟨style, 3, 4⟩, ⟨style, 7, 9⟩] 16 with
      scroll := ⟨1, true⟩, layout := ⟨some layout, false⟩, started := true }
    let noticed := f.take .scroll
    let moved := (noticed.atTime 10).scrollTo 2
    let rested := (moved.take .scroll).atTime 26
    let trace := [(noticed, .tick 10), (noticed.atTime 10, .scroll 2), (moved, .wake .scroll),
      (moved.take .scroll, .tick 16), (rested, .wake .timer)]
    f.ready .scroll = true ∧ Prompt noticed trace (rested.take .timer) ∧ IsBurst f trace ∧
      OnlyScrolls f layout trace ∧ dueAfter f trace = 26 ∧
      shown trace = [(26, f.viewFrom layout 2)] := by
  intro style layout f noticed moved rested trace
  have hready : f.ready .scroll = true := rfl
  have hrun : Prompt noticed trace (rested.take .timer) := by
    have hfirst : noticed.MayWait 10 := by
      refine ⟨fun w => by cases w <;> rfl, ?_⟩
      rintro _ ⟨⟩
      decide
    have hlast : (moved.take .scroll).MayWait 16 := by
      refine ⟨fun w => by cases w <;> rfl, ?_⟩
      rintro _ ⟨⟩
      decide
    exact ((((Prompt.start.move (.tick 10) hfirst rfl).move (.scroll 2) trivial rfl).move
      (.wake .scroll) trivial rfl).move (.tick 16) hlast rfl).move (.wake .timer) trivial rfl
  have hburst : IsBurst f trace := by
    have htimes : timesOf .scroll trace = [10] := rfl
    rw [IsBurst, htimes]
    exact List.isChain_pair.mpr (by decide)
  have honly : OnlyScrolls f layout trace := by
    refine ⟨rfl, rfl, rfl, rfl, ?_⟩
    simp [trace, Move.IsCalm]
  obtain ⟨_, _, hshown, _⟩ := burst_is_shown_once hready hrun hburst
  exact ⟨hready, hrun, hburst, honly, rfl, (hshown layout honly).2 rfl⟩

end Retint.Filter
