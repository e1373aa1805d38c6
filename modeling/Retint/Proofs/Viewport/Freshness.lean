import Retint.Proofs.Viewport.Newest

/-!
# A filter that is never left behind

Every change of what a filter shows from leaves a trace until the filter has shown it: a change that
was not seen yet, a deadline, or a recomputation that is due. So once no trace is left, the visible
spans are those that the newest values say, and while there is no layout nothing is shown at all.

The filter notices a change and recomputes in two turns here, and between them anything may change.
A filter that takes both at once is one that is never interrupted there.
-/

namespace Retint.Filter

/-- The filter after noticing what it takes up, before it recomputes. -/
def notice (f : Filter) : Wake → Filter
  | .start => { f with started := true }
  | .spans => { f with spans := f.spans.seen }
  | .closed => { f with listening := false }
  | .layout => { f with layout := f.layout.seen }
  | .height => { f with height := f.height.seen }
  | .scroll => { f with scroll := f.scroll.seen, deadline := some (f.now + f.debounce) }
  | .timer => { f with deadline := none }

/-- Whether the filter recomputes when it takes something up. A change of position only sets the
deadline. -/
def Wake.recomputes : Wake → Bool
  | .closed | .scroll => false
  | .start | .spans | .layout | .height | .timer => true

/-- Taking something up is noticing it and then recomputing, if there is reason to. -/
theorem take_eq_notice (f : Filter) (w : Wake) :
    f.take w = if w.recomputes then (f.notice w).recompute else f.notice w := by
  cases w <;> rfl

@[simp] theorem notice_visible (f : Filter) (w : Wake) : (f.notice w).visible = f.visible := by
  cases w <;> rfl

@[simp] theorem notice_publications (f : Filter) (w : Wake) :
    (f.notice w).publications = f.publications := by
  cases w <;> rfl

/-- Noticing something changes no value. -/
theorem notice_values (f : Filter) (w : Wake) :
    (f.notice w).spans.value = f.spans.value ∧ (f.notice w).scroll.value = f.scroll.value ∧
      (f.notice w).height.value = f.height.value ∧
      (f.notice w).layout.value = f.layout.value := by
  cases w <;> exact ⟨rfl, rfl, rfl, rfl⟩

/-- One turn of a filter of which it is known whether a recomputation is due, with the move from
outside that it makes, if it makes one. -/
inductive Turn : Filter → Bool → List Move → Filter → Bool → Prop where
  /-- Something changes, or time passes. -/
  | outside {f next : Filter} {due : Bool} (move : Move) :
      move.isOutside = true → f.step move = some next → Turn f due [move] next due
  /-- The filter notices something. -/
  | notice {f : Filter} (w : Wake) : f.ready w = true → Turn f false [] (f.notice w) w.recomputes
  /-- The filter recomputes. -/
  | recompute {f : Filter} : Turn f true [] f.recompute false

/-- The filters that some turns lead to, with the moves from outside among these and whether a
recomputation is due. -/
inductive Interleaved (spans : List Span) (debounce : Nat) :
    List Move → Filter → Bool → Prop where
  /-- The filter has not begun to run. -/
  | watching : Interleaved spans debounce [] (.watching spans debounce) false
  /-- One more turn was made. -/
  | turn {told more : List Move} {f next : Filter} {due later : Bool} :
      Interleaved spans debounce told f due → Turn f due more next later →
      Interleaved spans debounce (told ++ more) next later

/-- Whether some change has not been shown yet: it was not seen, or its deadline has not come. -/
def awaits (f : Filter) : Bool :=
  f.spans.unseen || f.scroll.unseen || f.height.unseen || f.layout.unseen || f.deadline.isSome

/-- If there is a layout, the filter shows what the newest values say. -/
def IsCurrent (f : Filter) : Prop :=
  ∀ layout, f.layout.value = some layout → f.visible = f.view layout

/-- A filter that waits no longer for spans has seen all that could come. -/
def HasHeardAll (f : Filter) : Prop :=
  f.listening = false → f.sourceOpen = false ∧ f.spans.unseen = false

variable {spans : List Span} {debounce : Nat} {f next : Filter} {due : Bool}
  {told more moves : List Move} {move : Move} {layout : Layout}

theorem recompute_of_none (h : f.layout.value = none) : f.recompute = f := by
  simp only [recompute, h]

theorem recompute_of_layout (h : f.layout.value = some layout) :
    f.recompute = { f with visible := f.view layout, publications := f.publications + 1 } := by
  simp only [recompute, h]

/-- A recomputation shows what the newest values say. -/
theorem isCurrent_recompute (f : Filter) : f.recompute.IsCurrent := by
  cases hvalue : f.layout.value with
  | none =>
    rw [recompute_of_none hvalue]
    intro layout hlayout
    rw [hvalue] at hlayout
    contradiction
  | some layout =>
    rw [recompute_of_layout hvalue]
    intro other hother
    have heq : layout = other := Option.some.inj (hvalue.symm.trans hother)
    rw [← heq]
    rfl

theorem hasHeardAll_recompute (h : f.HasHeardAll) : f.recompute.HasHeardAll := by
  cases hvalue : f.layout.value with
  | none => rwa [recompute_of_none hvalue]
  | some layout =>
    rw [recompute_of_layout hvalue]
    exact h

/-- A recomputation is due, or some change still waits, or the filter is current; and so it is after
every turn. -/
theorem Turn.tracked {later : Bool} (ht : Turn f due more next later)
    (h : due = true ∨ f.awaits = true ∨ f.IsCurrent) :
    later = true ∨ next.awaits = true ∨ next.IsCurrent := by
  cases ht with
  | recompute => exact .inr (.inr (isCurrent_recompute _))
  | outside move houtside hstep =>
    cases move with
    | wake w => contradiction
    | spans new =>
      cases hstep
      unfold putSpans
      split
      · exact .inr (.inl (by simp [awaits, Watched.put]))
      · exact h
    | scroll y =>
      cases hstep
      exact .inr (.inl (by simp [awaits, scrollTo, Watched.put]))
    | resize height =>
      cases hstep
      exact .inr (.inl (by simp [awaits, Filter.resize, Watched.put]))
    | layout layout =>
      cases hstep
      exact .inr (.inl (by simp [awaits, setLayout, Watched.put]))
    | close | tick time =>
      -- Neither what is shown nor what it is shown from is touched.
      cases hstep
      exact h
  | notice w hready =>
    cases w with
    | closed => exact h
    | scroll => exact .inr (.inl (by simp [awaits, Filter.notice]))
    | start | spans | layout | height | timer => exact .inl rfl

/-- **Nothing is lost.** At any time a recomputation is due, or some change still waits, or the
filter is current. -/
theorem Interleaved.tracked (h : Interleaved spans debounce told f due) :
    due = true ∨ f.awaits = true ∨ f.IsCurrent := by
  induction h with
  | watching => exact .inr (.inr nofun)
  | turn _ ht ih => exact ht.tracked ih

theorem Turn.hasHeardAll {later : Bool} (ht : Turn f due more next later) (h : f.HasHeardAll) :
    next.HasHeardAll := by
  cases ht with
  | recompute => exact hasHeardAll_recompute h
  | outside move houtside hstep =>
    cases move with
    | wake w => contradiction
    | spans new =>
      cases hstep
      unfold putSpans
      split
      · rename_i hopen
        intro hlistening
        have hclosed := (h hlistening).1
        rw [hopen] at hclosed
        contradiction
      · exact h
    | close =>
      cases hstep
      intro hlistening
      exact ⟨rfl, (h hlistening).2⟩
    | scroll | resize | layout | tick =>
      cases hstep
      exact h
  | notice w hready =>
    cases w with
    | spans =>
      simp only [ready, Bool.and_eq_true] at hready
      intro hlistening
      have hstill : f.listening = false := hlistening
      rw [hstill] at hready
      simp at hready
    | closed =>
      simp only [ready, Bool.and_eq_true, Bool.not_eq_true'] at hready
      intro _
      exact ⟨hready.2, hready.1.2⟩
    | start | scroll | layout | height | timer => exact h

theorem Interleaved.hasHeardAll (h : Interleaved spans debounce told f due) : f.HasHeardAll := by
  induction h with
  | watching => simp [HasHeardAll, Filter.watching]
  | turn _ ht ih => exact ht.hasHeardAll ih

/-- Noticing something and recomputing at once are two turns, or one if there is no reason to
recompute. -/
theorem Interleaved.wake {w : Wake} (h : Interleaved spans debounce told f false)
    (hwake : f.wake? w = some next) : Interleaved spans debounce told next false := by
  unfold wake? at hwake
  split at hwake
  · rename_i hready
    cases hwake
    have hnotice := h.turn (.notice w hready)
    rw [List.append_nil] at hnotice
    rw [take_eq_notice]
    split
    · rename_i hrecomputes
      rw [hrecomputes] at hnotice
      have hrecompute := hnotice.turn .recompute
      rwa [List.append_nil] at hrecompute
    · rename_i hrecomputes
      rw [Bool.not_eq_true] at hrecomputes
      rwa [hrecomputes] at hnotice
  · contradiction

/-- A filter that takes things up at once is one of those that may be interrupted. -/
theorem Interleaved.run (h : Interleaved spans debounce told f false)
    (hrun : f.run moves = some next) :
    Interleaved spans debounce (told ++ moves.filter Move.isOutside) next false := by
  induction moves generalizing told f with
  | nil =>
    cases hrun
    rwa [List.filter_nil, List.append_nil]
  | cons move later ih =>
    obtain ⟨after, hstep, hlater⟩ := Option.bind_eq_some_iff.mp hrun
    cases move with
    | wake w => exact ih (h.wake hstep) hlater
    | spans | close | scroll | resize | layout | tick =>
      have hrest := ih (h.turn (.outside _ rfl hstep)) hlater
      rwa [List.append_assoc] at hrest

/-- A turn keeps what the filter knows, and adds to it what it is told. -/
theorem Turn.knows {later : Bool} (ht : Turn f due more next later) (h : Knows spans told f) :
    Knows spans (told ++ more) next := by
  cases ht with
  | outside move houtside hstep => exact h.step hstep
  | notice w hready =>
    obtain ⟨hspans, hscroll, hheight, hlayout⟩ := notice_values f w
    rw [List.append_nil]
    exact h.keep (by cases w <;> rfl) hspans hscroll hheight hlayout
  | recompute =>
    rw [List.append_nil]
    exact h.keep (by simp) (by simp) (by simp) (by simp) (by simp)

/-- However the turns interleave, the values of a filter are those that it was told last. -/
theorem Interleaved.knows (h : Interleaved spans debounce told f due) : Knows spans told f := by
  induction h with
  | watching => exact knows_watching spans debounce
  | turn _ ht ih => exact ht.knows ih

/-- A filter with nothing to take up and no deadline has seen every change. -/
theorem awaits_eq_false_of_isQuiet (hheard : f.HasHeardAll) (hquiet : f.isQuiet = true) :
    f.awaits = false := by
  simp only [isQuiet, Wake.all, List.any_cons, List.any_nil, Bool.or_false, Bool.and_eq_true,
    Bool.not_eq_true', Bool.or_eq_false_iff, Option.isNone_iff_eq_none] at hquiet
  obtain ⟨⟨hstart, hspans, _, hlayout, hheight, hscroll, _⟩, hdeadline⟩ := hquiet
  have hstarted : f.started = true := by simpa [ready] using hstart
  simp only [ready, hstarted, Bool.true_and] at hspans hlayout hheight hscroll
  have hseen : f.spans.unseen = false := by
    by_cases hlistening : f.listening = true
    · simpa [hlistening] using hspans
    · exact (hheard (by simpa using hlistening)).2
  simp [awaits, hseen, hlayout, hheight, hscroll, hdeadline]

/-- What happens outside shows nothing. -/
theorem shown_of_isOutside (houtside : move.isOutside = true) (hstep : f.step move = some next) :
    next.publications = f.publications ∧ next.visible = f.visible := by
  cases move with
  | wake w => contradiction
  | spans new =>
    cases hstep
    unfold putSpans
    split <;> exact ⟨rfl, rfl⟩
  | close | scroll | resize | layout | tick =>
    cases hstep
    exact ⟨rfl, rfl⟩

/-- A turn in which a set of spans is shown shows what the newest values say on the layout. -/
theorem Turn.view_of_shown {later : Bool} (ht : Turn f due more next later)
    (hshown : next.publications ≠ f.publications ∨ next.visible ≠ f.visible) :
    ∃ layout, f.layout.value = some layout ∧ next.visible = f.view layout := by
  cases ht with
  | outside move houtside hstep =>
    obtain ⟨hpublications, hvisible⟩ := shown_of_isOutside houtside hstep
    rcases hshown with hshown | hshown
    · exact absurd hpublications hshown
    · exact absurd hvisible hshown
  | notice => simp at hshown
  | recompute =>
    cases hvalue : f.layout.value with
    | none =>
      rw [recompute_of_none hvalue] at hshown
      simp at hshown
    | some layout =>
      rw [recompute_of_layout hvalue]
      exact ⟨layout, rfl, rfl⟩

/-- **The viewport is never left stale.** However the changes of the spans, the position, the height
and the layout interleave with the turns of the filter, those of a run of moves among them: when it
has seen every change, no deadline is set and no recomputation is due, it shows what the last of
these changes say on the layout that was told last, unless that was withdrawn or there never was
one. It comes to that, since a filter with nothing to take up and no deadline has seen every change.
And whatever a turn shows was computed from the last of the changes so far on a layout, so that
without a layout nothing new is shown. -/
theorem visible_is_current (spans : List Span) (debounce : Nat) :
    (∀ moves f, (watching spans debounce).run moves = some f →
      Interleaved spans debounce (moves.filter Move.isOutside) f false) ∧
    (∀ told f, Interleaved spans debounce told f false →
      f.spans.unseen = false → f.scroll.unseen = false → f.height.unseen = false →
      f.layout.unseen = false → f.deadline = none →
      ∀ layout, newest Move.layout? none told = some layout →
        f.visible = Span.within (newest Move.spans? spans (beforeClose told))
          (Window.bytes ⟨newest Move.position? 0 told, newest Move.height? 0 told⟩ layout)) ∧
    (∀ told f, Interleaved spans debounce told f false → f.isQuiet = true →
      f.spans.unseen = false ∧ f.scroll.unseen = false ∧ f.height.unseen = false ∧
        f.layout.unseen = false ∧ f.deadline = none) ∧
    ∀ told f due more next later, Interleaved spans debounce told f due →
      Turn f due more next later →
      next.publications ≠ f.publications ∨ next.visible ≠ f.visible →
      ∃ layout, newest Move.layout? none told = some layout ∧
        next.visible = Span.within (newest Move.spans? spans (beforeClose told))
          (Window.bytes ⟨newest Move.position? 0 told, newest Move.height? 0 told⟩ layout) := by
  refine ⟨?_, ?_, ?_, ?_⟩
  · intro moves f hrun
    exact Interleaved.watching.run hrun
  · intro told f h hspans hscroll hheight hlayout hdeadline layout hnewest
    rcases h.tracked with hdue | hawaits | hcurrent
    · contradiction
    · simp [awaits, hspans, hscroll, hheight, hlayout, hdeadline] at hawaits
    · rw [hcurrent layout (h.knows.layout.trans hnewest)]
      exact h.knows.view_eq layout
  · intro told f h hquiet
    simpa [awaits, and_assoc] using awaits_eq_false_of_isQuiet h.hasHeardAll hquiet
  · intro told f due more next later h ht hshown
    obtain ⟨layout, hvalue, hvisible⟩ := ht.view_of_shown hshown
    refine ⟨layout, h.knows.layout.symm.trans hvalue, ?_⟩
    rw [hvisible]
    exact h.knows.view_eq layout

/-- The layout is withdrawn while a change of the position waits, the window is made higher, and the
layout comes back together with the last spans of a source that then goes away. The first line, on
which the window stands, has five bytes, and so has the second one, to which it reaches. -/
theorem visible_is_current_after_return :
    let style : Style := .plain ⟨0, 0, 0⟩
    let layout : Layout :=
      ⟨fun y => if y < 10 then 0 else 1, fun line => 5 * line, fun line => 5 * line + 5⟩
    let last : List Span := [⟨style, 3, 4⟩, ⟨style, 7, 9⟩, ⟨style, 12, 14⟩]
    let moves := [.wake .start, .layout (some layout), .wake .layout, .scroll 1, .layout none,
      .wake .scroll, .wake .layout, .resize 12, .tick 20, .wake .timer, .wake .height,
      .layout (some layout), .spans last, .close, .wake .spans, .wake .closed, .wake .layout]
    let told := [.layout (some layout), .scroll 1, .layout none, .resize 12, .tick 20,
      .layout (some layout), .spans last, .close]
    let f : Filter := {
      spans := ⟨last, false⟩
      scroll := ⟨1, false⟩
      height := ⟨12, false⟩
      layout := ⟨some layout, false⟩
      sourceOpen := false
      listening := false
      debounce := 16
      now := 20
      deadline := none
      started := true
      visible := Span.within last (Window.bytes ⟨1, 12⟩ layout)
      publications := 3 }
    (watching [] 16).run moves = some f ∧ Interleaved [] 16 told f false ∧ f.isQuiet = true ∧
      newest Move.layout? none told = some layout ∧
      f.visible = Span.within (newest Move.spans? [] (beforeClose told))
        (Window.bytes ⟨newest Move.position? 0 told, newest Move.height? 0 told⟩ layout) ∧
      f.visible = [⟨style, 3, 4⟩, ⟨style, 7, 9⟩] := by
  intro style layout last moves told f
  have hrun : (watching [] 16).run moves = some f := rfl
  have hquiet : f.isQuiet = true := rfl
  obtain ⟨hruns, hcurrent, hseen, _⟩ := visible_is_current [] 16
  have h : Interleaved [] 16 told f false := hruns moves f hrun
  obtain ⟨hspans, hscroll, hheight, hlayout, hdeadline⟩ := hseen told f h hquiet
  have hvisible := hcurrent told f h hspans hscroll hheight hlayout hdeadline layout rfl
  exact ⟨hrun, h, hquiet, rfl, hvisible, by decide⟩

end Retint.Filter
