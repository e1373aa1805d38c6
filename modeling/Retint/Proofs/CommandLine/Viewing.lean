import Retint.CommandLine.Program
import Retint.Proofs.Pipeline.Served
import Retint.Proofs.Viewport.Reading

/-!
# The spans that the program prints

Once the pipeline has published something, the program starts a filter, tells it the height, the
position and the layout, and prints the first spans that the filter shows, or later ones. Meanwhile
the filter runs: it may begin before, between or after these calls, and any of them may come while a
recomputation is under way. The layout is told last, and a recomputation reads it first. So a filter
that has found a layout reads a height and a position that do not change any more.
-/

namespace Retint.Program.Job

open Retint.Filter (Reading Beat)

/-- The spans on the window of a job. -/
def view (job : Job) (spans : List Span) : List Span :=
  Span.within spans (job.window.bytes job.layout.toLayout)

/-- What may be true while the program tells a filter about its window: the calls that are left, the
filter, and how far it has got with a recomputation. -/
inductive Viewing (job : Job) (spans : List Span) :
    List Filter.Move → Filter → Reading → Prop where
  /-- The filter was made. It may take the spans of the pipeline for new or for seen. -/
  | made (unseen : Bool) : Viewing job spans job.moves
      { job.filter spans with spans := ⟨spans, unseen⟩ } .idle
  /-- The program makes the next call. -/
  | call {move : Filter.Move} {later : List Filter.Move} {f next : Filter} {reading : Reading} :
      Viewing job spans (move :: later) f reading → f.step move = some next →
      Viewing job spans later next reading
  /-- Time passes. -/
  | tick {calls : List Filter.Move} {f next : Filter} {reading : Reading} (time : Nat) :
      Viewing job spans calls f reading → f.step (.tick time) = some next →
      Viewing job spans calls next reading
  /-- The filter does something. -/
  | beat {calls : List Filter.Move} {f next : Filter} {reading after : Reading} :
      Viewing job spans calls f reading → Beat f reading next after →
      Viewing job spans calls next after

/-- What a filter was told, by the calls that are left. -/
inductive Told (job : Job) (f : Filter) : List Filter.Move → Prop where
  /-- Nothing. -/
  | nothing : f.layout.value = none → Told job f job.moves
  /-- The height. -/
  | height : f.height.value = job.window.height → f.layout.value = none →
      Told job f [.scroll job.window.scroll, .layout (some job.layout.toLayout)]
  /-- The height and the position. -/
  | scroll : f.height.value = job.window.height → f.scroll.value = job.window.scroll →
      f.layout.value = none → Told job f [.layout (some job.layout.toLayout)]
  /-- Everything. -/
  | layout : f.height.value = job.window.height → f.scroll.value = job.window.scroll →
      f.layout.value = some job.layout.toLayout → Told job f []

/-- What a recomputation has read is what the filter was told in the end. -/
def Reads (job : Job) (spans : List Span) : Reading → Prop
  | .idle | .due => True
  | .layout layout => layout = job.layout.toLayout
  | .scroll layout scroll => layout = job.layout.toLayout ∧ scroll = job.window.scroll
  | .window layout window => layout = job.layout.toLayout ∧ window = job.window
  | .visible visible => visible = job.view spans

/-- What holds throughout. -/
structure Tracked (job : Job) (spans : List Span) (calls : List Filter.Move) (f : Filter)
    (reading : Reading) : Prop where
  /-- The spans are those of the pipeline. -/
  source : f.spans.value = spans
  /-- The filter was told what the program has said. -/
  told : Told job f calls
  /-- A recomputation that has found a layout is one after the last call. -/
  ended : calls = [] ∨ reading = .idle ∨ reading = .due
  /-- It has read nothing else than what the program said. -/
  reads : Reads job spans reading
  /-- What is shown is right. -/
  shown : f.publications ≠ 0 → f.visible = job.view spans
  /-- After the last call something will be shown, or it was. -/
  awaits : calls = [] → f.layout.unseen = true ∨ reading ≠ .idle ∨ f.publications ≠ 0

variable {job : Job} {spans : List Span} {calls : List Filter.Move} {f next : Filter}
  {reading after : Reading}

/-- What a filter was told is kept by whatever leaves its inputs as they are. -/
theorem Told.of_values (h : Told job f calls) (hscroll : next.scroll.value = f.scroll.value)
    (hheight : next.height.value = f.height.value) (hlayout : next.layout.value = f.layout.value) :
    Told job next calls := by
  cases h with
  | nothing h => exact .nothing (hlayout.trans h)
  | height h h' => exact .height (hheight.trans h) (hlayout.trans h')
  | scroll h h' h'' => exact .scroll (hheight.trans h) (hscroll.trans h') (hlayout.trans h'')
  | layout h h' h'' => exact .layout (hheight.trans h) (hscroll.trans h') (hlayout.trans h'')

/-- Only a filter that was told everything has a layout. -/
theorem Told.of_layout (h : Told job f calls) {layout : Layout}
    (hlayout : f.layout.value = some layout) :
    calls = [] ∧ layout = job.layout.toLayout := by
  cases h with
  | nothing h | height _ h | scroll _ _ h => simp [h] at hlayout
  | layout _ _ h => exact ⟨rfl, Option.some.inj (hlayout.symm.trans h)⟩

/-- A filter that was told everything has the window. -/
theorem Told.window_eq (h : Told job f []) :
    f.scroll.value = job.window.scroll ∧ f.height.value = job.window.height := by
  cases h with
  | layout hheight hscroll _ => exact ⟨hscroll, hheight⟩

theorem tracked_of_made (unseen : Bool) :
    Tracked job spans job.moves { job.filter spans with spans := ⟨spans, unseen⟩ } .idle where
  source := rfl
  told := .nothing rfl
  ended := .inr (.inl rfl)
  reads := trivial
  shown h := absurd rfl h
  awaits := nofun

/-- The next call tells the filter something more and shows nothing. -/
theorem Tracked.call {move : Filter.Move} {later : List Filter.Move}
    (h : Tracked job spans (move :: later) f reading) (hstep : f.step move = some next) :
    Tracked job spans later next reading := by
  have htold := h.told
  have hended : later = [] ∨ reading = .idle ∨ reading = .due :=
    .inr (h.ended.resolve_left (List.cons_ne_nil _ _))
  cases htold with
  | nothing hlayout =>
    cases hstep
    exact ⟨h.source, .height rfl hlayout, hended, h.reads, h.shown, nofun⟩
  | height hheight hlayout =>
    cases hstep
    exact ⟨h.source, .scroll hheight rfl hlayout, hended, h.reads, h.shown, nofun⟩
  | scroll hheight hscroll =>
    cases hstep
    exact ⟨h.source, .layout hheight hscroll rfl, hended, h.reads, h.shown, fun _ => .inl rfl⟩

/-- While time passes everything stays. -/
theorem Tracked.tick {time : Nat} (h : Tracked job spans calls f reading)
    (hstep : f.step (.tick time) = some next) : Tracked job spans calls next reading := by
  cases hstep
  exact ⟨h.source, h.told.of_values rfl rfl rfl, h.ended, h.reads, h.shown, h.awaits⟩

/-- Noticing something makes a recomputation due or leaves the layout to be noticed. -/
theorem Tracked.notice (h : Tracked job spans calls f .idle) (w : Filter.Wake) :
    Tracked job spans calls (f.notice w) (if w.recomputes then .due else .idle) := by
  obtain ⟨hspans, hscroll, hheight, hlayout⟩ := Filter.notice_values f w
  refine ⟨hspans.trans h.source, h.told.of_values hscroll hheight hlayout, ?_, ?_, ?_, ?_⟩
  · split <;> simp
  · split <;> trivial
  · rw [Filter.notice_publications, Filter.notice_visible]
    exact h.shown
  · intro hcalls
    rw [Filter.notice_publications]
    cases w with
    | closed | scroll => exact h.awaits hcalls
    | start | spans | layout | height | timer => exact .inr (.inl nofun)

/-- Going on with a recomputation reads what the program said, and shows what is right. -/
theorem Tracked.proceed (h : Tracked job spans calls f reading) :
    Tracked job spans calls (f.proceed reading).1 (f.proceed reading).2 := by
  cases reading with
  | idle => exact h
  | due =>
    cases hlayout : f.layout.value with
    | none =>
      rw [Filter.proceed_due_of_none hlayout]
      refine ⟨h.source, h.told, .inr (.inl rfl), trivial, h.shown, fun hcalls => ?_⟩
      -- After the last call there is a layout.
      have htold := h.told
      rw [hcalls] at htold
      cases htold with
      | layout _ _ hsome => simp [hlayout] at hsome
    | some layout =>
      rw [Filter.proceed_due_of_layout hlayout]
      obtain ⟨hcalls, heq⟩ := h.told.of_layout hlayout
      exact ⟨h.source, h.told, .inl hcalls, heq, h.shown, fun _ => .inr (.inl nofun)⟩
  | layout layout =>
    obtain rfl : calls = [] := h.ended.resolve_right nofun
    exact ⟨h.source, h.told, .inl rfl, ⟨h.reads, h.told.window_eq.1⟩, h.shown,
      fun _ => .inr (.inl nofun)⟩
  | scroll layout scroll =>
    obtain rfl : calls = [] := h.ended.resolve_right nofun
    obtain ⟨hlayout, hscroll⟩ := h.reads
    refine ⟨h.source, h.told, .inl rfl, ⟨hlayout, ?_⟩, h.shown, fun _ => .inr (.inl nofun)⟩
    rw [hscroll, h.told.window_eq.2]
  | window layout window =>
    have hcalls := h.ended.resolve_right nofun
    obtain ⟨hlayout, hwindow⟩ := h.reads
    refine ⟨h.source, h.told, .inl hcalls, ?_, h.shown, fun _ => .inr (.inl nofun)⟩
    show Span.within f.spans.value (window.bytes layout) = job.view spans
    rw [h.source, hlayout, hwindow]
    rfl
  | visible visible =>
    exact ⟨h.source, h.told.of_values rfl rfl rfl, .inr (.inl rfl), trivial, fun _ => h.reads,
      fun _ => .inr (.inr (Nat.succ_ne_zero _))⟩

/-- Whatever is called and done, what is shown stays right. -/
theorem Viewing.tracked (h : Viewing job spans calls f reading) :
    Tracked job spans calls f reading := by
  induction h with
  | made unseen => exact tracked_of_made unseen
  | call _ hstep ih => exact ih.call hstep
  | tick _ _ hstep ih => exact ih.tick hstep
  | beat _ hbeat ih =>
    cases hbeat with
    | notice w hready => exact ih.notice w
    | proceed => exact ih.proceed

/-- After the last call a filter that has seen the layout and is idle has shown something. -/
theorem Viewing.shown_of_seen (h : Viewing job spans [] f .idle) (hseen : f.layout.unseen = false) :
    f.publications ≠ 0 := by
  rcases h.tracked.awaits rfl with hunseen | hreading | hshown
  · rw [hseen] at hunseen
    contradiction
  · exact absurd rfl hreading
  · exact hshown

/-- A filter with nothing to take up has seen the layout. -/
theorem Viewing.shown_of_ready (h : Viewing job spans [] f .idle)
    (hready : ∀ w, f.ready w = false) : f.publications ≠ 0 := by
  have hstarted : f.started = true := by simpa [Filter.ready] using hready .start
  exact h.shown_of_seen (by simpa [Filter.ready, hstarted] using hready .layout)

/-- The program's own filter is told everything before it begins to run and then takes up all that
is waiting, and so it shows the spans on the window. -/
theorem visible?_eq (job : Job) (spans : List Span) :
    job.visible? spans = some (job.view spans) := by
  let told := (((job.filter spans).resize job.window.height).scrollTo job.window.scroll).setLayout
    (some job.layout.toLayout)
  have hrun : (job.filter spans).run job.moves = some told := rfl
  have hmade : Viewing job spans job.moves (job.filter spans) .idle := .made false
  have htold : Viewing job spans [] told .idle := ((hmade.call rfl).call rfl).call rfl
  have hsettled : Viewing job spans [] told.settle .idle :=
    Filter.settle_of_beat (fun _ _ _ _ h hbeat => h.beat hbeat) htold
  have hshown : told.settle.publications ≠ 0 :=
    hsettled.shown_of_seen (Filter.layout_seen_settle told)
  unfold visible?
  rw [hrun]
  simp only [Option.bind_eq_bind, Option.bind_some, if_neg hshown, hsettled.tracked.shown hshown]

/-- **The program prints the spans on its window, however the filter interleaves with its calls.**
Once the pipeline has published something it publishes nothing else, since the owner is silent. From
then on, in whichever order the calls are made and the filter begins to run, notices changes and
goes through its recomputations: all that is ever shown are the spans of the pipeline on the window
of the job, and when the calls are made and the filter has nothing to do, they are shown. The
program itself makes one of these runs. -/
theorem printed_spans_are_on_window (job : Job) {palette : Palette} {past : List Pipeline.Step}
    {p : Pipeline} (h : Pipeline.History palette job.language job.source past p)
    (hsilent : ∀ s ∈ past, s.move.isOwner = false) (hpublished : p.publishedRevision ≠ 0) :
    (∀ move : Pipeline.Move, move.isOwner = false → p.step palette move = none) ∧
    (∀ calls f reading, job.Viewing p.published calls f reading →
      (f.publications ≠ 0 → f.visible = Span.within p.published (Window.bytes
        ⟨job.arguments.scroll, job.arguments.height.getD job.layout.contentHeight⟩
        job.layout.toLayout)) ∧
      (calls = [] → reading = .idle → (∀ w, f.ready w = false) → f.publications ≠ 0)) ∧
    job.visible? p.published = some (Span.within p.published (Window.bytes
      ⟨job.arguments.scroll, job.arguments.height.getD job.layout.contentHeight⟩
      job.layout.toLayout)) := by
  refine ⟨?_, ?_, job.visible?_eq p.published⟩
  · intro move howner
    exact Pipeline.step_eq_none_of_isQuiet (h.isQuiet_of_published hsilent hpublished) howner
  · intro calls f reading hviewing
    refine ⟨hviewing.tracked.shown, ?_⟩
    rintro rfl rfl hready
    exact hviewing.shown_of_ready hready

/-- The filter begins to run after the first call and finds no layout. It takes the spans of the
pipeline for new, and the other two calls are made before it reads the layout. The window stands on
the second line of three: with no height it shows that line, and if none is given it is as high as
all lines and shows the last one as well. -/
theorem printed_spans_are_on_window_of_late_layout :
    let palette := Palette.ofTheme .empty
    let source := ['a', '\n', 'b', '\n', 'c']
    let job (height : Option Float32) : Job :=
      ⟨⟨['f'], none, 16, height, false⟩, {}, .rust, source, none⟩
    let shown : List Span :=
      [⟨palette.style 2, 0, 1⟩, ⟨palette.style 3, 2, 3⟩, ⟨palette.style 4, 4, 5⟩]
    let past := (Pipeline.opened .rust source).steps palette [.work, .work, .work, .chosen (.ok ()),
      .parsed (.ok [⟨0, 1, 2⟩, ⟨2, 3, 3⟩, ⟨4, 5, 4⟩]), .work]
    let p : Pipeline := {
      epoch := 1
      lastText := source
      language := .rust
      queue := []
      current := source
      pendingLanguage := none
      synced := some ⟨source, shown, 1⟩
      revision := 1
      publishedRevision := 1
      published := shown
      phase := .idle }
    let f (height : Option Float32) : Filter := {
      (job height).filter shown with
      scroll := ⟨16, true⟩
      height := ⟨(job height).window.height, true⟩
      layout := ⟨some (job height).layout.toLayout, true⟩
      started := true
      visible := (job height).view shown
      publications := 1 }
    Pipeline.History palette .rust source past p ∧ (∀ s ∈ past, s.move.isOwner = false) ∧
      p.publishedRevision ≠ 0 ∧
      ((job (some 0)).Viewing p.published [] (f (some 0)) .idle ∧ (f (some 0)).publications ≠ 0 ∧
        (f (some 0)).visible = [⟨palette.style 3, 2, 3⟩] ∧
        (job (some 0)).visible? p.published = some [⟨palette.style 3, 2, 3⟩]) ∧
      (job none).Viewing p.published [] (f none) .idle ∧ (f none).publications ≠ 0 ∧
      (f none).visible = [⟨palette.style 3, 2, 3⟩, ⟨palette.style 4, 4, 5⟩] ∧
      (job none).visible? p.published =
        some [⟨palette.style 3, 2, 3⟩, ⟨palette.style 4, 4, 5⟩] := by
  intro palette source job shown past p f
  have h : Pipeline.History palette .rust source past p :=
    Pipeline.history_iff_run.mpr ⟨_, rfl, rfl⟩
  have hsilent : ∀ s ∈ past, s.move.isOwner = false := by
    have hall : past.all (fun s => !s.move.isOwner) = true := rfl
    simpa using hall
  have hpublished : p.publishedRevision ≠ 0 := by decide
  have hviewing : ∀ height, (job height).Viewing p.published [] (f height) .idle := by
    intro height
    have hmade : (job height).Viewing shown (job height).moves
        { (job height).filter shown with spans := ⟨shown, true⟩ } .idle := .made true
    have hstarted := ((hmade.call rfl).beat (.notice .start rfl)).beat (.proceed _)
    have htold := ((hstarted.beat (.notice .spans rfl)).call rfl).call rfl
    have hread := (((htold.beat (.proceed _)).beat (.proceed _)).beat (.proceed _)).beat
      (.proceed _)
    exact hread.beat (.proceed _)
  have hflat : Span.within p.published (Window.bytes
      ⟨16, (some 0 : Option Float32).getD (job (some 0)).layout.contentHeight⟩
      (job (some 0)).layout.toLayout) = [⟨palette.style 3, 2, 3⟩] := by decide
  have hhigh : Span.within p.published (Window.bytes
      ⟨16, (none : Option Float32).getD (job none).layout.contentHeight⟩
      (job none).layout.toLayout) = [⟨palette.style 3, 2, 3⟩, ⟨palette.style 4, 4, 5⟩] := by decide
  obtain ⟨_, hright, hprinted⟩ := printed_spans_are_on_window (job (some 0)) h hsilent hpublished
  obtain ⟨_, hright', hprinted'⟩ := printed_spans_are_on_window (job none) h hsilent hpublished
  have hvisible := (hright [] _ .idle (hviewing (some 0))).1 (by decide)
  have hvisible' := (hright' [] _ .idle (hviewing none)).1 (by decide)
  exact ⟨h, hsilent, hpublished,
    ⟨hviewing _, by decide, hvisible.trans hflat, hprinted.trans (congrArg some hflat)⟩,
    hviewing _, by decide, hvisible'.trans hhigh, hprinted'.trans (congrArg some hhigh)⟩

end Retint.Program.Job
