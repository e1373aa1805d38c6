import Retint.Proofs.Pipeline.Results

/-!
# What is published is current

At the moment of a publication no event is on the way, so the worker's text is the one that the
owner saw last, and the spans are those that the parser computed from it. A cycle that was
superseded while the parser was busy does not get to this point; what it computed may still be
published by a later cycle that finds the same text again.
-/

namespace Retint.Pipeline

variable {palette : Palette} {language : Language} {text : Text} {p next : Pipeline} {move : Move}
  {past : List Step}

/-- A move that replaces what is published ends a cycle with the newest epoch, and publishes the
result that the worker holds. -/
theorem publish_of_replaced (ht : Transition palette p move next)
    (hreplaced : next.publishedRevision ≠ p.publishedRevision ∨ next.published ≠ p.published) :
    p.phase = .publishing p.epoch ∧ next.queue = p.queue ∧ next.lastText = p.lastText ∧
      ∃ s, p.synced = some s ∧ next.publishedRevision = s.revision ∧ next.published = s.spans := by
  cases ht with
  | publish synced hphase hsynced hnew => exact ⟨hphase, rfl, rfl, synced, hsynced, rfl, rfl⟩
  | _ =>
    rcases hreplaced with hreplaced | hreplaced
    · exact absurd rfl hreplaced
    · exact absurd rfl hreplaced

/-- The result that is about to be published belongs to the text that the owner saw last. -/
theorem History.publishing_result (h : History palette language text past p)
    (hphase : p.phase = .publishing p.epoch) {s : Synced} (hsynced : p.synced = some s) :
    ∃ call ∈ calls past, call.IsResult palette s.revision p.lastText s.spans := by
  have hqueue : p.queue = [] := h.queue_eq_nil (by rw [hphase]; rfl)
  have hfits := h.fits
  rw [hphase] at hfits
  obtain ⟨_, s', hs', htext⟩ := hfits
  -- The result belongs to the worker's text, which is the owner's since nothing is on the way.
  rw [Option.some.inj (hs'.symm.trans hsynced), h.current_eq_of_queue hqueue] at htext
  obtain ⟨earlier, call, hcalls, hresult⟩ := h.synced_isResult hsynced (by rw [hphase]; rfl)
  rw [htext] at hresult
  exact ⟨call, by simp [hcalls], hresult⟩

/-- **Publication is safe.** Whatever the parser answers and however the moves of the owner and of
the worker interleave: when a move replaces what is published, every event sent so far was taken,
the new spans are those that one call of the parser computed from the text that the owner saw last,
and every call of the cycle that publishes them returned before any newer notice was sent. -/
theorem published_spans_are_current (h : History palette language text past p)
    (hstep : p.step palette move = some next)
    (hreplaced : next.publishedRevision ≠ p.publishedRevision ∨ next.published ≠ p.published) :
    sent language text past = taken past ∧ next.queue = [] ∧
      IsPublishedFor palette past next next.lastText ∧
      ∃ epoch, p.phase = .publishing epoch ∧
        ∀ call ∈ calls past, call.epoch = epoch → call.sent = epoch := by
  obtain ⟨hphase, hnextQueue, hlastText, s, hsynced, hrevision, hspans⟩ :=
    publish_of_replaced (transition_of_step hstep) hreplaced
  obtain ⟨last, hnumbered⟩ := h.numbered
  have hqueue : p.queue = [] := hnumbered.queue_eq_nil (by rw [hphase]; rfl)
  have hsent := h.sent_eq
  rw [hqueue, List.append_nil] at hsent
  obtain ⟨call, hcall, hresult⟩ := h.publishing_result hphase hsynced
  rw [← hrevision, ← hspans, ← hlastText] at hresult
  refine ⟨hsent, hnextQueue.trans hqueue, ⟨call, hcall, hresult⟩, p.epoch, hphase, ?_⟩
  -- No call has returned later than now, and now is the epoch of the cycle.
  intro other hother hepoch
  have hdated := h.call_dated hother
  omega

/-- The text changes while the parser is busy with it and changes back: the cycle that parsed it is
superseded, and a later one, in which nothing is parsed, publishes its result. -/
theorem published_spans_are_current_after_return :
    let palette := Palette.ofTheme .empty
    let text := ['a', 'b']
    let moves := [.work, .work, .work, .chosen (.ok ()), .text ['b'],
      .parsed (.ok [⟨1, 2, 0⟩, ⟨0, 1, 2⟩]), .work, .text text, .work, .work, .work, .work]
    let past := (Pipeline.opened .rust text).steps palette moves
    let p : Pipeline := {
      epoch := 3
      lastText := text
      language := .rust
      queue := []
      current := text
      pendingLanguage := none
      synced := some ⟨text, [⟨palette.style 0, 1, 2⟩, ⟨palette.style 2, 0, 1⟩], 1⟩
      revision := 1
      publishedRevision := 0
      published := []
      phase := .publishing 3 }
    let next : Pipeline := {
      p with
      phase := .idle
      published := [⟨palette.style 0, 1, 2⟩, ⟨palette.style 2, 0, 1⟩]
      publishedRevision := 1 }
    History palette .rust text past p ∧ p.step palette .work = some next ∧
      next.publishedRevision ≠ p.publishedRevision ∧
      sent .rust text past = taken past ∧ next.queue = [] ∧
      IsPublishedFor palette past next next.lastText ∧
      ∃ epoch, p.phase = .publishing epoch ∧
        ∀ call ∈ calls past, call.epoch = epoch → call.sent = epoch := by
  intro palette text moves past p next
  have h : History palette .rust text past p := history_iff_run.mpr ⟨moves, rfl, rfl⟩
  have hstep : p.step palette .work = some next := rfl
  have hreplaced : next.publishedRevision ≠ p.publishedRevision := by decide
  exact ⟨h, hstep, hreplaced, published_spans_are_current h hstep (.inl hreplaced)⟩

/-- Nothing has been published since the text changed last, or nothing at all. -/
def Overdue (past : List Step) (p : Pipeline) : Prop :=
  p.publishedRevision = 0 ∨ ∃ earlier change later, past = earlier ++ change :: later ∧
    change.after.lastText ≠ change.before.lastText ∧
    ∀ s ∈ later, s.after.publishedRevision = s.before.publishedRevision

theorem Overdue.concat (h : Overdue past p)
    (hrevision : next.publishedRevision = p.publishedRevision) :
    Overdue (past ++ [⟨p, move, next⟩]) next := by
  rcases h with hnothing | ⟨earlier, change, later, hpast, hchange, hlater⟩
  · exact .inl (hrevision.trans hnothing)
  · refine .inr ⟨earlier, change, later ++ [⟨p, move, next⟩], by simp [hpast], hchange, ?_⟩
    intro s hs
    rcases List.mem_append.mp hs with hs | hs
    · exact hlater s hs
    · rw [List.mem_singleton.mp hs]
      exact hrevision

/-- What is published belongs to the text that the owner saw last, unless that text came after the
last publication. -/
theorem History.published_or_overdue (h : History palette language text past p) :
    IsPublishedFor palette past p p.lastText ∨ Overdue past p := by
  induction h with
  | opened => exact .inr (.inl rfl)
  | @snoc past p next move hpast hstep ih =>
    cases transition_of_step hstep with
    | newText t hnew =>
      refine .inr (.inr ⟨past, _, [], rfl, hnew, ?_⟩)
      simp
    | publish synced hphase hsynced hnew =>
      obtain ⟨call, hcall, hresult⟩ := hpast.publishing_result hphase hsynced
      exact .inl ⟨call, mem_calls_concat _ hcall, hresult⟩
    | _ =>
      rcases ih with hshown | hoverdue
      · exact .inl (hshown.concat _ rfl rfl)
      · exact .inr (hoverdue.concat rfl)

end Retint.Pipeline
