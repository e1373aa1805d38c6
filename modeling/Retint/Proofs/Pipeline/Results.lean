import Retint.Proofs.Pipeline.Queue

/-!
# Results and where they come from

Each phase of a cycle has its own condition on what the worker holds: the text that is parsed, the
language that is pending, and the snapshot that an edit starts from. Together with the history this
gives the origin of every result: except while the whole text is being parsed anew, what the worker
holds as the last result is what the last call of the parser answered.
-/

namespace Retint

/-- Whether the whole text is being parsed. -/
def Phase.isWhole : Phase → Bool
  | .parsing _ request => request.isFull
  | _ => false

/-- Nothing is parsed while the worker waits for events. -/
theorem isWhole_of_waiting {phase : Phase}
    (hphase : phase = .idle ∨ ∃ epoch, phase = .draining epoch) : phase.isWhole = false := by
  rcases hphase with rfl | ⟨epoch, rfl⟩ <;> rfl

/-- What the worker holds in a phase. -/
def Phase.Fits (current : Text) (pending : Option Language) (synced : Option Synced) :
    Phase → Prop
  | .choosing _ language => pending = some language
  | .parsing _ (.full text) => text = current
  | .parsing _ (.incremental changed edit) =>
    pending = none ∧ ∃ s, synced = some s ∧ Edit.between? s.text current = some edit ∧
      edit.insertedText? current = some changed
  | .publishing _ => pending = none ∧ ∃ s, synced = some s ∧ s.text = current
  | _ => True

namespace Pipeline

variable {palette : Palette} {language : Language} {text : Text} {p next : Pipeline} {move : Move}
  {past : List Step}

private theorem fits_transition (ht : Transition palette p move next)
    (h : p.phase.Fits p.current p.pendingLanguage p.synced) :
    next.phase.Fits next.current next.pendingLanguage next.synced := by
  cases ht with
  | sameText | newText | newLanguage => exact h
  | choose language hphase hpending => exact hpending
  | chosen | parseFull | overrunEdit | misfitEdit => exact rfl
  | parseEdit synced changed edit hphase hpending hsynced hedit hchanged =>
    exact ⟨hpending, synced, hsynced, hedit, hchanged⟩
  | parseNothing synced hphase hpending hsynced htext => exact ⟨hpending, synced, hsynced, htext⟩
  | parsedFull => exact ⟨rfl, _, rfl, rfl⟩
  | parsedEdit epoch changed edit highlights hphase =>
    rw [hphase] at h
    exact ⟨h.1, _, rfl, rfl⟩
  | _ => trivial

/-- In every phase the worker holds what the phase needs. -/
theorem History.fits (h : History palette language text past p) :
    p.phase.Fits p.current p.pendingLanguage p.synced := by
  induction h with
  | opened => trivial
  | snoc _ hstep ih => exact fits_transition (transition_of_step hstep) ih

/-- Whatever the parser is asked for belongs to the worker's text. -/
theorem isRequestFor_of_fits {epoch : Nat} {request : ParseRequest} {current : Text}
    {pending : Option Language} {synced : Option Synced}
    (h : (Phase.parsing epoch request).Fits current pending synced) :
    IsRequestFor current request := by
  cases request with
  | full t => exact h
  | incremental changed edit =>
    obtain ⟨_, s, _, hedit, hchanged⟩ := h
    obtain ⟨inserted, hinserted, hslice, _⟩ := Edit.exists_inserted_of_between? hedit
    rw [hchanged, Option.some.injEq] at hinserted
    exact ⟨hinserted ▸ hslice, s.text, hedit⟩

/-- The revisions grow from result to result, and a published revision stands for the spans that
were published with it. -/
structure Revised (p : Pipeline) : Prop where
  published_le : p.publishedRevision ≤ p.revision
  synced : ∀ s, p.synced = some s → s.revision = p.revision
  shown : ∀ s, p.synced = some s → s.revision = p.publishedRevision → s.spans = p.published

private theorem Revised.transition (h : Revised p) (ht : Transition palette p move next) :
    Revised next := by
  have hle := h.published_le
  cases ht with
  | parsedFull | parsedEdit =>
    refine ⟨Nat.le_succ_of_le hle, ?_, ?_⟩
    · rintro s ⟨⟩
      rfl
    · rintro s ⟨⟩ hshown
      dsimp only at hshown
      omega
  | notChosen | notParsed | overrunFull => exact ⟨hle, nofun, nofun⟩
  | publish synced hphase hsynced hnew =>
    refine ⟨Nat.le_of_eq (h.synced synced hsynced), h.synced, fun s hs _ => ?_⟩
    rw [Option.some.inj (hs.symm.trans hsynced)]
  | _ => exact ⟨hle, h.synced, h.shown⟩

theorem History.revised (h : History palette language text past p) : Revised p := by
  induction h with
  | opened => exact ⟨Nat.le_refl _, nofun, nofun⟩
  | snoc _ hstep ih => exact ih.transition (transition_of_step hstep)

/-- A call belongs to the batch under way and is dated with the newest notice when it returns. -/
theorem Step.dated_of_call {s : Step} {call : Call} (h : s.call? = some call) :
    s.before.phase.epoch? = some call.epoch ∧ call.sent = s.after.epoch := by
  unfold Step.call? at h
  split at h
  · rename_i hphase
    cases Option.some.inj h
    exact ⟨by rw [hphase]; rfl, rfl⟩
  · rename_i hphase
    cases Option.some.inj h
    exact ⟨by rw [hphase]; rfl, rfl⟩
  · contradiction

/-- Each call belongs to a cycle that began before it returned. -/
theorem History.call_dated (h : History palette language text past p) {call : Call}
    (hcall : call ∈ calls past) : call.epoch ≤ call.sent ∧ call.sent ≤ p.epoch := by
  induction h with
  | opened => simp [calls] at hcall
  | @snoc past p next move hpast hstep ih =>
    obtain ⟨last, hnumbered⟩ := hpast.numbered
    have ht := transition_of_step hstep
    have hepoch : p.epoch ≤ next.epoch := by cases ht <;> simp
    rw [calls_concat, List.mem_append] at hcall
    rcases hcall with hcall | hcall
    · have hdated := ih hcall
      omega
    · obtain ⟨hbatch, hsent⟩ := Step.dated_of_call (Option.mem_toList.mp hcall)
      have hle : call.epoch ≤ p.epoch := hnumbered.epoch_le hbatch
      rw [hsent]
      exact ⟨Nat.le_trans hle hepoch, Nat.le_refl _⟩

/-- What the worker holds as the last result is what the last call answered, unless the whole text
is being parsed anew. -/
theorem History.synced_isResult (h : History palette language text past p) {s : Synced}
    (hsynced : p.synced = some s) (hwhole : p.phase.isWhole = false) :
    ∃ earlier call, calls past = earlier ++ [call] ∧
      call.IsResult palette s.revision s.text s.spans := by
  induction h generalizing s with
  | opened => simp [Pipeline.opened] at hsynced
  | @snoc past p next move hpast hstep ih =>
    have hfits := hpast.fits
    rw [calls_concat]
    cases transition_of_step hstep with
    | parsedFull epoch text highlights hphase hfit =>
      cases Option.some.inj hsynced
      rw [hphase] at hfits
      refine ⟨calls past, _, by simp [Step.call?, hphase]; rfl, ?_⟩
      exact ⟨by simp, rfl, _, highlights, rfl, isRequestFor_of_fits hfits, hfit, rfl⟩
    | parsedEdit epoch changed edit highlights hphase hfit =>
      cases Option.some.inj hsynced
      rw [hphase] at hfits
      refine ⟨calls past, _, by simp [Step.call?, hphase]; rfl, ?_⟩
      exact ⟨by simp, rfl, _, highlights, rfl, isRequestFor_of_fits hfits, hfit, rfl⟩
    | take event later hphase hqueue =>
      simpa [Step.call?] using ih hsynced (isWhole_of_waiting hphase)
    | _ => simp_all [Step.call?, Phase.isWhole, ParseRequest.isFull]

/-- What is published stays the result of its call until something else is published. -/
theorem IsPublishedFor.concat {t : Text} (h : IsPublishedFor palette past p t) (s : Step)
    (hrevision : next.publishedRevision = p.publishedRevision)
    (hpublished : next.published = p.published) :
    IsPublishedFor palette (past ++ [s]) next t := by
  obtain ⟨call, hcall, hresult⟩ := h
  rw [← hrevision, ← hpublished] at hresult
  exact ⟨call, mem_calls_concat s hcall, hresult⟩

end Pipeline

end Retint
