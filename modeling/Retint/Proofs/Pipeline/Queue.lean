import Retint.Proofs.Pipeline.History

/-!
# Events on the way

Between the owner and the worker stands the queue. The events in it are numbered without a gap up
to the newest notice, so a cycle with the newest epoch runs while the queue is empty. And the queue
loses nothing: what was sent is what was taken with what still waits, and when all of it is taken,
the worker has the text that the owner saw last and a language only if the owner chose it last.
-/

namespace Retint

/-- The epoch of the batch that the worker is busy with. -/
def Phase.epoch? : Phase → Option Nat
  | .idle => none
  | .draining epoch => some epoch
  | .starting epoch => some epoch
  | .choosing epoch _ => some epoch
  | .parsing epoch _ => some epoch
  | .publishing epoch => some epoch

namespace Pipeline

/-- The events in the queue are numbered from the one after the last event taken up to the newest
notice, and the batch under way ends with the last event taken. -/
structure Numbered (p : Pipeline) (last : Nat) : Prop where
  queued : p.queue.map Event.epoch = List.range' (last + 1) p.queue.length
  total : last + p.queue.length = p.epoch
  batch : ∀ epoch, p.phase.epoch? = some epoch → epoch = last

/-- The newest text on its way to the worker, or else the one that it has. -/
def newestText (p : Pipeline) : Text :=
  (p.queue.reverse.findSome? fun event => event.notice.text?).getD p.current

/-- The newest language on its way to the worker, or else the one that it has to choose. -/
def newestLanguage? (p : Pipeline) : Option Language :=
  (p.queue.reverse.findSome? fun event => event.notice.language?).or p.pendingLanguage

variable {palette : Palette} {language : Language} {text : Text} {p next : Pipeline} {move : Move}
  {past : List Step} {last : Nat}

/-- Taking an event does not change which language is the newest one on its way. -/
theorem newestLanguage?_take {event : Event} {later : List Event} {phase : Phase} {current : Text}
    (hqueue : p.queue = event :: later) :
    newestLanguage? { p with
      queue := later
      phase := phase
      current := current
      pendingLanguage := event.notice.language?.or p.pendingLanguage } = p.newestLanguage? := by
  simp only [newestLanguage?, hqueue, List.reverse_cons, List.findSome?_append]
  cases later.reverse.findSome? fun event => event.notice.language? <;> simp

theorem isQuiet_iff : p.isQuiet = true ↔ p.queue = [] ∧ p.phase = .idle := by
  simp [isQuiet, List.isEmpty_iff]

/-- While a batch with the newest epoch is under way, no event waits. -/
theorem Numbered.queue_eq_nil (h : Numbered p last) (hbatch : p.phase.epoch? = some p.epoch) :
    p.queue = [] := by
  have hlast := h.batch _ hbatch
  have htotal := h.total
  exact List.length_eq_zero_iff.mp (by omega)

/-- While a batch with an older epoch is under way, some event waits. -/
theorem Numbered.queue_ne_nil {epoch : Nat} (h : Numbered p last)
    (hbatch : p.phase.epoch? = some epoch) (hstale : epoch ≠ p.epoch) : p.queue ≠ [] := by
  intro hqueue
  have hlast := h.batch _ hbatch
  have htotal := h.total
  rw [hqueue, List.length_nil] at htotal
  omega

/-- The batch under way is at most as new as the newest notice. -/
theorem Numbered.epoch_le {epoch : Nat} (h : Numbered p last)
    (hbatch : p.phase.epoch? = some epoch) : epoch ≤ p.epoch := by
  have hlast := h.batch _ hbatch
  have htotal := h.total
  omega

/-- Sending a notice continues the numbering. -/
theorem Numbered.send {event : Event} (h : Numbered p last)
    (hqueue : next.queue = p.queue ++ [event]) (hevent : event.epoch = p.epoch + 1)
    (hepoch : next.epoch = p.epoch + 1) (hphase : next.phase = p.phase) : Numbered next last := by
  have htotal := h.total
  refine ⟨?_, ?_, ?_⟩
  · have hnewest : event.epoch = last + 1 + p.queue.length := by omega
    simp [hqueue, h.queued, List.range'_concat, hnewest]
  · simp only [hqueue, List.length_append, List.length_singleton, hepoch]
    omega
  · rw [hphase]
    exact h.batch

/-- The numbering does not depend on what the worker does between two events. -/
theorem Numbered.proceed (h : Numbered p last) (hqueue : next.queue = p.queue)
    (hepoch : next.epoch = p.epoch)
    (hphase : ∀ epoch, next.phase.epoch? = some epoch → p.phase.epoch? = some epoch) :
    Numbered next last := by
  refine ⟨?_, ?_, fun epoch hnext => h.batch epoch (hphase epoch hnext)⟩
  · rw [hqueue]
    exact h.queued
  · rw [hqueue, hepoch]
    exact h.total

theorem Numbered.transition (h : Numbered p last) (ht : Transition palette p move next) :
    ∃ last, Numbered next last := by
  cases ht with
  | sameText => exact ⟨last, h⟩
  | newText text hnew => exact ⟨last, h.send rfl rfl rfl rfl⟩
  | newLanguage language => exact ⟨last, h.send rfl rfl rfl rfl⟩
  | take event later hphase hqueue =>
    have hqueued := h.queued
    have htotal := h.total
    rw [hqueue, List.map_cons, List.length_cons, List.range'_succ, List.cons.injEq] at hqueued
    rw [hqueue, List.length_cons] at htotal
    obtain ⟨hevent, hlater⟩ := hqueued
    refine ⟨event.epoch, ?_, ?_, ?_⟩
    · rw [hevent]
      exact hlater
    · show event.epoch + later.length = p.epoch
      omega
    · intro epoch hepoch
      exact (Option.some.inj hepoch).symm
  | _ => exact ⟨last, h.proceed rfl rfl (by simp_all [Phase.epoch?])⟩

theorem History.numbered (h : History palette language text past p) :
    ∃ last, Numbered p last := by
  induction h with
  | opened => exact ⟨0, rfl, rfl, by simp [Pipeline.opened, Phase.epoch?]⟩
  | snoc _ hstep ih =>
    obtain ⟨last, hlast⟩ := ih
    exact hlast.transition (transition_of_step hstep)

/-- While a cycle with the newest epoch is under way, no event waits. -/
theorem History.queue_eq_nil (h : History palette language text past p)
    (hbatch : p.phase.epoch? = some p.epoch) : p.queue = [] := by
  obtain ⟨last, hnumbered⟩ := h.numbered
  exact hnumbered.queue_eq_nil hbatch

private theorem newestText_transition (ht : Transition palette p move next)
    (h : p.newestText = p.lastText) : next.newestText = next.lastText := by
  cases ht with
  | newText text hnew => simp [newestText, Notice.text?]
  | newLanguage language => simpa [newestText, Notice.text?] using h
  | take event later hphase hqueue =>
    rw [← h]
    simp only [newestText, hqueue, List.reverse_cons, List.findSome?_append]
    cases later.reverse.findSome? fun event => event.notice.text? <;> simp
  | _ => exact h

/-- When the worker has taken every event, it has the text that the owner saw last. -/
theorem History.newestText_eq (h : History palette language text past p) :
    p.newestText = p.lastText := by
  induction h with
  | opened => rfl
  | snoc _ hstep ih => exact newestText_transition (transition_of_step hstep) ih

/-- With no event on the way, the worker's text is the one that the owner saw last. -/
theorem History.current_eq_of_queue (h : History palette language text past p)
    (hqueue : p.queue = []) : p.current = p.lastText := by
  rw [← h.newestText_eq, newestText, hqueue]
  rfl

private theorem newestLanguage_transition (ht : Transition palette p move next)
    (h : ∀ l, p.newestLanguage? = some l → l = p.language) {l : Language}
    (hnewest : next.newestLanguage? = some l) : l = next.language := by
  cases ht with
  | newLanguage language => simpa [newestLanguage?, Notice.language?, eq_comm] using hnewest
  | take event later hphase hqueue =>
    apply h l
    rw [← hnewest]
    exact (newestLanguage?_take hqueue).symm
  | newText text hnew => exact h l (by simpa [newestLanguage?, Notice.language?] using hnewest)
  | notChosen | notParsed | parsedFull =>
    apply h l
    simp only [newestLanguage?] at hnewest ⊢
    generalize p.queue.reverse.findSome? (fun event => event.notice.language?) = found at *
    cases found <;> simp_all
  | _ => exact h l hnewest

/-- A language that the worker has to choose, now or when it has taken every event, is the one
that the owner chose last. -/
theorem History.newestLanguage_eq (h : History palette language text past p) {l : Language}
    (hnewest : p.newestLanguage? = some l) : l = p.language := by
  induction h generalizing l with
  | opened =>
    simpa [newestLanguage?, Pipeline.opened, Notice.language?, eq_comm] using hnewest
  | snoc _ hstep ih =>
    exact newestLanguage_transition (transition_of_step hstep) (fun l => ih) hnewest

/-- What was sent is what was taken and, in the same order, what still waits. -/
theorem History.sent_eq (h : History palette language text past p) :
    sent language text past = taken past ++ p.queue := by
  induction h with
  | opened => rfl
  | @snoc past p next move _ hstep ih =>
    rw [sent_concat, taken_concat, ih, List.append_assoc, List.append_assoc]
    congr 1
    cases transition_of_step hstep with
    | sameText => simp [Step.sent?, Step.taken?]
    | newText text hnew => simp [Step.sent?, Step.taken?, hnew]
    | newLanguage language => simp [Step.sent?, Step.taken?]
    | take event later hphase hqueue =>
      obtain hphase | ⟨epoch, hphase⟩ := hphase <;>
        simp [Step.sent?, Step.taken?, hphase, hqueue]
    | _ => simp_all [Step.sent?, Step.taken?]

end Pipeline

end Retint
