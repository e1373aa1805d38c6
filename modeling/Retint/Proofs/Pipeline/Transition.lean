import Retint.Pipeline.Basic
import Retint.Proofs.Edit.Between

/-!
# The moves of a pipeline, one by one

`Transition` lists everything that a move can do to a pipeline, with the condition under which it
happens and all that it changes. A move is possible only as one of these cases
(`transition_of_step`), so an invariant is checked by going through them, and no proof has to
open the functions that make the moves.
-/

namespace Retint

/-- The text that a notice brings. -/
def Notice.text? : Notice → Option Text
  | .opened t _ => some t
  | .text t => some t
  | .language _ => none

/-- The language that a notice brings. -/
def Notice.language? : Notice → Option Language
  | .opened _ l => some l
  | .text _ => none
  | .language l => some l

/-- Whether a failure says that a grammar cannot be loaded. -/
def Failure.isGrammar : Failure → Bool
  | .reported error => error.isGrammar
  | .crashed => false

/-- Whether a failure says that an edit or a highlight does not fit its text. -/
def Failure.isMisfit : Failure → Bool
  | .reported (.misfit _) => true
  | _ => false

/-- Whether a request is for a whole text. -/
def ParseRequest.isFull : ParseRequest → Bool
  | .full _ => true
  | .incremental _ _ => false

namespace Pipeline

/-- Taking an event keeps what it does not bring. -/
theorem absorb_eq (p : Pipeline) (event : Event) (later : List Event) :
    p.absorb event later = { p with
      queue := later
      phase := .draining event.epoch
      current := event.notice.text?.getD p.current
      pendingLanguage := event.notice.language?.or p.pendingLanguage } := by
  obtain ⟨epoch, notice⟩ := event
  cases notice <;> rfl

/-- A failure forgets what was parsed, and a language only if its grammar cannot be loaded. -/
theorem fail_eq (p : Pipeline) (failure : Failure) :
    p.fail failure = { p with
      phase := .idle
      synced := none
      pendingLanguage := if failure.isGrammar then none else p.pendingLanguage } := by
  cases failure <;> rfl

/-- What a move does to a pipeline. -/
inductive Transition (palette : Palette) (p : Pipeline) : Move → Pipeline → Prop where
  /-- The owner sees the text that it saw last. -/
  | sameText : Transition palette p (.text p.lastText) p
  /-- The owner sees another text. -/
  | newText (text : Text) (hnew : text ≠ p.lastText) :
      Transition palette p (.text text) { p with
        lastText := text
        epoch := p.epoch + 1
        queue := p.queue ++ [⟨p.epoch + 1, .text text⟩] }
  /-- The owner chooses a language. -/
  | newLanguage (language : Language) :
      Transition palette p (.language language) { p with
        language := language
        epoch := p.epoch + 1
        queue := p.queue ++ [⟨p.epoch + 1, .language language⟩] }
  /-- The worker takes an event. -/
  | take (event : Event) (later : List Event)
      (hphase : p.phase = .idle ∨ ∃ epoch, p.phase = .draining epoch)
      (hqueue : p.queue = event :: later) :
      Transition palette p .work { p with
        queue := later
        phase := .draining event.epoch
        current := event.notice.text?.getD p.current
        pendingLanguage := event.notice.language?.or p.pendingLanguage }
  /-- The worker finds the queue empty. -/
  | drained (epoch : Nat) (hphase : p.phase = .draining epoch) (hqueue : p.queue = []) :
      Transition palette p .work { p with phase := .starting epoch }
  /-- A cycle ends before it begins, since a notice came after its last event. -/
  | skip (epoch : Nat) (hphase : p.phase = .starting epoch) (hstale : epoch ≠ p.epoch) :
      Transition palette p .work { p with phase := .idle }
  /-- A cycle begins with the choice of a language. -/
  | choose (language : Language) (hphase : p.phase = .starting p.epoch)
      (hpending : p.pendingLanguage = some language) :
      Transition palette p .work { p with phase := .choosing p.epoch language }
  /-- A cycle begins with the whole text. -/
  | parseFull (hphase : p.phase = .starting p.epoch) (hpending : p.pendingLanguage = none)
      (hsynced : p.synced = none) :
      Transition palette p .work { p with phase := .parsing p.epoch (.full p.current) }
  /-- A cycle begins with what changed in the text. -/
  | parseEdit (synced : Synced) (changed : Text) (edit : Edit)
      (hphase : p.phase = .starting p.epoch) (hpending : p.pendingLanguage = none)
      (hsynced : p.synced = some synced)
      (hedit : Edit.between? synced.text p.current = some edit)
      (hchanged : edit.insertedText? p.current = some changed) :
      Transition palette p .work
        { p with phase := .parsing p.epoch (.incremental changed edit) }
  /-- A cycle has nothing to parse. -/
  | parseNothing (synced : Synced) (hphase : p.phase = .starting p.epoch)
      (hpending : p.pendingLanguage = none) (hsynced : p.synced = some synced)
      (htext : synced.text = p.current) :
      Transition palette p .work { p with phase := .publishing p.epoch }
  /-- The parser has chosen a language. -/
  | chosen (epoch : Nat) (language : Language) (hphase : p.phase = .choosing epoch language) :
      Transition palette p (.chosen (.ok ()))
        { p with phase := .parsing epoch (.full p.current) }
  /-- The parser could not choose a language. -/
  | notChosen (epoch : Nat) (language : Language) (failure : Failure)
      (hphase : p.phase = .choosing epoch language) :
      Transition palette p (.chosen (.error failure)) { p with
        phase := .idle
        synced := none
        pendingLanguage := if failure.isGrammar then none else p.pendingLanguage }
  /-- The parser has parsed the whole text. -/
  | parsedFull (epoch : Nat) (text : Text) (highlights : List Highlight)
      (hphase : p.phase = .parsing epoch (.full text))
      (hfit : Highlight.allFit highlights p.current.byteSize = true) :
      Transition palette p (.parsed (.ok highlights)) { p with
        phase := .publishing epoch
        pendingLanguage := none
        revision := p.revision + 1
        synced := some ⟨p.current, palette.spans highlights, p.revision + 1⟩ }
  /-- The parser has parsed what changed in the text. -/
  | parsedEdit (epoch : Nat) (changed : Text) (edit : Edit) (highlights : List Highlight)
      (hphase : p.phase = .parsing epoch (.incremental changed edit))
      (hfit : Highlight.allFit highlights p.current.byteSize = true) :
      Transition palette p (.parsed (.ok highlights)) { p with
        phase := .publishing epoch
        revision := p.revision + 1
        synced := some ⟨p.current, palette.spans highlights, p.revision + 1⟩ }
  /-- The parser has parsed the whole text, but its answer does not fit the text. -/
  | overrunFull (epoch : Nat) (text : Text) (highlights : List Highlight)
      (hphase : p.phase = .parsing epoch (.full text))
      (hfit : Highlight.allFit highlights p.current.byteSize = false) :
      Transition palette p (.parsed (.ok highlights)) { p with phase := .idle, synced := none }
  /-- The parser has parsed what changed in the text, but its answer does not fit the text. -/
  | overrunEdit (epoch : Nat) (changed : Text) (edit : Edit) (highlights : List Highlight)
      (hphase : p.phase = .parsing epoch (.incremental changed edit))
      (hfit : Highlight.allFit highlights p.current.byteSize = false) :
      Transition palette p (.parsed (.ok highlights))
        { p with phase := .parsing epoch (.full p.current) }
  /-- The parser says that the edit does not fit the text that it knows. -/
  | misfitEdit (epoch : Nat) (changed : Text) (edit : Edit) (reason : Text)
      (hphase : p.phase = .parsing epoch (.incremental changed edit)) :
      Transition palette p (.parsed (.error (.reported (.misfit reason))))
        { p with phase := .parsing epoch (.full p.current) }
  /-- The parser could not parse. -/
  | notParsed (epoch : Nat) (request : ParseRequest) (failure : Failure)
      (hphase : p.phase = .parsing epoch request)
      (hfailure : request.isFull = true ∨ failure.isMisfit = false) :
      Transition palette p (.parsed (.error failure)) { p with
        phase := .idle
        synced := none
        pendingLanguage := if failure.isGrammar then none else p.pendingLanguage }
  /-- A result is published. -/
  | publish (synced : Synced) (hphase : p.phase = .publishing p.epoch)
      (hsynced : p.synced = some synced) (hnew : synced.revision ≠ p.publishedRevision) :
      Transition palette p .work { p with
        phase := .idle
        published := synced.spans
        publishedRevision := synced.revision }
  /-- A result is not published, since it was before or a notice came after the last event. -/
  | withhold (epoch : Nat) (hphase : p.phase = .publishing epoch)
      (hold : ∀ synced, p.synced = some synced →
        synced.revision = p.publishedRevision ∨ epoch ≠ p.epoch) :
      Transition palette p .work { p with phase := .idle }

variable {palette : Palette} {p next : Pipeline}

private theorem transition_of_begin {epoch : Nat} (hphase : p.phase = .starting epoch) :
    Transition palette p .work (p.begin epoch) := by
  unfold begin firstPhase
  by_cases hcurrent : epoch = p.epoch
  · subst hcurrent
    rw [if_pos rfl]
    split
    · exact .choose _ hphase ‹_›
    · exact .parseFull hphase ‹_› ‹_›
    · rename_i synced hpending hsynced
      cases hedit : Edit.between? synced.text p.current with
      | none =>
        exact .parseNothing synced hphase hpending hsynced (Edit.between?_eq_none_iff.mp hedit)
      | some edit =>
        obtain ⟨changed, hchanged, _⟩ := Edit.exists_inserted_of_between? hedit
        simpa only [hchanged, Option.getD_some] using
          Transition.parseEdit synced changed edit hphase hpending hsynced hedit hchanged
  · rw [if_neg hcurrent]
    exact .skip epoch hphase hcurrent

private theorem transition_of_publish {epoch : Nat} (hphase : p.phase = .publishing epoch) :
    Transition palette p .work (p.publish epoch) := by
  unfold publish
  split
  · rename_i hsynced
    exact .withhold epoch hphase (by simp [hsynced])
  · rename_i synced hsynced
    split
    · rename_i hold
      refine .withhold epoch hphase fun other hother => ?_
      have heq : other = synced := Option.some.inj (hother.symm.trans hsynced)
      rwa [heq]
    · rename_i hnew
      rw [not_or, Decidable.not_not] at hnew
      exact .publish synced (hnew.2 ▸ hphase) hsynced hnew.1

private theorem transition_of_work (h : p.work = some next) :
    Transition palette p .work next := by
  unfold work at h
  split at h <;> simp only [Option.some.injEq, reduceCtorEq] at h <;> subst h
  · rw [absorb_eq]
    exact .take _ _ (.inl ‹_›) ‹_›
  · rw [absorb_eq]
    exact .take _ _ (.inr ⟨_, ‹_›⟩) ‹_›
  · exact .drained _ ‹_› ‹_›
  · exact transition_of_begin ‹_›
  · exact transition_of_publish ‹_›

private theorem transition_of_afterChoice {epoch : Nat} {language : Language}
    (hphase : p.phase = .choosing epoch language) (answer : Except Failure Unit) :
    Transition palette p (.chosen answer) (p.afterChoice epoch answer) := by
  cases answer with
  | ok => exact .chosen epoch language hphase
  | error failure =>
    simp only [afterChoice, fail_eq]
    exact .notChosen epoch language failure hphase

private theorem transition_of_afterParse {epoch : Nat} {request : ParseRequest}
    (hphase : p.phase = .parsing epoch request) (answer : Except Failure (List Highlight)) :
    Transition palette p (.parsed answer) (p.afterParse palette epoch request answer) := by
  unfold afterParse
  split
  · split
    · exact .parsedFull epoch _ _ hphase ‹_›
    · rename_i hfit
      rw [fail_eq]
      exact .overrunFull epoch _ _ hphase (by simpa using hfit)
  · split
    · exact .parsedEdit epoch _ _ _ hphase ‹_›
    · rename_i hfit
      exact .overrunEdit epoch _ _ _ hphase (by simpa using hfit)
  · exact .misfitEdit epoch _ _ _ hphase
  · rename_i failure hmisfit
    rw [fail_eq]
    refine .notParsed epoch request failure hphase ?_
    cases request with
    | full text => exact .inl rfl
    | incremental changed edit =>
      right
      unfold Failure.isMisfit
      split
      · exact (hmisfit changed edit _ rfl rfl).elim
      · rfl

/-- A move is possible only as one of the transitions. -/
theorem transition_of_step {move : Move} (h : p.step palette move = some next) :
    Transition palette p move next := by
  cases move with
  | text text =>
    simp only [step, Option.some.injEq] at h
    subst h
    by_cases hnew : text = p.lastText
    · rw [textChanged, if_pos hnew, hnew]
      exact .sameText
    · rw [textChanged, if_neg hnew]
      exact .newText text hnew
  | language language =>
    simp only [step, Option.some.injEq] at h
    subst h
    exact .newLanguage language
  | work => exact transition_of_work h
  | chosen answer =>
    simp only [step] at h
    split at h <;> simp only [Option.some.injEq, reduceCtorEq] at h
    subst h
    exact transition_of_afterChoice ‹_› answer
  | parsed answer =>
    simp only [step] at h
    split at h <;> simp only [Option.some.injEq, reduceCtorEq] at h
    subst h
    exact transition_of_afterParse ‹_› answer

/-- An answer to a request changes nothing on the owner's side. -/
theorem Transition.parsed_inv {answer : Except Failure (List Highlight)}
    (h : Transition palette p (.parsed answer) next) :
    ∃ epoch request, p.phase = .parsing epoch request ∧ next.queue = p.queue ∧
      next.language = p.language := by
  cases h with
  | parsedFull | parsedEdit | overrunFull | overrunEdit | misfitEdit | notParsed =>
    exact ⟨_, _, ‹_›, rfl, rfl⟩

end Pipeline

end Retint
