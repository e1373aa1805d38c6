import Retint.Proofs.Pipeline.Transition

/-!
# What happened in a run

A pipeline does not remember its past, so statements about a run speak of its history: the list of
steps since the opening, each with the pipeline before and after it. What the parser was asked and
answered, how the cycles ended, and which events were sent and taken are read off these steps.
-/

namespace Retint.Pipeline

/-- One move of a run. -/
structure Step where
  /-- The pipeline before the move. -/
  before : Pipeline
  /-- The move. -/
  move : Move
  /-- The pipeline after the move. -/
  after : Pipeline

/-- The steps that some moves make, up to the first one that is not possible. -/
def steps (palette : Palette) (p : Pipeline) : List Move → List Step
  | [] => []
  | move :: later =>
    match p.step palette move with
    | none => []
    | some next => ⟨p, move, next⟩ :: next.steps palette later

/-- The steps of a run since the opening, oldest first, and the pipeline they lead to. -/
inductive History (palette : Palette) (language : Language) (text : Text) :
    List Step → Pipeline → Prop where
  /-- Nothing has happened since the opening. -/
  | opened : History palette language text [] (opened language text)
  /-- One more move was made. -/
  | snoc {past : List Step} {p next : Pipeline} {move : Move} :
      History palette language text past p → p.step palette move = some next →
      History palette language text (past ++ [⟨p, move, next⟩]) next

section Runs

variable {palette : Palette} {language : Language} {text : Text} {p q : Pipeline}
  {past : List Step} {moves : List Move}

/-- A run after a history continues that history. -/
theorem History.append (h : History palette language text past p)
    (hrun : p.run palette moves = some q) :
    History palette language text (past ++ p.steps palette moves) q := by
  induction moves generalizing past p with
  | nil =>
    simp only [run, Option.some.injEq] at hrun
    subst hrun
    simpa [steps] using h
  | cons move later ih =>
    obtain ⟨next, hstep, hlater⟩ := Option.bind_eq_some_iff.mp hrun
    have hnext := ih (h.snoc hstep) hlater
    simpa [steps, hstep] using hnext

/-- Every step of a history is one that the pipeline could make. -/
theorem History.step_of_mem (h : History palette language text past p) {s : Step}
    (hmem : s ∈ past) : s.before.step palette s.move = some s.after := by
  induction h with
  | opened => contradiction
  | snoc _ hstep ih =>
    rcases List.mem_append.mp hmem with hmem | hmem
    · exact ih hmem
    · rw [List.mem_singleton.mp hmem]
      exact hstep

theorem run_append (p : Pipeline) (moves others : List Move) :
    p.run palette (moves ++ others) =
      (p.run palette moves).bind fun next => next.run palette others := by
  induction moves generalizing p with
  | nil => rfl
  | cons move later ih =>
    simp only [List.cons_append, run, Option.bind_assoc]
    congr
    funext next
    exact ih next

theorem steps_append (hrun : p.run palette moves = some q) (others : List Move) :
    p.steps palette (moves ++ others) = p.steps palette moves ++ q.steps palette others := by
  induction moves generalizing p with
  | nil =>
    simp only [run, Option.some.injEq] at hrun
    subst hrun
    rfl
  | cons move later ih =>
    obtain ⟨next, hstep, hlater⟩ := Option.bind_eq_some_iff.mp hrun
    simp [steps, hstep, ih hlater]

/-- The histories are the step lists of the runs since the opening. -/
theorem history_iff_run : History palette language text past p ↔
    ∃ moves, (Pipeline.opened language text).run palette moves = some p ∧
      (Pipeline.opened language text).steps palette moves = past := by
  constructor
  · intro h
    induction h with
    | opened => exact ⟨[], rfl, rfl⟩
    | @snoc past p next move _ hstep ih =>
      obtain ⟨moves, hrun, hsteps⟩ := ih
      refine ⟨moves ++ [move], ?_, ?_⟩
      · simp [run_append, hrun, run, hstep]
      · simp [steps_append hrun, hsteps, steps, hstep]
  · rintro ⟨moves, hrun, rfl⟩
    simpa using History.opened.append hrun

end Runs

/-! ### The calls of the parser -/

/-- What the parser was asked for, with its answer. -/
inductive Exchange where
  /-- It was told a language. -/
  | choice (language : Language) (answer : Except Failure Unit)
  /-- It was asked for highlights. -/
  | parse (request : ParseRequest) (answer : Except Failure (List Highlight))

/-- A call of the parser that has returned. -/
structure Call where
  /-- The epoch of the cycle that made it. -/
  epoch : Nat
  /-- The text of that cycle. -/
  text : Text
  /-- What was asked and answered. -/
  exchange : Exchange
  /-- The number of notices sent by the time it returned. -/
  sent : Nat
  /-- The revision of the result that was made of the answer, if one was. -/
  revision : Option Nat

/-- The call that returns in a step. -/
def Step.call? (s : Step) : Option Call :=
  match s.move, s.before.phase with
  | .chosen answer, .choosing epoch language =>
    some ⟨epoch, s.before.current, .choice language answer, s.after.epoch, none⟩
  | .parsed answer, .parsing epoch request =>
    some ⟨epoch, s.before.current, .parse request answer, s.after.epoch,
      if s.after.revision = s.before.revision then none else some s.after.revision⟩
  | _, _ => none

/-- The calls that returned, in the order in which they were made. -/
def calls (past : List Step) : List Call := past.filterMap Step.call?

/-- Whether a call told the parser a language. -/
def Call.isChoice (call : Call) : Bool :=
  match call.exchange with
  | .choice _ _ => true
  | .parse _ _ => false

/-- A request that belongs to a text: the text itself, or the edit that leads to it from another
one, with exactly the slice of the text that the edit inserts. -/
def IsRequestFor (text : Text) : ParseRequest → Prop
  | .full t => t = text
  | .incremental changed edit =>
    text.slice? edit.start edit.newEnd = some changed ∧
      ∃ old, Edit.between? old text = some edit

/-- A call that parsed a text and was answered by highlights that fit it, of which a result was
made: for each highlight one span, with the style of its kind and the same range, in the same
order. -/
def Call.IsResult (call : Call) (palette : Palette) (revision : Nat) (text : Text)
    (spans : List Span) : Prop :=
  call.revision = some revision ∧ call.text = text ∧
    ∃ request highlights, call.exchange = .parse request (.ok highlights) ∧
      IsRequestFor text request ∧ Highlight.allFit highlights text.byteSize = true ∧
      spans = highlights.map fun h => ⟨palette.style h.kind, h.start, h.stop⟩

/-- The spans published last are those that one call computed from a text. -/
def IsPublishedFor (palette : Palette) (past : List Step) (p : Pipeline) (text : Text) : Prop :=
  ∃ call ∈ calls past, call.IsResult palette p.publishedRevision text p.published

/-! ### Cycles and events -/

/-- How a cycle that was not skipped ended. -/
inductive Outcome where
  /-- It came to the point of publishing. -/
  | completed
  /-- A call of the parser failed, or its answer to the whole text did not fit the text. -/
  | failed
  deriving DecidableEq, Repr

/-- The outcome of the cycle that ends in a step. -/
def Step.outcome? (s : Step) : Option Outcome :=
  match s.before.phase, s.after.phase with
  | .publishing _, .idle => some .completed
  | .choosing _ _, .idle => some .failed
  | .parsing _ _, .idle => some .failed
  | _, _ => none

/-- The outcomes of the cycles that were not skipped. -/
def outcomes (past : List Step) : List Outcome := past.filterMap Step.outcome?

/-- The event that the owner sends in a step. -/
def Step.sent? (s : Step) : Option Event :=
  match s.move with
  | .text text => if text = s.before.lastText then none else some ⟨s.after.epoch, .text text⟩
  | .language language => some ⟨s.after.epoch, .language language⟩
  | _ => none

/-- The event that the worker takes in a step. -/
def Step.taken? (s : Step) : Option Event :=
  match s.move, s.before.phase with
  | .work, .idle => s.before.queue.head?
  | .work, .draining _ => s.before.queue.head?
  | _, _ => none

/-- The events sent, the opening first. -/
def sent (language : Language) (text : Text) (past : List Step) : List Event :=
  ⟨1, .opened text language⟩ :: past.filterMap Step.sent?

/-- The events that the worker has taken. -/
def taken (past : List Step) : List Event := past.filterMap Step.taken?

/-! ### One more step -/

theorem filterMap_concat {α : Type} (f : Step → Option α) (past : List Step) (s : Step) :
    (past ++ [s]).filterMap f = past.filterMap f ++ (f s).toList := by
  rw [List.filterMap_append]
  cases hs : f s <;> simp [hs]

theorem calls_concat (past : List Step) (s : Step) :
    calls (past ++ [s]) = calls past ++ s.call?.toList :=
  filterMap_concat Step.call? past s

theorem outcomes_concat (past : List Step) (s : Step) :
    outcomes (past ++ [s]) = outcomes past ++ s.outcome?.toList :=
  filterMap_concat Step.outcome? past s

theorem sent_concat (language : Language) (text : Text) (past : List Step) (s : Step) :
    sent language text (past ++ [s]) = sent language text past ++ s.sent?.toList :=
  congrArg (List.cons _) (filterMap_concat Step.sent? past s)

theorem taken_concat (past : List Step) (s : Step) :
    taken (past ++ [s]) = taken past ++ s.taken?.toList :=
  filterMap_concat Step.taken? past s

/-- A call of the past stays one. -/
theorem mem_calls_concat {past : List Step} {call : Call} (s : Step) (h : call ∈ calls past) :
    call ∈ calls (past ++ [s]) := by
  rw [calls_concat]
  exact List.mem_append_left _ h

/-- A call among the calls up to a step was made before, or it is the one that returns in the
step. -/
theorem calls_concat_eq_append {past : List Step} {s : Step} {call : Call}
    {earlier later : List Call} (h : calls (past ++ [s]) = earlier ++ call :: later) :
    (∃ between, calls past = earlier ++ call :: between ∧ later = between ++ s.call?.toList) ∨
      (s.call? = some call ∧ later = []) := by
  rw [calls_concat] at h
  have hlast : ∀ before, s.call?.toList = before ++ call :: later →
      s.call? = some call ∧ later = [] := by
    intro before hbefore
    cases hcall : s.call? with
    | none => simp [hcall] at hbefore
    | some last =>
      rw [hcall, Option.toList_some, List.singleton_eq_append_iff] at hbefore
      rcases hbefore with ⟨_, hone⟩ | ⟨_, hnone⟩
      · obtain ⟨rfl, hlater⟩ := List.cons.inj hone
        exact ⟨rfl, hlater⟩
      · contradiction
  rcases List.append_eq_append_iff.mp h with ⟨before, _, hbefore⟩ | ⟨after, hpast, hafter⟩
  · exact .inr (hlast before hbefore)
  · cases after with
    | nil => exact .inr (hlast [] hafter.symm)
    | cons first between =>
      obtain ⟨rfl, hlater⟩ := List.cons.inj hafter
      exact .inl ⟨between, hpast, hlater⟩

end Retint.Pipeline
