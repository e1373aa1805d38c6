import Retint.Proofs.Pipeline.Cycle

/-!
# Cycles that come to nothing

A cycle that was superseded before it began leaves everything as it was. A cycle in which a call
fails leaves what is published and the count of the results as they were, but the worker no longer
relies on what the parser knows: the next time it asks, it chooses the language if one is pending
and has the whole text parsed, and it asks for no edit before a whole text was parsed.
-/

namespace Retint.Pipeline

/-- The calls of a cycle that relies on nothing: a language that is pending is chosen, and unless
that fails the whole text is parsed. -/
def IsFromScratch (pending : Option Language) (current : Text) (made : List Call) : Prop :=
  match pending with
  | none => ∃ answer, made.map Call.exchange = [.parse (.full current) answer]
  | some language =>
    (∃ failure, made.map Call.exchange = [.choice language (.error failure)]) ∨
      ∃ answer, made.map Call.exchange = [.choice language (.ok ()), .parse (.full current) answer]

/-- Whether a call parsed a whole text, with an answer that fits the text. -/
def Call.ParsesWhole (call : Call) : Prop :=
  call.failure? = none ∧ ∃ text highlights, call.exchange = .parse (.full text) (.ok highlights)

/-- From here on, the next cycle that asks the parser relies on nothing that the parser knows. -/
structure StartsOver (palette : Palette) (q : Pipeline) : Prop where
  /-- The next cycle that is not superseded asks first for the language that is pending, or else
  for the whole text. -/
  begins : ∀ {moves : List Move} {r : Pipeline}, q.run palette moves = some r →
    calls (q.steps palette moves) = [] → r.phase = .starting r.epoch →
      ∃ next, r.step palette .work = some next ∧
        next.phase = match r.pendingLanguage with
          | some language => .choosing r.epoch language
          | none => .parsing r.epoch (.full r.current)
  /-- By its end it has made the calls of one that relies on nothing. -/
  asks : ∀ {moves : List Move} {r last : Pipeline} {retried : List Step},
    q.run palette moves = some r → calls (q.steps palette moves) = [] →
    Cycle palette r.epoch r retried last → last.phase = .idle →
      IsFromScratch r.pendingLanguage r.current (calls retried)
  /-- No edit is asked for until a whole text was parsed. -/
  edits : ∀ {moves : List Move} {r : Pipeline} {epoch : Nat} {changed : Text} {edit : Edit},
    q.run palette moves = some r → r.phase = .parsing epoch (.incremental changed edit) →
      ∃ call ∈ calls (q.steps palette moves), call.ParsesWhole

/-- The worker relies on nothing that the parser knows. -/
structure Unsynced (p : Pipeline) : Prop where
  synced : p.synced = none
  phase : ∀ epoch changed edit, p.phase ≠ .parsing epoch (.incremental changed edit)

variable {palette : Palette} {language : Language} {text : Text} {past made : List Step}
  {epoch : Nat} {p q next : Pipeline} {move : Move} {moves : List Move}

/-- Only the parse of a whole text gives the worker something to rely on. -/
theorem Unsynced.step (h : Unsynced p) (hstep : p.step palette move = some next) :
    Unsynced next ∨ ∃ call, Step.call? ⟨p, move, next⟩ = some call ∧ call.ParsesWhole := by
  obtain ⟨hsynced, hphase⟩ := h
  cases transition_of_step hstep with
  | sameText | newText | newLanguage => exact .inl ⟨hsynced, hphase⟩
  | parsedFull e t highlights hparsing hfit =>
    refine .inr ⟨_, by simp [Step.call?, hparsing]; rfl, ?_, t, highlights, rfl⟩
    simp [Call.failure?, hfit]
  | parseEdit s _ _ _ _ hheld | parseNothing s _ _ hheld | publish s _ hheld =>
    simp [hsynced] at hheld
  | parsedEdit e changed edit _ hparsing | overrunEdit e changed edit _ hparsing
  | misfitEdit e changed edit _ hparsing => exact absurd hparsing (hphase e changed edit)
  | notChosen | overrunFull | notParsed => exact .inl ⟨rfl, by simp⟩
  | _ => exact .inl ⟨hsynced, by simp⟩

/-- A worker that relies on nothing keeps to that until a whole text was parsed. -/
theorem Unsynced.run (h : Unsynced p) (hrun : p.run palette moves = some q) :
    Unsynced q ∨ ∃ call ∈ calls (p.steps palette moves), call.ParsesWhole := by
  induction moves generalizing p with
  | nil =>
    cases hrun
    exact .inl h
  | cons move later ih =>
    obtain ⟨after, hstep, hlater⟩ := Option.bind_eq_some_iff.mp hrun
    have hsteps : p.steps palette (move :: later) =
        ⟨p, move, after⟩ :: after.steps palette later := by simp [steps, hstep]
    rw [hsteps]
    rcases h.step hstep with hafter | ⟨call, hcall, hwhole⟩
    · rcases ih hafter hlater with hq | ⟨call, hcall, hwhole⟩
      · exact .inl hq
      · obtain ⟨s, hs, hmade⟩ := List.mem_filterMap.mp hcall
        exact .inr ⟨call, List.mem_filterMap.mpr ⟨s, List.mem_cons_of_mem _ hs, hmade⟩, hwhole⟩
    · exact .inr ⟨call, List.mem_filterMap.mpr ⟨_, List.mem_cons_self, hcall⟩, hwhole⟩

/-- A worker that relies on nothing still does so after moves in which no call returns. -/
theorem Unsynced.run_of_no_calls (h : Unsynced p) (hrun : p.run palette moves = some q)
    (hcalls : calls (p.steps palette moves) = []) : Unsynced q := by
  rcases h.run hrun with hq | ⟨call, hcall, _⟩
  · exact hq
  · rw [hcalls] at hcall
    contradiction

/-- A cycle that relies on nothing has asked for everything when a call ends it. -/
theorem Asking.isFromScratch {earlier : List Call} {call : Call} {phase : Phase}
    (h : Asking p earlier phase) (hsynced : p.synced = none)
    (hanswers : call.Answers p.current phase)
    (hlast : ∀ l, call.exchange ≠ .choice l (.ok ())) :
    IsFromScratch p.pendingLanguage p.current (earlier ++ [call]) := by
  cases h with
  | choosing l hpending =>
    obtain ⟨_, _, answer, hexchange⟩ := hanswers
    rw [hpending]
    cases answer with
    | ok => exact absurd hexchange (hlast l)
    | error failure => exact .inl ⟨failure, by simp [hexchange]⟩
  | chosen l first hpending hfirst =>
    obtain ⟨_, _, answer, hexchange⟩ := hanswers
    rw [hpending]
    exact .inr ⟨answer, by simp [hfirst, hexchange]⟩
  | whole hpending =>
    obtain ⟨_, _, answer, hexchange⟩ := hanswers
    rw [hpending]
    exact ⟨answer, by simp [hexchange]⟩
  | edit s _ _ _ hheld | again s _ _ _ _ _ _ hheld => simp [hsynced] at hheld

/-- A complete cycle of a worker that relies on nothing asks for everything. -/
theorem Unsynced.isFromScratch (h : Unsynced p) (hcycle : Cycle palette p.epoch p made q)
    (hend : q.phase = .idle) : IsFromScratch p.pendingLanguage p.current (calls made) := by
  have hcourse := hcycle.course
  generalize calls made = madeCalls at hcourse
  generalize publications made = madePublications at hcourse
  cases hcourse with
  | skipped hstale hepoch => exact absurd hepoch.symm hstale
  | asking _ hasking =>
    have hepoch := hasking.epoch_eq
    rw [hend] at hepoch
    contradiction
  | failed call failure _ hasking hanswers hfatal =>
    refine hasking.isFromScratch h.synced hanswers fun l hexchange => ?_
    simp [Call.fatal?, Call.failure?, hexchange] at hfatal
  | unchanged s _ _ hheld => simp [h.synced] at hheld
  | parsed call s _ hasking hanswers _ _ hresult =>
    refine hasking.isFromScratch h.synced hanswers fun l hexchange => ?_
    obtain ⟨_, _, _, _, hparse, _⟩ := hresult
    simp [hexchange] at hparse

/-- A worker that relies on nothing starts over. -/
theorem Unsynced.startsOver (h : Unsynced q) : StartsOver palette q where
  begins := by
    intro moves r hrun hcalls hphase
    have hsynced := (h.run_of_no_calls hrun hcalls).synced
    refine ⟨r.begin r.epoch, by simp [Pipeline.step, work, hphase], ?_⟩
    simp only [begin, if_true, firstPhase, hsynced]
    cases r.pendingLanguage <;> rfl
  asks hrun hcalls hcycle hend := (h.run_of_no_calls hrun hcalls).isFromScratch hcycle hend
  edits hrun hphase :=
    (h.run hrun).resolve_left fun hr => hr.phase _ _ _ hphase

/-- A call without a failure ends nothing. -/
theorem Call.fatal?_eq_none {call : Call} (h : call.failure? = none) : call.fatal? = none := by
  unfold Call.fatal?
  split <;> simp [h]

/-- While a cycle waits for the parser, no call has ended it. -/
theorem Asking.fatal?_eq_none {earlier : List Call} {phase : Phase} (h : Asking p earlier phase)
    {call : Call} (hcall : call ∈ earlier) : call.fatal? = none := by
  cases h with
  | choosing | whole | edit => contradiction
  | chosen l first _ hfirst =>
    rw [List.mem_singleton.mp hcall]
    simp [Call.fatal?, Call.failure?, hfirst]
  | again _ _ _ first _ failure _ _ _ hfirst hfailure hmisfit =>
    rw [List.mem_singleton.mp hcall]
    simp [Call.fatal?, hfirst, hfailure, hmisfit]

/-- A call that fails for good is the last one of its cycle. -/
theorem Cycle.failed_of_fatal (h : Cycle palette epoch p made q) {call : Call} {failure : Failure}
    (hcall : call ∈ calls made) (hfatal : call.fatal? = some failure) :
    q.phase = .idle ∧ publications made = [] ∧ q.memory = p.memory.fail failure := by
  have hcourse := h.course
  generalize calls made = madeCalls at hcourse hcall
  generalize publications made = madePublications at hcourse
  have hearlier : ∀ {earlier : List Call} {phase : Phase}, Asking p earlier phase →
      call ∉ earlier := by
    intro earlier phase hasking hmem
    rw [hasking.fatal?_eq_none hmem] at hfatal
    contradiction
  cases hcourse with
  | skipped | unchanged => contradiction
  | asking _ hasking => exact absurd hcall (hearlier hasking)
  | failed last failure' _ hasking _ hlast hphase hmemory =>
    rcases List.mem_append.mp hcall with hcall | hcall
    · exact absurd hcall (hearlier hasking)
    · rw [List.mem_singleton.mp hcall, hlast] at hfatal
      cases hfatal
      exact ⟨hphase, rfl, hmemory⟩
  | parsed last s _ hasking _ hfailure =>
    rcases List.mem_append.mp hcall with hcall | hcall
    · exact absurd hcall (hearlier hasking)
    · rw [List.mem_singleton.mp hcall, Call.fatal?_eq_none hfailure] at hfatal
      contradiction

/-- A cycle that is about to begin and not superseded has the text that the owner saw last. -/
theorem History.current_eq_of_starting (h : History palette language text past p)
    (hphase : p.phase = .starting p.epoch) : p.current = p.lastText :=
  h.current_eq_of_queue (h.queue_eq_nil (by rw [hphase]; rfl))

/-- A cycle that was superseded when it was to begin does nothing. -/
theorem Cycle.skipped_of_stale (h : Cycle palette epoch p made q) (hstale : epoch ≠ p.epoch) :
    q.phase = .idle ∧ calls made = [] ∧ publications made = [] ∧ q.memory = p.memory := by
  have hcourse := h.course
  generalize calls made = madeCalls at hcourse
  generalize publications made = madePublications at hcourse
  cases hcourse with
  | skipped _ _ hphase hmemory => exact ⟨hphase, rfl, rfl, hmemory⟩
  | asking hcurrent | failed _ _ hcurrent | unchanged _ hcurrent | parsed _ _ hcurrent =>
    exact absurd hcurrent hstale

/-- **Cycles that come to nothing.** Take a cycle that begins with any worker, and any moves of the
owner while it goes on. If it is superseded when it begins, it makes no call and changes nothing
that the worker remembers. If one of its calls fails, for whatever reason but that an edit does not
fit, the cycle is over; what is published and the count of the results stay, the worker's snapshot
is given up, and a language that was pending is given up exactly if the failure is that its grammar
cannot be loaded. The worker then starts over: it next chooses the language if one is pending, and
unless that fails parses the whole of the newest text, and it asks for no edit before a whole text
was parsed. -/
theorem failed_cycle_starts_over (h : Cycle palette epoch p made q) :
    (epoch ≠ p.epoch →
      q.phase = .idle ∧ calls made = [] ∧ publications made = [] ∧ q.memory = p.memory) ∧
    ∀ call ∈ calls made, ∀ failure, call.fatal? = some failure →
      q.phase = .idle ∧ publications made = [] ∧ q.memory = p.memory.fail failure ∧
        StartsOver palette q ∧ ∀ language text past, History palette language text past p →
          ∀ moves r, q.run palette moves = some r → r.phase = .starting r.epoch →
            r.current = r.lastText := by
  refine ⟨h.skipped_of_stale, fun call hcall failure hfatal => ?_⟩
  obtain ⟨hphase, hpublications, hmemory⟩ := h.failed_of_fatal hcall hfatal
  have hsynced : q.synced = none := congrArg Memory.synced hmemory
  refine ⟨hphase, hpublications, hmemory, Unsynced.startsOver ⟨hsynced, by simp [hphase]⟩, ?_⟩
  intro language text past hpast moves r hrun hstarting
  exact ((h.history hpast).append hrun).current_eq_of_starting hstarting

/-- The parser breaks down over an edit. When the text changes again, the next cycle asks for the
whole of it. -/
theorem failed_cycle_starts_over_after_crash :
    let palette := Palette.ofTheme .empty
    let moves := [.work, .work, .work, .chosen (.ok ()), .parsed (.ok [⟨0, 1, 2⟩]), .work,
      .text ['a', 'b'], .work, .work]
    let past := (Pipeline.opened .rust ['a']).steps palette moves
    let p : Pipeline := {
      epoch := 2
      lastText := ['a', 'b']
      language := .rust
      queue := []
      current := ['a', 'b']
      pendingLanguage := none
      synced := some ⟨['a'], [⟨palette.style 2, 0, 1⟩], 1⟩
      revision := 1
      publishedRevision := 1
      published := [⟨palette.style 2, 0, 1⟩]
      phase := .starting 2 }
    let asked : Pipeline := { p with phase := .parsing 2 (.incremental ['b'] ⟨1, 1, 2⟩) }
    let q : Pipeline := { p with phase := .idle, synced := none }
    let made : List Step := [⟨p, .work, asked⟩, ⟨asked, .parsed (.error .crashed), q⟩]
    let r : Pipeline := {
      q with epoch := 3, lastText := ['c'], current := ['c'], phase := .starting 3 }
    History palette .rust ['a'] past p ∧ Cycle palette 2 p made q ∧
      q.memory = p.memory.fail .crashed ∧ StartsOver palette q ∧
      q.run palette [.text ['c'], .work, .work] = some r ∧ r.current = r.lastText ∧
      ∃ next, r.step palette .work = some next ∧ next.phase = .parsing 3 (.full ['c']) := by
  intro palette moves past p asked q made r
  have hpast : History palette .rust ['a'] past p := history_iff_run.mpr ⟨moves, rfl, rfl⟩
  have hcheck : Cycle palette 2 p [⟨p, .work, asked⟩] asked := .check rfl rfl
  have hcycle : Cycle palette 2 p made q := hcheck.snoc (by simp [asked]) rfl
  have hcalls : calls made =
      [⟨2, ['a', 'b'], .parse (.incremental ['b'] ⟨1, 1, 2⟩) (.error .crashed), 2, none⟩] := rfl
  obtain ⟨_, hfailed⟩ := failed_cycle_starts_over hcycle
  obtain ⟨_, _, hmemory, hover, hnewest⟩ :=
    hfailed _ (by rw [hcalls]; exact List.mem_singleton_self _) .crashed rfl
  have hrun : q.run palette [.text ['c'], .work, .work] = some r := rfl
  exact ⟨hpast, hcycle, hmemory, hover, hrun, hnewest .rust ['a'] past hpast _ r hrun rfl,
    hover.begins hrun rfl rfl⟩

end Retint.Pipeline
