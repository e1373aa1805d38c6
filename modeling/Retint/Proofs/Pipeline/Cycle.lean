import Retint.Proofs.Pipeline.Rest

/-!
# The course of a cycle

A cycle begins with the check whether its batch is still the newest, and it ends when the worker
waits for events again. In between the parser may be called several times, and the owner may make
any moves. `Course` lists everything that can have become of a cycle, with the calls that it made,
what it published and what the worker holds then, so that no statement about cycles has to go
through their steps again.
-/

namespace Retint.Pipeline

/-! ### Publications -/

/-- The result that a cycle with a given epoch would publish now: the one that the worker holds, if
it was not published before and no newer notice was sent. -/
def due? (p : Pipeline) (epoch : Nat) : Option Synced :=
  p.synced.filter fun s => s.revision ≠ p.publishedRevision && epoch = p.epoch

theorem due?_eq_some_iff {p : Pipeline} {epoch : Nat} {s : Synced} :
    p.due? epoch = some s ↔
      p.synced = some s ∧ s.revision ≠ p.publishedRevision ∧ epoch = p.epoch := by
  simp [due?, Option.filter_eq_some_iff]

theorem due?_eq_none {p : Pipeline} {epoch : Nat}
    (hold : ∀ s, p.synced = some s → s.revision = p.publishedRevision ∨ epoch ≠ p.epoch) :
    p.due? epoch = none := by
  rw [Option.eq_none_iff_forall_ne_some]
  intro s hdue
  obtain ⟨hsynced, hnew, hcurrent⟩ := due?_eq_some_iff.mp hdue
  rcases hold s hsynced with hrevision | hstale
  · exact hnew hrevision
  · exact hstale hcurrent

/-- The result that is published in a step. -/
def Step.publication? (s : Step) : Option Synced :=
  match s.move, s.before.phase with
  | .work, .publishing epoch => s.before.due? epoch
  | _, _ => none

/-- The results that were published, oldest first. -/
def publications (past : List Step) : List Synced := past.filterMap Step.publication?

theorem publications_concat (past : List Step) (s : Step) :
    publications (past ++ [s]) = publications past ++ s.publication?.toList :=
  filterMap_concat Step.publication? past s

/-! ### What the worker remembers -/

/-- What the worker knows and has published, apart from what it is doing. -/
structure Memory where
  /-- The newest text among the events taken. -/
  current : Text
  /-- The language that is still to be chosen. -/
  pendingLanguage : Option Language
  /-- The text that the parser saw last, with its result. -/
  synced : Option Synced
  /-- The number of results. -/
  revision : Nat
  /-- The revision of the result published last. -/
  publishedRevision : Nat
  /-- The spans published last. -/
  published : List Span

/-- What the worker remembers. -/
def memory (p : Pipeline) : Memory where
  current := p.current
  pendingLanguage := p.pendingLanguage
  synced := p.synced
  revision := p.revision
  publishedRevision := p.publishedRevision
  published := p.published

/-- After a failure nothing is known of the parser, and a language that was pending is given up if
its grammar cannot be loaded. What is published stays. -/
def Memory.fail (m : Memory) (failure : Failure) : Memory :=
  { m with
    synced := none
    pendingLanguage :=
      if m.pendingLanguage.isSome && failure.isGrammar then none else m.pendingLanguage }

/-- After a parse the result is kept, and no language is pending. -/
def Memory.keep (m : Memory) (s : Synced) : Memory :=
  { m with pendingLanguage := none, synced := some s, revision := s.revision }

/-- After a publication the result is the one shown. -/
def Memory.show (m : Memory) (s : Synced) : Memory :=
  { m with published := s.spans, publishedRevision := s.revision }

theorem Memory.fail_eq (m : Memory) (failure : Failure) :
    m.fail failure = { m with
      synced := none
      pendingLanguage := if failure.isGrammar then none else m.pendingLanguage } := by
  obtain ⟨current, pending, synced, revision, publishedRevision, published⟩ := m
  cases pending <;> simp [Memory.fail]

/-! ### Calls within a cycle -/

/-- The failure of a call that ends its cycle. An edit that the parser says does not fit, or whose
answer does not fit the text, does not end it: the whole text is parsed instead. -/
def Call.fatal? (call : Call) : Option Failure :=
  match call.exchange with
  | .parse (.incremental _ _) _ => call.failure?.filter fun failure => !failure.isMisfit
  | _ => call.failure?

/-- Whether a call is an answer to what the parser was asked in a phase, for a given text. -/
def Call.Answers (call : Call) (current : Text) : Phase → Prop
  | .choosing epoch language =>
    call.epoch = epoch ∧ call.text = current ∧ ∃ answer, call.exchange = .choice language answer
  | .parsing epoch request =>
    call.epoch = epoch ∧ call.text = current ∧ ∃ answer, call.exchange = .parse request answer
  | _ => False

/-- The calls of a cycle that have returned, and the phase in which it waits for the next one; the
pipeline is the one at the beginning of the cycle. -/
inductive Asking (p : Pipeline) : List Call → Phase → Prop where
  /-- A language is pending and is chosen first. -/
  | choosing (language : Language) (hpending : p.pendingLanguage = some language) :
      Asking p [] (.choosing p.epoch language)
  /-- The language was chosen and the whole text is parsed. -/
  | chosen (language : Language) (call : Call) (hpending : p.pendingLanguage = some language)
      (hcall : call.exchange = .choice language (.ok ())) :
      Asking p [call] (.parsing p.epoch (.full p.current))
  /-- Nothing is known of the parser and the whole text is parsed. -/
  | whole (hpending : p.pendingLanguage = none) (hsynced : p.synced = none) :
      Asking p [] (.parsing p.epoch (.full p.current))
  /-- What changed in the text is parsed. -/
  | edit (s : Synced) (changed : Text) (edit : Edit) (hpending : p.pendingLanguage = none)
      (hsynced : p.synced = some s) (hedit : Edit.between? s.text p.current = some edit)
      (hchanged : edit.insertedText? p.current = some changed) :
      Asking p [] (.parsing p.epoch (.incremental changed edit))
  /-- The edit did not fit, or its answer did not, and the whole text is parsed. -/
  | again (s : Synced) (changed : Text) (edit : Edit) (call : Call)
      (answer : Except Failure (List Highlight)) (failure : Failure)
      (hpending : p.pendingLanguage = none) (hsynced : p.synced = some s)
      (hedit : Edit.between? s.text p.current = some edit)
      (hcall : call.exchange = .parse (.incremental changed edit) answer)
      (hfailure : call.failure? = some failure) (hmisfit : failure.isMisfit = true) :
      Asking p [call] (.parsing p.epoch (.full p.current))

/-! ### Cycles -/

/-- The steps from the beginning of a cycle on, which is the check whether its epoch is still the
newest, and the pipeline they lead to. The cycle is over when the worker is idle again. -/
inductive Cycle (palette : Palette) (epoch : Nat) (p : Pipeline) : List Step → Pipeline → Prop where
  /-- The check. -/
  | check {next : Pipeline} (hphase : p.phase = .starting epoch)
      (hstep : p.step palette .work = some next) : Cycle palette epoch p [⟨p, .work, next⟩] next
  /-- One more move of the worker, the parser or the owner. -/
  | snoc {made : List Step} {q next : Pipeline} {move : Move} (hmade : Cycle palette epoch p made q)
      (hbusy : q.phase ≠ .idle) (hstep : q.step palette move = some next) :
      Cycle palette epoch p (made ++ [⟨q, move, next⟩]) next

/-- What a cycle still does with the result `s` once it holds it, where `m` is what the worker
remembers before it publishes, and the list is what the cycle has published. -/
inductive Finish (m : Memory) (s : Synced) (epoch : Nat) (q : Pipeline) : List Synced → Prop where
  /-- The result is about to be published. -/
  | ready (hphase : q.phase = .publishing epoch) (hmemory : q.memory = m) : Finish m s epoch q []
  /-- The result was published. -/
  | sent (hphase : q.phase = .idle) (hcurrent : epoch = q.epoch)
      (hnew : s.revision ≠ m.publishedRevision) (hmemory : q.memory = m.show s) :
      Finish m s epoch q [s]
  /-- The result was published before, or a newer notice was sent. -/
  | withheld (hphase : q.phase = .idle) (hmemory : q.memory = m)
      (hold : epoch = q.epoch → s.revision = m.publishedRevision) : Finish m s epoch q []

/-- What has become of a cycle: the calls it made and what it published, each oldest first, and the
pipeline it has led to. -/
inductive Course (palette : Palette) (epoch : Nat) (p q : Pipeline) :
    List Call → List Synced → Prop where
  /-- It was superseded before it began. -/
  | skipped (hstale : epoch ≠ q.epoch) (hepoch : q.epoch = p.epoch) (hphase : q.phase = .idle)
      (hmemory : q.memory = p.memory) : Course palette epoch p q [] []
  /-- It waits for an answer of the parser. -/
  | asking {made : List Call} (hcurrent : epoch = p.epoch) (hasking : Asking p made q.phase)
      (hmemory : q.memory = p.memory) : Course palette epoch p q made []
  /-- Its last call failed. -/
  | failed {earlier : List Call} {phase : Phase} (call : Call) (failure : Failure)
      (hcurrent : epoch = p.epoch) (hasking : Asking p earlier phase)
      (hanswers : call.Answers p.current phase) (hfatal : call.fatal? = some failure)
      (hphase : q.phase = .idle) (hmemory : q.memory = p.memory.fail failure) :
      Course palette epoch p q (earlier ++ [call]) []
  /-- There was nothing to parse. -/
  | unchanged {sent : List Synced} (s : Synced) (hcurrent : epoch = p.epoch)
      (hpending : p.pendingLanguage = none) (hsynced : p.synced = some s)
      (htext : s.text = p.current) (hfinish : Finish p.memory s epoch q sent) :
      Course palette epoch p q [] sent
  /-- Its last call gave a result. -/
  | parsed {earlier : List Call} {phase : Phase} {sent : List Synced} (call : Call) (s : Synced)
      (hcurrent : epoch = p.epoch) (hasking : Asking p earlier phase)
      (hanswers : call.Answers p.current phase) (hfailure : call.failure? = none)
      (hrevision : s.revision = p.revision + 1)
      (hresult : call.IsResult palette s.revision p.current s.spans)
      (htext : s.text = p.current) (hfinish : Finish (p.memory.keep s) s epoch q sent) :
      Course palette epoch p q (earlier ++ [call]) sent

variable {palette : Palette} {epoch : Nat} {p q next : Pipeline} {move : Move} {m : Memory}
  {s : Synced} {made : List Call} {published : List Synced}

/-- A cycle that waits for the parser keeps its epoch. -/
theorem Asking.epoch_eq {phase : Phase} (h : Asking p made phase) :
    phase.epoch? = some p.epoch := by
  cases h <;> rfl

/-- What the parser is asked for belongs to what the cycle began with. -/
theorem Asking.fits {phase : Phase} (h : Asking p made phase) :
    phase.Fits p.current p.pendingLanguage p.synced := by
  cases h with
  | choosing language hpending => exact hpending
  | chosen | whole | again => exact rfl
  | edit s changed edit hpending hsynced hedit hchanged =>
    exact ⟨hpending, s, hsynced, hedit, hchanged⟩

/-- A cycle that waits for the parser does not go on by itself. -/
theorem Asking.work_eq_none {phase : Phase} (h : Asking p made phase) (hphase : q.phase = phase) :
    q.work = none := by
  cases h <;> simp [work, hphase]

/-- A cycle that has something to publish publishes it, or not, and is over. -/
theorem Finish.step (h : Finish m s epoch q published) (hbusy : q.phase ≠ .idle)
    (hsynced : m.synced = some s) (hstep : q.step palette move = some next) :
    Step.call? ⟨q, move, next⟩ = none ∧
      Finish m s epoch next (published ++ (Step.publication? ⟨q, move, next⟩).toList) := by
  cases h with
  | sent hphase | withheld hphase => exact absurd hphase hbusy
  | ready hphase hmemory =>
    have hheld : q.synced = some s := (congrArg Memory.synced hmemory).trans hsynced
    have hrevision : q.publishedRevision = m.publishedRevision :=
      congrArg Memory.publishedRevision hmemory
    cases transition_of_step hstep with
    | sameText | newText | newLanguage => exact ⟨rfl, .ready hphase hmemory⟩
    | publish synced hpublishing hsame hnew =>
      obtain rfl : synced = s := Option.some.inj (hsame.symm.trans hheld)
      obtain rfl : epoch = q.epoch := Phase.publishing.inj (hphase.symm.trans hpublishing)
      have hdue : q.due? q.epoch = some synced := due?_eq_some_iff.mpr ⟨hsame, hnew, rfl⟩
      refine ⟨rfl, ?_⟩
      simp only [Step.publication?, hphase, hdue]
      exact .sent rfl rfl (hrevision ▸ hnew) (by rw [← hmemory]; rfl)
    | withhold e hpublishing hold =>
      obtain rfl : epoch = e := Phase.publishing.inj (hphase.symm.trans hpublishing)
      have hdue : q.due? epoch = none := due?_eq_none hold
      refine ⟨rfl, ?_⟩
      simp only [Step.publication?, hphase, hdue]
      refine .withheld rfl hmemory fun hcurrent => ?_
      exact hrevision ▸ (hold s hheld).resolve_right (not_not_intro hcurrent)
    | _ => simp_all

/-- A failure changes what the worker remembers in the same way from any phase. -/
theorem memory_of_failure (hmemory : q.memory = p.memory) (failure : Failure) :
    memory { q with
      phase := .idle
      synced := none
      pendingLanguage := if failure.isGrammar then none else q.pendingLanguage } =
        p.memory.fail failure := by
  rw [← hmemory, Memory.fail_eq]
  rfl

/-- An answer that fits the text gives the result of the cycle. -/
theorem Asking.parsed {request : ParseRequest} {highlights : List Highlight} {call : Call}
    (h : Asking p made (.parsing epoch request))
    (hfit : Highlight.allFit highlights p.current.byteSize = true) (hepoch : call.epoch = epoch)
    (htext : call.text = p.current) (hexchange : call.exchange = .parse request (.ok highlights))
    (hrevision : call.revision = some (p.revision + 1)) (hphase : next.phase = .publishing epoch)
    (hmemory : next.memory =
      p.memory.keep ⟨p.current, palette.spans highlights, p.revision + 1⟩) :
    Course palette p.epoch p next (made ++ [call]) [] := by
  have hcurrent : epoch = p.epoch := Option.some.inj h.epoch_eq
  refine .parsed call _ rfl h ⟨hepoch, htext, _, hexchange⟩ ?_ rfl ?_ rfl
    (.ready (hcurrent ▸ hphase) hmemory)
  · simp [Call.failure?, hexchange, htext, hfit]
  · exact ⟨hrevision, htext, request, highlights, hexchange, isRequestFor_of_fits h.fits, hfit, rfl⟩

/-- A cycle that waits for the parser goes on as the parser answers. -/
theorem Asking.step (h : Asking p made q.phase) (hmemory : q.memory = p.memory)
    (hstep : q.step palette move = some next) :
    Step.publication? ⟨q, move, next⟩ = none ∧
      Course palette p.epoch p next (made ++ (Step.call? ⟨q, move, next⟩).toList) [] := by
  have hcurrent : q.current = p.current := congrArg Memory.current hmemory
  have hrevision : q.revision = p.revision := congrArg Memory.revision hmemory
  have hwork := h.work_eq_none rfl
  -- The worker cannot go on by itself, so the owner moves or the parser answers.
  cases transition_of_step hstep with
  | sameText | newText | newLanguage =>
    exact ⟨rfl, .asking rfl (by simpa [Step.call?] using h) hmemory⟩
  | chosen e language hchoosing =>
    rw [hchoosing] at h
    refine ⟨rfl, .asking rfl ?_ hmemory⟩
    cases h with
    | choosing _ hpending =>
      simp only [Step.call?, hchoosing, hcurrent]
      exact .chosen language _ hpending rfl
  | notChosen e language failure hchoosing =>
    rw [hchoosing] at h
    refine ⟨rfl, ?_⟩
    simp only [Step.call?, hchoosing]
    exact .failed _ failure rfl h ⟨rfl, hcurrent, _, rfl⟩ rfl rfl
      (memory_of_failure hmemory failure)
  | parsedFull e t highlights hparsing hfit =>
    rw [hparsing] at h
    refine ⟨rfl, ?_⟩
    simp only [Step.call?, hparsing]
    refine h.parsed (hcurrent ▸ hfit) rfl hcurrent rfl (by simp [hrevision]) rfl ?_
    rw [← hmemory, ← hcurrent, ← hrevision]
    rfl
  | parsedEdit e changed edit highlights hparsing hfit =>
    rw [hparsing] at h
    have hpending : q.pendingLanguage = none :=
      (congrArg Memory.pendingLanguage hmemory).trans h.fits.1
    refine ⟨rfl, ?_⟩
    simp only [Step.call?, hparsing]
    refine h.parsed (hcurrent ▸ hfit) rfl hcurrent rfl (by simp [hrevision]) rfl ?_
    rw [← hmemory, ← hcurrent, ← hrevision]
    simp [memory, Memory.keep, hpending]
  | overrunFull e t highlights hparsing hfit =>
    rw [hparsing] at h
    refine ⟨rfl, ?_⟩
    simp only [Step.call?, hparsing]
    refine .failed _ outOfRange rfl h ⟨rfl, hcurrent, _, rfl⟩ ?_ rfl
      (memory_of_failure hmemory outOfRange)
    simp [Call.fatal?, Call.failure?, hfit]
  | overrunEdit e changed edit highlights hparsing hfit =>
    rw [hparsing] at h
    refine ⟨rfl, .asking rfl ?_ hmemory⟩
    cases h with
    | edit s _ _ hpending hsynced hedit =>
      simp only [Step.call?, hparsing, hcurrent]
      refine .again s changed edit _ _ outOfRange hpending hsynced hedit rfl ?_ rfl
      simp [Call.failure?, ← hcurrent, hfit]
  | misfitEdit e changed edit reason hparsing =>
    rw [hparsing] at h
    refine ⟨rfl, .asking rfl ?_ hmemory⟩
    cases h with
    | edit s _ _ hpending hsynced hedit =>
      simp only [Step.call?, hparsing, hcurrent]
      exact .again s changed edit _ _ (.reported (.misfit reason)) hpending hsynced hedit rfl rfl
        rfl
  | notParsed e request failure hparsing hfailure =>
    rw [hparsing] at h
    refine ⟨rfl, ?_⟩
    simp only [Step.call?, hparsing]
    refine .failed _ failure rfl h ⟨rfl, hcurrent, _, rfl⟩ ?_ rfl
      (memory_of_failure hmemory failure)
    cases request with
    | full t => rfl
    | incremental changed edit =>
      have hmisfit : failure.isMisfit = false := hfailure.resolve_left Bool.false_ne_true
      simp [Call.fatal?, Call.failure?, hmisfit]
  | _ => simp [Pipeline.step, hwork] at hstep

/-- A cycle begins in one of these ways. -/
theorem course_of_check (hphase : p.phase = .starting epoch)
    (hstep : p.step palette .work = some next) : Course palette epoch p next [] [] := by
  have hepoch : ∀ {e : Nat}, p.phase = .starting e → epoch = e := fun hstarting =>
    Phase.starting.inj (hphase.symm.trans hstarting)
  cases transition_of_step hstep with
  | skip e hstarting hstale =>
    obtain rfl := hepoch hstarting
    exact .skipped hstale rfl rfl rfl
  | choose language hstarting hpending =>
    obtain rfl := hepoch hstarting
    exact .asking rfl (.choosing language hpending) rfl
  | parseFull hstarting hpending hsynced =>
    obtain rfl := hepoch hstarting
    exact .asking rfl (.whole hpending hsynced) rfl
  | parseEdit s changed edit hstarting hpending hsynced hedit hchanged =>
    obtain rfl := hepoch hstarting
    exact .asking rfl (.edit s changed edit hpending hsynced hedit hchanged) rfl
  | parseNothing s hstarting hpending hsynced htext =>
    obtain rfl := hepoch hstarting
    exact .unchanged s rfl hpending hsynced htext (.ready rfl rfl)
  | _ => simp_all

/-- Everything that can become of a cycle is one of the courses. -/
theorem Cycle.course {made : List Step} (h : Cycle palette epoch p made q) :
    Course palette epoch p q (calls made) (publications made) := by
  induction h with
  | @check next hphase hstep =>
    have hpublications : publications [⟨p, .work, next⟩] = [] := by
      simp [publications, Step.publication?, hphase]
    rw [hpublications]
    exact course_of_check hphase hstep
  | @snoc made q next move hmade hbusy hstep ih =>
    rw [calls_concat, publications_concat]
    generalize calls made = madeCalls at ih
    generalize publications made = madePublications at ih
    cases ih with
    | skipped _ _ hphase | failed _ _ _ _ _ _ hphase => exact absurd hphase hbusy
    | asking hcurrent hasking hmemory =>
      obtain ⟨hnone, hnext⟩ := hasking.step hmemory hstep
      rw [hnone, hcurrent]
      exact hnext
    | unchanged s hcurrent hpending hsynced htext hfinish =>
      obtain ⟨hnone, hnext⟩ := hfinish.step hbusy hsynced hstep
      rw [hnone]
      exact .unchanged s hcurrent hpending hsynced htext hnext
    | parsed call s hcurrent hasking hanswers hfailure hrevision hresult htext hfinish =>
      obtain ⟨hnone, hnext⟩ := hfinish.step hbusy rfl hstep
      rw [hnone, Option.toList_none, List.append_nil]
      exact .parsed call s hcurrent hasking hanswers hfailure hrevision hresult htext hnext

/-- A cycle continues the history that it began in. -/
theorem Cycle.history {language : Language} {text : Text} {past made : List Step}
    (h : Cycle palette epoch p made q) (hpast : History palette language text past p) :
    History palette language text (past ++ made) q := by
  induction h with
  | check _ hstep => exact hpast.snoc hstep
  | snoc _ _ hstep ih =>
    rw [← List.append_assoc]
    exact ih.snoc hstep

end Retint.Pipeline
