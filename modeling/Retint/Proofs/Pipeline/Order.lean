import Retint.Proofs.Pipeline.Cycle

/-!
# No result is published twice

The revisions number the parses of a run, and a publication always has a greater one than those
before it. So no result is published twice, nor after a later one. This is also what a worker relies
on whose text returns to the one that was parsed last: it parses nothing, and it publishes the
result exactly if that did not happen before.
-/

namespace Retint

/-- Whether the events of a batch are being taken, or its cycle is about to begin. -/
def Phase.isGathering : Phase → Bool
  | .draining _ | .starting _ => true
  | _ => false

namespace Pipeline

/-- The newest text among some events. -/
def newestTextOf? (events : List Event) : Option Text :=
  events.reverse.findSome? fun event => event.notice.text?

/-- The newest language among some events. -/
def newestLanguageOf? (events : List Event) : Option Language :=
  events.reverse.findSome? fun event => event.notice.language?

/-- What the worker remembers after some events. -/
def Memory.hear (m : Memory) (events : List Event) : Memory :=
  { m with
    current := (newestTextOf? events).getD m.current
    pendingLanguage := (newestLanguageOf? events).or m.pendingLanguage }

/-- The steps in which a worker that was idle takes a batch of events, up to the beginning of its
cycle, and the pipeline they lead to. The owner may go on sending notices. -/
inductive Batch (palette : Palette) (p : Pipeline) : List Step → Pipeline → Prop where
  /-- The first event is taken. -/
  | take {next : Pipeline} (hphase : p.phase = .idle) (hstep : p.step palette .work = some next) :
      Batch palette p [⟨p, .work, next⟩] next
  /-- One more move before the cycle begins. -/
  | snoc {made : List Step} {q next : Pipeline} {move : Move} (hmade : Batch palette p made q)
      (hstep : q.step palette move = some next) (hnext : next.phase.isGathering = true) :
      Batch palette p (made ++ [⟨q, move, next⟩]) next

variable {palette : Palette} {language : Language} {text : Text} {past made batch cycle : List Step}
  {epoch : Nat} {p q r next : Pipeline} {move : Move} {s : Synced}

/-- Events may be heard in several parts. -/
theorem Memory.hear_append (m : Memory) (events later : List Event) :
    m.hear (events ++ later) = (m.hear events).hear later := by
  simp only [Memory.hear, newestTextOf?, newestLanguageOf?, List.reverse_append,
    List.findSome?_append, Option.or_assoc]
  cases later.reverse.findSome? fun event => event.notice.text? <;> simp

/-- Within a batch the parser is not called, nothing is published, and the worker hears of the
event that it takes. -/
theorem step_of_gathering (hstep : p.step palette move = some next)
    (hnext : next.phase.isGathering = true) :
    Step.call? ⟨p, move, next⟩ = none ∧ Step.publication? ⟨p, move, next⟩ = none ∧
      next.memory = p.memory.hear (Step.taken? ⟨p, move, next⟩).toList := by
  cases transition_of_step hstep with
  | sameText | newText | newLanguage => exact ⟨rfl, rfl, rfl⟩
  | take event later hphase hqueue =>
    rcases hphase with hphase | ⟨e, hphase⟩
    · refine ⟨rfl, by simp [Step.publication?, hphase], ?_⟩
      simp [Step.taken?, hphase, hqueue, Memory.hear, newestTextOf?, newestLanguageOf?, memory]
    · refine ⟨rfl, by simp [Step.publication?, hphase], ?_⟩
      simp [Step.taken?, hphase, hqueue, Memory.hear, newestTextOf?, newestLanguageOf?, memory]
  | drained e hphase hqueue =>
    refine ⟨rfl, by simp [Step.publication?, hphase], ?_⟩
    simp [Step.taken?, hphase, hqueue, Memory.hear, newestTextOf?, newestLanguageOf?, memory]
  | _ => simp [Phase.isGathering] at hnext

/-- A batch leaves the newest of its texts and the newest of its languages with the worker, and
changes nothing else that the worker remembers. -/
theorem Batch.memory_eq (h : Batch palette p made q) :
    calls made = [] ∧ publications made = [] ∧ q.memory = p.memory.hear (taken made) := by
  induction h with
  | @take next hphase hstep =>
    have hnext : next.phase.isGathering = true := by
      cases transition_of_step hstep with
      | take => rfl
      | _ => simp_all
    obtain ⟨hcall, hpublication, hmemory⟩ := step_of_gathering hstep hnext
    refine ⟨by simp [calls, hcall], by simp [publications, hpublication], hmemory.trans ?_⟩
    exact congrArg p.memory.hear (taken_concat [] _).symm
  | @snoc made q next move hmade hstep hnext ih =>
    obtain ⟨hcalls, hpublications, hbefore⟩ := ih
    obtain ⟨hcall, hpublication, hmemory⟩ := step_of_gathering hstep hnext
    rw [calls_concat, publications_concat, taken_concat, hcalls, hpublications, hcall, hpublication,
      hmemory, hbefore, Memory.hear_append]
    exact ⟨rfl, rfl, rfl⟩

/-- A batch continues the history that it is taken in. -/
theorem Batch.history (h : Batch palette p made q) (hpast : History palette language text past p) :
    History palette language text (past ++ made) q := by
  induction h with
  | take _ hstep => exact hpast.snoc hstep
  | snoc _ hstep _ ih =>
    rw [← List.append_assoc]
    exact ih.snoc hstep

/-! ### The order of the publications -/

/-- What a move does to the results: it publishes the one that the worker holds, or it leaves what
is published. -/
theorem publication_cases (ht : Transition palette p move next) :
    (Step.publication? ⟨p, move, next⟩ = none ∧ next.published = p.published ∧
      next.publishedRevision = p.publishedRevision) ∨
    ∃ s, Step.publication? ⟨p, move, next⟩ = some s ∧ p.synced = some s ∧
      s.revision ≠ p.publishedRevision ∧ p.phase = .publishing p.epoch ∧
      next.synced = some s ∧ next.published = s.spans ∧ next.publishedRevision = s.revision := by
  cases ht with
  | publish s hphase hsynced hnew =>
    refine .inr ⟨s, ?_, hsynced, hnew, hphase, hsynced, rfl, rfl⟩
    simp only [Step.publication?, hphase]
    exact due?_eq_some_iff.mpr ⟨hsynced, hnew, rfl⟩
  | withhold e hphase hold =>
    refine .inl ⟨?_, rfl, rfl⟩
    simp only [Step.publication?, hphase]
    exact due?_eq_none hold
  | take event later hphase hqueue =>
    refine .inl ⟨?_, rfl, rfl⟩
    rcases hphase with hphase | ⟨e, hphase⟩ <;> simp [Step.publication?, hphase]
  | _ => exact .inl ⟨by simp_all [Step.publication?], rfl, rfl⟩

/-- The publications have growing revisions, the last of which is remembered with its spans, and
the worker knows of the result it holds whether it was published. -/
structure Ordered (past : List Step) (p : Pipeline) : Prop where
  increasing : ((publications past).map Synced.revision).Pairwise (· < ·)
  revision_le : ∀ s ∈ publications past, s.revision ≤ p.publishedRevision
  shown : p.published = ((publications past).getLast?.map Synced.spans).getD []
  synced : ∀ s, p.synced = some s → s.revision = p.publishedRevision → s ∈ publications past

/-- What the worker holds after a move is what it held before, or a new result, or nothing. -/
theorem synced_cases (ht : Transition palette p move next) (hsynced : next.synced = some s) :
    p.synced = some s ∨ s.revision = p.revision + 1 := by
  cases ht with
  | parsedFull | parsedEdit =>
    rw [← Option.some.inj hsynced]
    exact .inr rfl
  | notChosen | notParsed | overrunFull => contradiction
  | _ => exact .inl hsynced

theorem Ordered.concat (h : Ordered past p) (hrevised : Revised p)
    (hstep : p.step palette move = some next) : Ordered (past ++ [⟨p, move, next⟩]) next := by
  have hle := hrevised.published_le
  have ht := transition_of_step hstep
  rcases publication_cases ht with ⟨hnone, hpublished, hrevision⟩ |
    ⟨s, hsome, hheld, hnew, _, hkept, hpublished, hrevision⟩
  · have hsame : publications (past ++ [⟨p, move, next⟩]) = publications past := by
      rw [publications_concat, hnone, Option.toList_none, List.append_nil]
    refine ⟨?_, ?_, ?_, ?_⟩
    · rw [hsame]
      exact h.increasing
    · rw [hsame, hrevision]
      exact h.revision_le
    · rw [hsame, hpublished]
      exact h.shown
    · intro t hkept hshown
      rw [hsame]
      rw [hrevision] at hshown
      rcases synced_cases ht hkept with hbefore | hresult
      · exact h.synced t hbefore hshown
      · omega
  · have hmore : publications (past ++ [⟨p, move, next⟩]) = publications past ++ [s] := by
      rw [publications_concat, hsome, Option.toList_some]
    have hlater : p.publishedRevision < s.revision := by
      have hnumber := hrevised.synced s hheld
      omega
    refine ⟨?_, ?_, ?_, ?_⟩
    · rw [hmore, List.map_append, List.pairwise_append]
      refine ⟨h.increasing, List.pairwise_singleton _ _, ?_⟩
      rintro earlier hearlier later hlast
      obtain ⟨t, hmem, rfl⟩ := List.mem_map.mp hearlier
      have hle := h.revision_le t hmem
      rw [List.mem_singleton.mp hlast]
      omega
    · rw [hmore, hrevision]
      intro t hmem
      rcases List.mem_append.mp hmem with hmem | hmem
      · have hle := h.revision_le t hmem
        omega
      · exact Nat.le_of_eq (congrArg Synced.revision (List.mem_singleton.mp hmem))
    · rw [hmore, List.getLast?_concat, hpublished]
      rfl
    · intro t hheldNow _
      rw [hmore, Option.some.inj (hheldNow.symm.trans hkept)]
      exact List.mem_append_right _ (List.mem_singleton_self s)

theorem History.ordered (h : History palette language text past p) : Ordered past p := by
  induction h with
  | opened => exact ⟨List.Pairwise.nil, nofun, rfl, nofun⟩
  | snoc hpast hstep ih => exact ih.concat hpast.revised hstep

/-- The worker holds a result that was published exactly if its revision is the one published
last. -/
theorem History.mem_publications_iff (h : History palette language text past p)
    (hsynced : p.synced = some s) :
    s ∈ publications past ↔ s.revision = p.publishedRevision := by
  have hrevised := h.revised
  have hordered := h.ordered
  constructor
  · intro hmem
    have hle := hordered.revision_le s hmem
    have hbound := hrevised.published_le
    have hnumber := hrevised.synced s hsynced
    omega
  · exact hordered.synced s hsynced

/-- Whatever is published is the result of a call. -/
theorem History.publication_isResult (h : History palette language text past p)
    (hmem : s ∈ publications past) :
    ∃ call ∈ calls past, call.IsResult palette s.revision s.text s.spans := by
  induction h with
  | opened => contradiction
  | @snoc past p next move hpast hstep ih =>
    rw [publications_concat, List.mem_append] at hmem
    rcases hmem with hmem | hmem
    · obtain ⟨call, hcall, hresult⟩ := ih hmem
      exact ⟨call, mem_calls_concat _ hcall, hresult⟩
    · rcases publication_cases (transition_of_step hstep) with ⟨hnone, _⟩ |
        ⟨t, hsome, hheld, _, hphase, _⟩
      · rw [hnone] at hmem
        contradiction
      · rw [hsome] at hmem
        obtain rfl : s = t := List.mem_singleton.mp hmem
        obtain ⟨earlier, call, hcalls, hresult⟩ :=
          hpast.synced_isResult hheld (by rw [hphase]; rfl)
        exact ⟨call, mem_calls_concat _ (by simp [hcalls]), hresult⟩

/-- The revisions number the results in the order in which the calls returned. -/
theorem History.revisions_eq (h : History palette language text past p) :
    (calls past).filterMap Call.revision = List.range' 1 p.revision := by
  induction h with
  | opened => rfl
  | @snoc past p next move _ hstep ih =>
    rw [calls_concat, List.filterMap_append, ih]
    cases transition_of_step hstep with
    | parsedFull _ _ _ hphase | parsedEdit _ _ _ _ hphase =>
      simp [Step.call?, hphase, List.range'_concat, Nat.add_comm]
    | _ => simp_all [Step.call?]

/-! ### A text that returns -/

/-- A cycle in which nothing is to be chosen asks the parser only for another text than the one
that it parsed last. -/
theorem Asking.text_ne {made : List Call} {phase : Phase} (h : Asking p made phase)
    (hpending : p.pendingLanguage = none) (hsynced : p.synced = some s) : s.text ≠ p.current := by
  intro htext
  cases h with
  | choosing l hsome | chosen l _ hsome => simp [hpending] at hsome
  | whole _ hnone => simp [hsynced] at hnone
  | edit t _ _ _ hheld hedit | again t _ _ _ _ _ _ hheld hedit =>
    rw [Option.some.inj (hheld.symm.trans hsynced), Edit.between?_eq_none_iff.mpr htext] at hedit
    contradiction

/-- A cycle that finds the text that was parsed last calls no parser, keeps the result, and
publishes it if it is not superseded and the result was not published before. -/
theorem Cycle.unchanged (h : Cycle palette epoch p made q) (hpending : p.pendingLanguage = none)
    (hsynced : p.synced = some s) (htext : s.text = p.current) :
    calls made = [] ∧ q.synced = some s ∧ (q.phase = .publishing epoch ∨ q.phase = .idle) ∧
      (q.phase = .idle → publications made =
        if epoch = q.epoch ∧ s.revision ≠ p.publishedRevision then [s] else []) := by
  have hcourse := h.course
  generalize calls made = madeCalls at hcourse
  generalize publications made = madePublications at hcourse
  cases hcourse with
  | asking _ hasking | failed _ _ _ hasking | parsed _ _ _ hasking =>
    exact absurd htext (hasking.text_ne hpending hsynced)
  | skipped hstale _ hphase hmemory =>
    refine ⟨rfl, (congrArg Memory.synced hmemory).trans hsynced, .inr hphase, fun _ => ?_⟩
    simp [hstale]
  | unchanged t _ _ hheld _ hfinish =>
    obtain rfl : t = s := Option.some.inj (hheld.symm.trans hsynced)
    cases hfinish with
    | ready hphase hmemory =>
      refine ⟨rfl, (congrArg Memory.synced hmemory).trans hsynced, .inl hphase, ?_⟩
      simp [hphase]
    | sent hphase hcurrent hnew hmemory =>
      refine ⟨rfl, (congrArg Memory.synced hmemory).trans hsynced, .inr hphase, fun _ => ?_⟩
      rw [if_pos ⟨hcurrent, hnew⟩]
    | withheld hphase hmemory hold =>
      refine ⟨rfl, (congrArg Memory.synced hmemory).trans hsynced, .inr hphase, fun _ => ?_⟩
      rw [if_neg fun hdue => hdue.2 (hold hdue.1)]

/-- A batch without a language and the cycle after it, which finds again the text that was parsed
last, call no parser; the result that the worker holds is then shown if the cycle was not
superseded, and it is sent if it never was before. -/
theorem History.returns (h : History palette language text past p)
    (hbatch : Batch palette p batch r) (hcycle : Cycle palette epoch r cycle q)
    (hsynced : p.synced = some s) (hpending : p.pendingLanguage = none)
    (hlanguage : ∀ event ∈ taken batch, event.notice.language? = none)
    (htext : (newestTextOf? (taken batch)).getD p.current = s.text) :
    calls (batch ++ cycle) = [] ∧ q.synced = some s ∧
      (q.phase = .publishing epoch ∨ q.phase = .idle) ∧
      (q.phase = .idle → (epoch = q.epoch → q.published = s.spans) ∧
        publications (batch ++ cycle) =
          if epoch = q.epoch ∧ s ∉ publications past then [s] else []) := by
  have hr := hbatch.history h
  have hq := hcycle.history hr
  obtain ⟨hbatchCalls, hbatchPublications, hmemory⟩ := hbatch.memory_eq
  have hcurrent : s.text = r.current := htext.symm.trans (congrArg Memory.current hmemory).symm
  have hheld : r.synced = some s := (congrArg Memory.synced hmemory).trans hsynced
  have hrevision : r.publishedRevision = p.publishedRevision :=
    congrArg Memory.publishedRevision hmemory
  have hnone : r.pendingLanguage = none := by
    have hnew : newestLanguageOf? (taken batch) = none :=
      List.findSome?_eq_none_iff.mpr fun event hevent =>
        hlanguage event (List.mem_reverse.mp hevent)
    have hsame : r.pendingLanguage = (newestLanguageOf? (taken batch)).or p.pendingLanguage :=
      congrArg Memory.pendingLanguage hmemory
    rw [hsame, hnew, hpending]
    rfl
  obtain ⟨hcycleCalls, hkept, hphase, hcyclePublications⟩ := hcycle.unchanged hnone hheld hcurrent
  have hcalls : calls (batch ++ cycle) = calls batch ++ calls cycle := List.filterMap_append
  have hall : publications (past ++ batch ++ cycle) =
      publications past ++ publications batch ++ publications cycle := by
    simp only [publications, List.filterMap_append]
  have hsent : publications (batch ++ cycle) = publications batch ++ publications cycle :=
    List.filterMap_append
  rw [hbatchPublications, List.append_nil] at hall
  rw [hbatchPublications, List.nil_append] at hsent
  refine ⟨by rw [hcalls, hbatchCalls, hcycleCalls]; rfl, hkept, hphase, fun hidle => ?_⟩
  have hpublications : publications cycle =
      if epoch = q.epoch ∧ s ∉ publications past then [s] else [] := by
    simp only [hcyclePublications hidle, h.mem_publications_iff hsynced, hrevision, ne_eq]
  refine ⟨fun hnewest => ?_, hsent.trans hpublications⟩
  -- The result was published before or is now, so its spans are the ones shown.
  have hmem : s ∈ publications (past ++ batch ++ cycle) := by
    rw [hall, hpublications]
    by_cases hbefore : s ∈ publications past
    · exact List.mem_append_left _ hbefore
    · rw [if_pos ⟨hnewest, hbefore⟩]
      exact List.mem_append_right _ (List.mem_singleton_self s)
  exact (hq.revised.shown s hkept ((hq.mem_publications_iff hkept).mp hmem)).symm

/-- **No parse is redundant and no result is published twice.** Take a worker that waits for events
and holds a result, with no language pending, and a batch without a language whose newest text, or
else the one before, is the text of that result. However the owner's moves interleave, the cycle
makes no call and keeps the result; if it is not superseded, the result is then the one shown, and
it is sent exactly if it never was before. The revisions of all that is published in a run grow
strictly; each belongs to the call that gave the result, and they number the results in the order
in which the calls returned. What is shown is what was published last. -/
theorem no_result_is_published_twice (h : History palette language text past p) :
    (∀ batch r epoch cycle q s, Batch palette p batch r → Cycle palette epoch r cycle q →
      p.synced = some s → p.pendingLanguage = none →
      (∀ event ∈ taken batch, event.notice.language? = none) →
      (newestTextOf? (taken batch)).getD p.current = s.text →
        calls (batch ++ cycle) = [] ∧ q.synced = some s ∧
        (q.phase = .publishing epoch ∨ q.phase = .idle) ∧
        (q.phase = .idle → (epoch = q.epoch → q.published = s.spans) ∧
          publications (batch ++ cycle) =
            if epoch = q.epoch ∧ s ∉ publications past then [s] else [])) ∧
    ((publications past).map Synced.revision).Pairwise (· < ·) ∧
    (∀ s ∈ publications past, ∃ call ∈ calls past,
      call.IsResult palette s.revision s.text s.spans) ∧
    (calls past).filterMap Call.revision = List.range' 1 p.revision ∧
    p.published = ((publications past).getLast?.map Synced.spans).getD [] := by
  refine ⟨?_, h.ordered.increasing, fun s => h.publication_isResult, h.revisions_eq,
    h.ordered.shown⟩
  intro batch r epoch cycle q s hbatch hcycle hsynced hpending hlanguage htext
  exact h.returns hbatch hcycle hsynced hpending hlanguage htext

/-- The text changes while the parser is busy with it and changes back before the worker takes the
next batch: the cycle after that batch parses nothing, and it publishes the result that the first
one could not. -/
theorem no_result_is_published_twice_after_return :
    let palette := Palette.ofTheme .empty
    let moves := [.work, .work, .work, .chosen (.ok ()), .text ['b'], .parsed (.ok [⟨0, 1, 2⟩]),
      .work, .text ['a']]
    let past := (Pipeline.opened .rust ['a']).steps palette moves
    let s : Synced := ⟨['a'], [⟨palette.style 2, 0, 1⟩], 1⟩
    let p : Pipeline := {
      epoch := 3
      lastText := ['a']
      language := .rust
      queue := [⟨2, .text ['b']⟩, ⟨3, .text ['a']⟩]
      current := ['a']
      pendingLanguage := none
      synced := some s
      revision := 1
      publishedRevision := 0
      published := []
      phase := .idle }
    let first : Pipeline := {
      p with queue := [⟨3, .text ['a']⟩], current := ['b'], phase := .draining 2 }
    let second : Pipeline := { p with queue := [], phase := .draining 3 }
    let r : Pipeline := { p with queue := [], phase := .starting 3 }
    let busy : Pipeline := { p with queue := [], phase := .publishing 3 }
    let q : Pipeline := {
      p with queue := [], phase := .idle, published := s.spans, publishedRevision := 1 }
    let batch : List Step := [⟨p, .work, first⟩, ⟨first, .work, second⟩, ⟨second, .work, r⟩]
    let cycle : List Step := [⟨r, .work, busy⟩, ⟨busy, .work, q⟩]
    History palette .rust ['a'] past p ∧ Batch palette p batch r ∧ Cycle palette 3 r cycle q ∧
      publications past = [] ∧ calls (batch ++ cycle) = [] ∧ q.synced = some s ∧
      q.published = s.spans ∧ publications (batch ++ cycle) = [s] := by
  intro palette moves past s p first second r busy q batch cycle
  have h : History palette .rust ['a'] past p := history_iff_run.mpr ⟨moves, rfl, rfl⟩
  have htake : Batch palette p [⟨p, .work, first⟩] first := .take rfl rfl
  have htaken : Batch palette p [⟨p, .work, first⟩, ⟨first, .work, second⟩] second :=
    htake.snoc rfl rfl
  have hbatch : Batch palette p batch r := htaken.snoc rfl rfl
  have hcheck : Cycle palette 3 r [⟨r, .work, busy⟩] busy := .check rfl rfl
  have hcycle : Cycle palette 3 r cycle q := hcheck.snoc (by simp [busy]) rfl
  have hnothing : publications past = [] := rfl
  have hevents : taken batch = [⟨2, .text ['b']⟩, ⟨3, .text ['a']⟩] := rfl
  obtain ⟨hreturn, _⟩ := no_result_is_published_twice h
  obtain ⟨hcalls, hkept, _, hend⟩ := hreturn batch r 3 cycle q s hbatch hcycle rfl rfl
    (by simp [hevents, Notice.language?]) rfl
  obtain ⟨hshown, hsent⟩ := hend rfl
  rw [hnothing, if_pos ⟨rfl, List.not_mem_nil⟩] at hsent
  exact ⟨h, hbatch, hcycle, hnothing, hcalls, hkept, hshown rfl, hsent⟩

end Pipeline

end Retint
