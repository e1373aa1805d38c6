import Retint.Proofs.Pipeline.Publication

/-!
# Nothing outside the text is published

The parser may answer any offsets. A result is made of an answer only if every highlight is a range
of the text that was parsed, so what is published lies in the text that the owner saw last. An
answer that goes beyond the text has no other effect than that it was not given: for an edit the
whole text is parsed in the same cycle, and for a whole text the cycle fails.
-/

namespace Retint

/-- Not all highlights are ranges of a text exactly if one of them is none. -/
theorem Highlight.allFit_eq_false_iff {highlights : List Highlight} {size : Nat} :
    allFit highlights size = false ↔ ∃ h ∈ highlights, h.fits size = false := by
  simp [allFit]

/-- The spans of highlights that are ranges of a text lie in that text. -/
theorem Palette.le_of_mem_spans {palette : Palette} {highlights : List Highlight} {size : Nat}
    {span : Span} (hfit : Highlight.allFit highlights size = true)
    (hspan : span ∈ palette.spans highlights) : span.start ≤ span.stop ∧ span.stop ≤ size := by
  obtain ⟨h, hmem, rfl⟩ := List.mem_map.mp hspan
  have hfits := List.all_eq_true.mp hfit h hmem
  simp only [Highlight.fits, Bool.and_eq_true, decide_eq_true_eq] at hfits
  exact hfits

namespace Pipeline

/-- After a call the parser was asked for the whole text in the same cycle, or it is being asked for
it now. The calls are those that returned later. -/
def IsFollowedByWhole (p : Pipeline) (call : Call) : List Call → Prop
  | [] => p.current = call.text ∧ p.phase = .parsing call.epoch (.full call.text)
  | next :: _ => next.epoch = call.epoch ∧ next.text = call.text ∧
      ∃ answer, next.exchange = .parse (.full call.text) answer

variable {palette : Palette} {language : Language} {text t changed : Text} {p next : Pipeline}
  {move : Move} {past : List Step} {s : Step} {call : Call} {edit : Edit} {epoch : Nat}
  {request : ParseRequest} {answer : Except Failure (List Highlight)}
  {highlights : List Highlight}

/-- A parse that returned, seen from the step in which it did. -/
theorem Step.of_parse (h : s.call? = some call) (hparse : call.exchange = .parse request answer) :
    s.move = .parsed answer ∧ s.before.phase = .parsing call.epoch request ∧
      s.before.current = call.text ∧
      (s.after.revision = s.before.revision → call.revision = none) := by
  unfold Step.call? at h
  split at h
  · cases Option.some.inj h
    contradiction
  · cases Option.some.inj h
    cases hparse
    refine ⟨‹_›, ‹_›, rfl, fun hsame => ?_⟩
    simp [hsame]
  · contradiction

/-- An answer beyond the text to an edit: the cycle goes on with the whole text. -/
theorem step_of_overrun_edit (hphase : p.phase = .parsing epoch (.incremental changed edit))
    (hover : Highlight.allFit highlights p.current.byteSize = false) :
    p.step palette (.parsed (.ok highlights)) =
      some { p with phase := .parsing epoch (.full p.current) } := by
  simp [step, hphase, afterParse, hover]

/-- An answer beyond the text to the whole text: the cycle fails. -/
theorem step_of_overrun_full (hphase : p.phase = .parsing epoch (.full t))
    (hover : Highlight.allFit highlights p.current.byteSize = false) :
    p.step palette (.parsed (.ok highlights)) = some (p.fail outOfRange) := by
  simp [step, hphase, afterParse, hover]

/-- No result is made of an answer beyond the text. -/
theorem Step.revision_eq_none_of_overrun (hstep : s.before.step palette s.move = some s.after)
    (hcall : s.call? = some call) (hparse : call.exchange = .parse request (.ok highlights))
    (hover : Highlight.allFit highlights call.text.byteSize = false) : call.revision = none := by
  obtain ⟨hmove, hphase, htext, hrevision⟩ := Step.of_parse hcall hparse
  rw [← htext] at hover
  rw [hmove] at hstep
  apply hrevision
  cases request with
  | full t =>
    rw [step_of_overrun_full hphase hover] at hstep
    rw [← Option.some.inj hstep]
    rfl
  | incremental changed edit =>
    rw [step_of_overrun_edit hphase hover] at hstep
    rw [← Option.some.inj hstep]

/-- While the whole text is parsed, nothing happens to the worker until the parser answers. -/
theorem step_of_parsing_whole (hphase : p.phase = .parsing epoch (.full t))
    (hstep : p.step palette move = some next) :
    (Step.call? ⟨p, move, next⟩ = none ∧ next.phase = p.phase ∧ next.current = p.current) ∨
      ∃ call, Step.call? ⟨p, move, next⟩ = some call ∧ call.epoch = epoch ∧
        call.text = p.current ∧ ∃ answer, call.exchange = .parse (.full t) answer := by
  cases move with
  | text new =>
    refine .inl ⟨rfl, ?_⟩
    cases transition_of_step hstep with
    | sameText | newText => exact ⟨rfl, rfl⟩
  | language l =>
    cases hstep
    exact .inl ⟨rfl, rfl, rfl⟩
  | work => simp [step, work, hphase] at hstep
  | chosen answer => simp [step, hphase] at hstep
  | parsed answer => exact .inr ⟨_, by simp [Step.call?, hphase]; rfl, rfl, rfl, answer, rfl⟩

/-- A call that the whole text follows goes on being followed by it. -/
theorem IsFollowedByWhole.step {later : List Call} (h : IsFollowedByWhole p call later)
    (hstep : p.step palette move = some next) :
    IsFollowedByWhole next call (later ++ (Step.call? ⟨p, move, next⟩).toList) := by
  cases later with
  | nil =>
    obtain ⟨htext, hphase⟩ := h
    rcases step_of_parsing_whole hphase hstep with
      ⟨hnone, hsame, hcurrent⟩ | ⟨other, hsome, hother⟩
    · rw [hnone]
      exact ⟨hcurrent.trans htext, hsame.trans hphase⟩
    · rw [hsome]
      rw [htext] at hother
      exact hother
  | cons => exact h

/-- After an answer beyond the text to an edit, the whole text is parsed in the same cycle. -/
theorem History.isFollowedByWhole (h : History palette language text past p)
    {earlier later : List Call} (hcalls : calls past = earlier ++ call :: later)
    (hparse : call.exchange = .parse (.incremental changed edit) (.ok highlights))
    (hover : Highlight.allFit highlights call.text.byteSize = false) :
    IsFollowedByWhole p call later := by
  induction h generalizing later with
  | opened => simp [calls] at hcalls
  | @snoc past p next move hpast hstep ih =>
    rcases calls_concat_eq_append hcalls with ⟨between, hbefore, rfl⟩ | ⟨hcall, rfl⟩
    · exact (ih hbefore).step hstep
    · obtain ⟨hmove, hphase, htext, _⟩ := Step.of_parse hcall hparse
      dsimp only at hmove hphase htext
      rw [← htext] at hover
      rw [hmove, step_of_overrun_edit hphase hover, Option.some.injEq] at hstep
      subst hstep
      exact ⟨htext, by rw [htext]⟩

/-- **Nothing outside the text is published, whatever the parser answers.** When a move replaces
what is published, the new spans are those of a call whose highlights all fit its text, and each of
them lies in the text that the owner saw last. No result is made of an answer of which some
highlight does not fit the text: if it was for an edit, the whole of that text is parsed next in the
same cycle, and if it was for a whole text, the cycle fails just as if the parser had reported it.
-/
theorem published_spans_lie_in_text (h : History palette language text past p) :
    (∀ move next, p.step palette move = some next →
      next.publishedRevision ≠ p.publishedRevision ∨ next.published ≠ p.published →
      IsPublishedFor palette past next next.lastText ∧
        ∀ span ∈ next.published,
          span.start ≤ span.stop ∧ span.stop ≤ next.lastText.byteSize) ∧
    (∀ earlier call later request highlights, calls past = earlier ++ call :: later →
      call.exchange = .parse request (.ok highlights) →
      (∃ h ∈ highlights, h.fits call.text.byteSize = false) →
      call.revision = none ∧ (request.isFull = false → IsFollowedByWhole p call later)) ∧
    ∀ epoch t highlights next, p.phase = .parsing epoch (.full t) →
      p.step palette (.parsed (.ok highlights)) = some next →
      (∃ h ∈ highlights, h.fits t.byteSize = false) →
      next = p.fail outOfRange ∧ p.step palette (.parsed (.error outOfRange)) = some next ∧
        Step.outcome? ⟨p, .parsed (.ok highlights), next⟩ = some .failed := by
  refine ⟨?_, ?_, ?_⟩
  · intro move next hstep hreplaced
    obtain ⟨hphase, _, hlastText, s, hsynced, hrevision, hspans⟩ :=
      publish_of_replaced (transition_of_step hstep) hreplaced
    obtain ⟨call, hcall, hresult⟩ := h.publishing_result hphase hsynced
    rw [← hrevision, ← hspans, ← hlastText] at hresult
    refine ⟨⟨call, hcall, hresult⟩, fun span hspan => ?_⟩
    obtain ⟨_, _, _, highlights, _, _, hfit, hpublished⟩ := hresult
    rw [hpublished] at hspan
    exact Palette.le_of_mem_spans hfit hspan
  · intro earlier call later request highlights hcalls hparse hover
    rw [← Highlight.allFit_eq_false_iff] at hover
    constructor
    · have hmem : call ∈ calls past := by simp [hcalls]
      obtain ⟨s, hs, hcall⟩ := List.mem_filterMap.mp hmem
      exact Step.revision_eq_none_of_overrun (h.step_of_mem hs) hcall hparse hover
    · intro hedit
      cases request with
      | full t => contradiction
      | incremental changed edit => exact h.isFollowedByWhole hcalls hparse hover
  · intro epoch t highlights next hphase hstep hover
    have ht : t = p.current := by
      have hfits := h.fits
      rw [hphase] at hfits
      exact hfits
    rw [ht, ← Highlight.allFit_eq_false_iff] at hover
    rw [step_of_overrun_full hphase hover, Option.some.injEq] at hstep
    subst hstep
    refine ⟨rfl, ?_, ?_⟩
    · simp [step, hphase, afterParse]
    · simp [Step.outcome?, hphase, fail]

/-- The parser answers the largest offset of 64 bits to an edit, and then the whole text is parsed
and published. An empty range that ends before it starts makes the same cycle fail instead. -/
theorem published_spans_lie_in_text_after_overrun :
    let palette := Palette.ofTheme .empty
    let moves := [.work, .work, .work, .chosen (.ok ()), .parsed (.ok [⟨0, 1, 2⟩]), .work,
      .text ['a', 'b'], .work, .work, .work, .parsed (.ok [⟨0, 18446744073709551615, 2⟩])]
    let asked : Pipeline := {
      epoch := 2
      lastText := ['a', 'b']
      language := .rust
      queue := []
      current := ['a', 'b']
      pendingLanguage := none
      synced := some ⟨['a'], [⟨palette.style 2, 0, 1⟩], 1⟩
      revision := 1
      publishedRevision := 1
      published := [⟨palette.style 2, 0, 1⟩]
      phase := .parsing 2 (.full ['a', 'b']) }
    let p : Pipeline := {
      asked with
      synced := some ⟨['a', 'b'], [⟨palette.style 3, 0, 2⟩], 2⟩
      revision := 2
      phase := .publishing 2 }
    let next : Pipeline := {
      p with phase := .idle, published := [⟨palette.style 3, 0, 2⟩], publishedRevision := 2 }
    let past := (Pipeline.opened .rust ['a']).steps palette (moves ++ [.parsed (.ok [⟨0, 2, 3⟩])])
    let call : Call := ⟨2, ['a', 'b'], .parse (.incremental ['b'] ⟨1, 1, 2⟩)
      (.ok [⟨0, 18446744073709551615, 2⟩]), 2, none⟩
    let whole : Call := ⟨2, ['a', 'b'], .parse (.full ['a', 'b']) (.ok [⟨0, 2, 3⟩]), 2, some 2⟩
    History palette .rust ['a'] past p ∧ p.step palette .work = some next ∧
      next.publishedRevision ≠ p.publishedRevision ∧
      (∀ span ∈ next.published, span.start ≤ span.stop ∧ span.stop ≤ next.lastText.byteSize) ∧
      calls past = (calls past).take 2 ++ call :: [whole] ∧ IsFollowedByWhole p call [whole] ∧
      asked.step palette (.parsed (.ok [⟨1, 0, 2⟩])) = some (asked.fail outOfRange) := by
  intro palette moves asked p next past call whole
  have h : History palette .rust ['a'] past p := history_iff_run.mpr ⟨_, rfl, rfl⟩
  have hasked : History palette .rust ['a'] ((Pipeline.opened .rust ['a']).steps palette moves)
      asked := history_iff_run.mpr ⟨moves, rfl, rfl⟩
  have hstep : p.step palette .work = some next := rfl
  have hreplaced : next.publishedRevision ≠ p.publishedRevision := by decide
  have hcalls : calls past = (calls past).take 2 ++ call :: [whole] := rfl
  obtain ⟨hpublished, hfollowed, _⟩ := published_spans_lie_in_text h
  obtain ⟨_, hspans⟩ := hpublished _ _ hstep (.inl hreplaced)
  obtain ⟨_, hwhole⟩ :=
    hfollowed _ call [whole] _ _ hcalls rfl ⟨_, List.mem_singleton_self _, by decide⟩
  obtain ⟨_, _, hfails⟩ := published_spans_lie_in_text hasked
  obtain ⟨hfailed, _⟩ :=
    hfails 2 ['a', 'b'] [⟨1, 0, 2⟩] _ rfl rfl ⟨_, List.mem_singleton_self _, by decide⟩
  exact ⟨h, hstep, hreplaced, hspans, hcalls, hwhole rfl, congrArg some hfailed⟩

end Pipeline

end Retint
