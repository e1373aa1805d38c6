import Retint.Proofs.Pipeline.Results

/-!
# A pipeline at rest

A pipeline is at rest when no event waits and no cycle is under way. The cycle that ran last was
then not superseded, so it either completed, and the worker has nothing left to do: what it shows
is the result for the newest text. Or it failed, and the call that returned last says why.

The language takes its own way. While the worker still has to choose one, it is the one that the
owner chose last; once nothing is left to choose, the parser was told it, and has not been told
another one since.
-/

namespace Retint.Pipeline

/-- The worker has nothing left to choose, parse or publish. -/
structure Settled (p : Pipeline) : Prop where
  pending : p.pendingLanguage = none
  synced : ∃ s, p.synced = some s ∧ s.text = p.current ∧ s.revision = p.publishedRevision

/-- What is wrong with the answer to a call, if anything is. -/
def Call.failure? (call : Call) : Option Failure :=
  match call.exchange with
  | .choice _ (.ok _) => none
  | .choice _ (.error failure) => some failure
  | .parse _ (.ok highlights) =>
    if Highlight.allFit highlights call.text.byteSize then none else some outOfRange
  | .parse _ (.error failure) => some failure

/-- The call that returned last failed for the worker's text: nothing that was parsed is kept, and
a language whose grammar cannot be loaded is given up. -/
structure GaveUp (past : List Step) (p : Pipeline) : Prop where
  synced : p.synced = none
  call : ∃ earlier call failure, calls past = earlier ++ [call] ∧ call.text = p.current ∧
    call.failure? = some failure ∧ (failure.isGrammar = true → p.pendingLanguage = none)

/-- The last language that the parser was told is a given one, and it accepted it. -/
def LastChoice (made : List Call) (language : Language) : Prop :=
  ∃ before chosen later, made = before ++ chosen :: later ∧
    chosen.exchange = .choice language (.ok ()) ∧ ∀ call ∈ later, call.isChoice = false

variable {palette : Palette} {language : Language} {text : Text} {p next : Pipeline} {move : Move}
  {past : List Step}

/-- A call that goes wrong ends its cycle with the snapshot given up. -/
theorem GaveUp.of_call {s : Step} {call : Call} (past : List Step) (failure : Failure)
    (hcall : s.call? = some call) (htext : call.text = s.after.current)
    (hfailure : call.failure? = some failure) (hsynced : s.after.synced = none)
    (hforgotten : failure.isGrammar = true → s.after.pendingLanguage = none) :
    GaveUp (past ++ [s]) s.after := by
  refine ⟨hsynced, calls past, call, failure, ?_, htext, hfailure, hforgotten⟩
  rw [calls_concat, hcall]
  rfl

/-- At rest the cycle that ran last completed, with nothing left to do, or it failed. -/
theorem History.rest (h : History palette language text past p) (hphase : p.phase = .idle)
    (hqueue : p.queue = []) :
    ((outcomes past).getLast? = some .completed ∧ Settled p) ∨
      ((outcomes past).getLast? = some .failed ∧ GaveUp past p) := by
  induction h with
  | opened => simp [Pipeline.opened] at hqueue
  | @snoc past p next move hpast hstep ih =>
    obtain ⟨last, hnumbered⟩ := hpast.numbered
    have hfits := hpast.fits
    rw [outcomes_concat]
    cases transition_of_step hstep with
    | sameText =>
      have hcalls := calls_concat past ⟨p, .text p.lastText, p⟩
      simp only [Step.call?, Option.toList_none, List.append_nil] at hcalls
      simp only [Step.outcome?, hphase, Option.toList_none, List.append_nil]
      rcases ih hphase hqueue with hcompleted | ⟨hfailed, hgaveUp⟩
      · exact .inl hcompleted
      · refine .inr ⟨hfailed, hgaveUp.synced, ?_⟩
        rw [hcalls]
        exact hgaveUp.call
    | newText | newLanguage => simp at hqueue
    | skip epoch hstarting hstale =>
      -- The notice that made the batch stale still waits.
      exact absurd hqueue (hnumbered.queue_ne_nil (by rw [hstarting]; rfl) hstale)
    | notChosen epoch l failure hchoosing =>
      refine .inr ⟨by simp [Step.outcome?, hchoosing], ?_⟩
      refine .of_call past failure (by simp [Step.call?, hchoosing]; rfl) rfl rfl rfl ?_
      intro hgrammar
      simp [hgrammar]
    | notParsed epoch request failure hparsing =>
      refine .inr ⟨by simp [Step.outcome?, hparsing], ?_⟩
      refine .of_call past failure (by simp [Step.call?, hparsing]; rfl) rfl rfl rfl ?_
      intro hgrammar
      simp [hgrammar]
    | overrunFull epoch t highlights hparsing hfit =>
      refine .inr ⟨by simp [Step.outcome?, hparsing], ?_⟩
      refine .of_call past outOfRange (by simp [Step.call?, hparsing]; rfl) rfl ?_ rfl ?_
      · simp [Call.failure?, hfit]
      · intro hgrammar
        simp [outOfRange, Failure.isGrammar, ParserError.isGrammar] at hgrammar
    | publish synced hpublishing hsynced hnew =>
      rw [hpublishing] at hfits
      obtain ⟨hpending, s, hs, htext⟩ := hfits
      rw [Option.some.inj (hs.symm.trans hsynced)] at htext
      exact .inl ⟨by simp [Step.outcome?, hpublishing], hpending, synced, hsynced, htext, rfl⟩
    | withhold epoch hpublishing hold =>
      have hcurrent : epoch = p.epoch := by
        by_cases hstale : epoch = p.epoch
        · exact hstale
        · exact absurd hqueue (hnumbered.queue_ne_nil (by rw [hpublishing]; rfl) hstale)
      rw [hpublishing] at hfits
      obtain ⟨hpending, s, hs, htext⟩ := hfits
      have hrevision := (hold s hs).resolve_right (not_not_intro hcurrent)
      exact .inl ⟨by simp [Step.outcome?, hpublishing], hpending, s, hs, htext, hrevision⟩
    | _ => simp at hphase

/-- A pipeline at rest with nothing left to do shows what the last call answered for the text that
the owner saw last. -/
theorem History.settled_result (h : History palette language text past p) (hphase : p.phase = .idle)
    (hqueue : p.queue = []) (hsettled : Settled p) :
    ∃ earlier call, calls past = earlier ++ [call] ∧
      call.IsResult palette p.publishedRevision p.lastText p.published := by
  obtain ⟨_, s, hsynced, htext, hrevision⟩ := hsettled
  obtain ⟨earlier, call, hcalls, hresult⟩ := h.synced_isResult hsynced (by rw [hphase]; rfl)
  rw [htext, h.current_eq_of_queue hqueue, h.revised.shown s hsynced hrevision, hrevision]
    at hresult
  exact ⟨earlier, call, hcalls, hresult⟩

/-- While the whole text is parsed for a language, the parser was told it just before. -/
theorem History.chosen_before_whole (h : History palette language text past p) {l : Language}
    (hwhole : p.phase.isWhole = true) (hpending : p.pendingLanguage = some l) :
    ∃ earlier call, calls past = earlier ++ [call] ∧ call.exchange = .choice l (.ok ()) := by
  induction h with
  | opened => simp [Pipeline.opened, Phase.isWhole] at hwhole
  | @snoc past p next move hpast hstep ih =>
    have hfits := hpast.fits
    rw [calls_concat]
    cases transition_of_step hstep with
    | sameText | newText | newLanguage => simpa [Step.call?] using ih hwhole hpending
    | chosen epoch chosenLanguage hchoosing =>
      rw [hchoosing] at hfits
      have hl : chosenLanguage = l := Option.some.inj (hfits.symm.trans hpending)
      refine ⟨calls past, _, by simp [Step.call?, hchoosing]; rfl, ?_⟩
      rw [hl]
    | parseFull hstarting hnone => simp [hnone] at hpending
    | overrunEdit epoch changed edit highlights hparsing =>
      rw [hparsing] at hfits
      simp [hfits.1] at hpending
    | misfitEdit epoch changed edit reason hparsing =>
      rw [hparsing] at hfits
      simp [hfits.1] at hpending
    | _ => simp [Phase.isWhole, ParseRequest.isFull] at hwhole

/-- A parse after the last choice leaves it the last one. -/
theorem LastChoice.concat {made : List Call} {call : Call} (h : LastChoice made language)
    (hcall : call.isChoice = false) : LastChoice (made ++ [call]) language := by
  obtain ⟨before, chosen, later, hmade, hchosen, hlater⟩ := h
  refine ⟨before, chosen, later ++ [call], by simp [hmade], hchosen, ?_⟩
  intro other hother
  rcases List.mem_append.mp hother with hother | hother
  · exact hlater other hother
  · rwa [List.mem_singleton.mp hother]

/-- If no language is on its way while the parser is busy, it has been told the newest one. -/
private theorem lastChoice_of_parsing {epoch : Nat} {request : ParseRequest}
    (h : History palette language text past p) (hparsing : p.phase = .parsing epoch request)
    (hqueue : (p.queue.reverse.findSome? fun event => event.notice.language?) = none)
    (hnone : p.newestLanguage? = none → LastChoice (calls past) p.language) :
    LastChoice (calls past) p.language := by
  cases hpending : p.pendingLanguage with
  | none => exact hnone (by simp [newestLanguage?, hqueue, hpending])
  | some l =>
    have hl : l = p.language := h.newestLanguage_eq (by simp [newestLanguage?, hqueue, hpending])
    have hwhole : p.phase.isWhole = true := by
      rw [hparsing]
      cases request with
      | full t => rfl
      | incremental changed edit =>
        have hfits := h.fits
        rw [hparsing] at hfits
        simp [hfits.1] at hpending
    obtain ⟨earlier, call, hcalls, hexchange⟩ := h.chosen_before_whole hwhole hpending
    exact ⟨earlier, call, [], hcalls, hl ▸ hexchange, by simp⟩

/-- Unless the parser has answered to a choice with an error, it has been told the owner's
language when none is left to choose. -/
theorem History.lastChoice (h : History palette language text past p)
    (hchoices : ∀ call ∈ calls past, ∀ l error,
      call.exchange ≠ .choice l (.error (.reported error)))
    (hnewest : p.newestLanguage? = none) : LastChoice (calls past) p.language := by
  induction h with
  | opened => simp [newestLanguage?, Pipeline.opened, Notice.language?] at hnewest
  | @snoc past p next move hpast hstep ih =>
    have hfits := hpast.fits
    have ht := transition_of_step hstep
    replace ih := ih fun call hcall => hchoices call (mem_calls_concat _ hcall)
    rw [calls_concat] at hchoices ⊢
    cases move with
    | text t =>
      cases ht with
      | sameText => simpa [Step.call?] using ih hnewest
      | newText t hnew =>
        have hbefore : p.newestLanguage? = none := by
          simpa [newestLanguage?, Notice.language?] using hnewest
        simpa [Step.call?] using ih hbefore
    | language l =>
      cases ht with
      | newLanguage l => simp [newestLanguage?, Notice.language?] at hnewest
    | work =>
      have hbefore : p.newestLanguage? = none := by
        rw [← hnewest]
        cases ht with
        | take event later hphase hqueue => exact (newestLanguage?_take hqueue).symm
        | _ => rfl
      have hlanguage : next.language = p.language := by cases ht <;> rfl
      simpa [Step.call?, hlanguage] using ih hbefore
    | chosen answer =>
      cases ht with
      | chosen epoch l hchoosing =>
        rw [hchoosing] at hfits
        have hpending : p.pendingLanguage = some l := hfits
        simp [newestLanguage?, hpending] at hnewest
      | notChosen epoch l failure hchoosing =>
        rw [hchoosing] at hfits
        have hpending : p.pendingLanguage = some l := hfits
        cases failure with
        | reported error =>
          simp only [Step.call?, hchoosing, Option.toList_some, List.mem_append,
            List.mem_singleton] at hchoices
          exact absurd rfl (hchoices _ (.inr rfl) l error)
        | crashed => simp [newestLanguage?, Failure.isGrammar, hpending] at hnewest
    | parsed answer =>
      obtain ⟨epoch, request, hparsing, hqueue, hlanguage⟩ := ht.parsed_inv
      have hfound := (Option.or_eq_none_iff.mp hnewest).1
      rw [hqueue] at hfound
      have hchosen := lastChoice_of_parsing hpast hparsing hfound ih
      rw [hlanguage]
      simpa [Step.call?, hparsing] using hchosen.concat rfl

/-- Two members of a list of which one is the last and another one is not. -/
theorem mem_of_concat_eq {α : Type} {before later earlier : List α} {a b : α}
    (h : before ++ a :: later = earlier ++ [b]) (hne : b ≠ a) : a ∈ earlier ∧ b ∈ later := by
  rcases List.eq_nil_or_concat later with rfl | ⟨front, last, rfl⟩
  · have hlast : [a] = [b] := List.append_inj_right' h rfl
    simp only [List.cons.injEq, and_true] at hlast
    exact absurd hlast.symm hne
  · rw [List.concat_eq_append, ← List.cons_append, ← List.append_assoc] at h
    have hfront : before ++ a :: front = earlier := List.append_inj_left' h rfl
    have hlast : [last] = [b] := List.append_inj_right' h rfl
    simp only [List.cons.injEq, and_true] at hlast
    simp [← hfront, hlast]

/-- **No update is lost.** Whatever the parser answers and however the events are batched: when no
event waits, no cycle is under way and the cycle that ran last did not fail, no language is left to
choose and the spans of the newest text are published. And if the parser never answered to a choice
with an error, the language that it was told last is the one that the owner chose last, and the
published spans were computed after that. -/
theorem published_is_newest_at_rest (h : History palette language text past p)
    (hquiet : p.isQuiet = true) (hlast : (outcomes past).getLast? ≠ some .failed) :
    p.pendingLanguage = none ∧
      (∃ s, p.synced = some s ∧ s.text = p.lastText ∧ p.publishedRevision = s.revision ∧
        p.published = s.spans) ∧
      ((∀ call ∈ calls past, ∀ l error, call.exchange ≠ .choice l (.error (.reported error))) →
        ∃ before chosen later, calls past = before ++ chosen :: later ∧
          chosen.exchange = .choice p.language (.ok ()) ∧
          (∀ call ∈ later, call.isChoice = false) ∧
          ∃ parse ∈ later, parse.IsResult palette p.publishedRevision p.lastText p.published) := by
  obtain ⟨hqueue, hphase⟩ := isQuiet_iff.mp hquiet
  rcases h.rest hphase hqueue with ⟨_, hsettled⟩ | ⟨hfailed, _⟩
  · obtain ⟨earlier, parse, hcalls', hresult⟩ := h.settled_result hphase hqueue hsettled
    obtain ⟨hpending, s, hsynced, htext, hrevision⟩ := hsettled
    have hspans := h.revised.shown s hsynced hrevision
    rw [h.current_eq_of_queue hqueue] at htext
    refine ⟨hpending, ⟨s, hsynced, htext, hrevision.symm, hspans.symm⟩, fun hchoices => ?_⟩
    have hnewest : p.newestLanguage? = none := by simp [newestLanguage?, hqueue, hpending]
    obtain ⟨before, chosen, later, hcalls, hchosen, hlater⟩ := h.lastChoice hchoices hnewest
    have hne : parse ≠ chosen := by
      obtain ⟨_, _, request, highlights, hexchange, _⟩ := hresult
      rintro rfl
      simp [hexchange] at hchosen
    have hmem := (mem_of_concat_eq (hcalls.symm.trans hcalls') hne).2
    exact ⟨before, chosen, later, hcalls, hchosen, hlater, parse, hmem, hresult⟩
  · exact absurd hfailed hlast

/-- The parser breaks down over the language, the text changes, and the next cycle tells it the
language once more before it parses the new text. -/
theorem published_is_newest_at_rest_after_crash :
    let palette := Palette.ofTheme .empty
    let moves := [.work, .work, .work, .chosen (.error .crashed), .text ['b'], .work, .work, .work,
      .chosen (.ok ()), .parsed (.ok [⟨0, 1, 2⟩]), .work]
    let past := (Pipeline.opened .rust ['a']).steps palette moves
    let p : Pipeline := {
      epoch := 2
      lastText := ['b']
      language := .rust
      queue := []
      current := ['b']
      pendingLanguage := none
      synced := some ⟨['b'], [⟨palette.style 2, 0, 1⟩], 1⟩
      revision := 1
      publishedRevision := 1
      published := [⟨palette.style 2, 0, 1⟩]
      phase := .idle }
    History palette .rust ['a'] past p ∧ p.isQuiet = true ∧
      (outcomes past).getLast? ≠ some .failed ∧
      (∀ call ∈ calls past, ∀ l error, call.exchange ≠ .choice l (.error (.reported error))) ∧
      p.pendingLanguage = none ∧
      (∃ s, p.synced = some s ∧ s.text = p.lastText ∧ p.publishedRevision = s.revision ∧
        p.published = s.spans) ∧
      ∃ before chosen later, calls past = before ++ chosen :: later ∧
        chosen.exchange = .choice p.language (.ok ()) ∧
        (∀ call ∈ later, call.isChoice = false) ∧
        ∃ parse ∈ later, parse.IsResult palette p.publishedRevision p.lastText p.published := by
  intro palette moves past p
  have h : History palette .rust ['a'] past p := history_iff_run.mpr ⟨moves, rfl, rfl⟩
  have hquiet : p.isQuiet = true := rfl
  have houtcomes : outcomes past = [.failed, .completed] := rfl
  have hlast : (outcomes past).getLast? ≠ some .failed := by simp [houtcomes]
  have hcalls : calls past = [⟨1, ['a'], .choice .rust (.error .crashed), 1, none⟩,
      ⟨2, ['b'], .choice .rust (.ok ()), 2, none⟩,
      ⟨2, ['b'], .parse (.full ['b']) (.ok [⟨0, 1, 2⟩]), 2, some 1⟩] := rfl
  have hchoices : ∀ call ∈ calls past, ∀ l error,
      call.exchange ≠ .choice l (.error (.reported error)) := by simp [hcalls]
  obtain ⟨hpending, hsynced, hlanguage⟩ := published_is_newest_at_rest h hquiet hlast
  exact ⟨h, hquiet, hlast, hchoices, hpending, hsynced, hlanguage hchoices⟩

end Retint.Pipeline
