import Retint.Proofs.Pipeline.Publication
import Retint.Proofs.Pipeline.Rest

/-!
# A language that is refused

A language whose grammar cannot be loaded ends its cycle before anything is parsed, and the text
that came in the same batch is not parsed with the language that the parser still has: what was
published stays. This is all that can keep the newest text from being shown by a parser that does
its other work. The worker then holds no snapshot and no language, so its next cycle parses the
whole text.
-/

namespace Retint.Pipeline

/-- A parser that accepts a language or has no grammar for it, and that parses whatever it is given
once it has accepted one. -/
structure Obliging (made : List Call) : Prop where
  /-- A choice fails only for want of a grammar. -/
  choices : ∀ call ∈ made, call.isChoice = true → ∀ failure, call.failure? = some failure →
    failure.isGrammar = true
  /-- Nothing goes wrong with a parse after a choice that succeeded. -/
  parses : ∀ before call later, made = before ++ call :: later → call.isChoice = false →
    (∃ chosen ∈ before, chosen.isChoice = true ∧ chosen.failure? = none) → call.failure? = none

/-- The parser has accepted a language and has then parsed a text. -/
def Loaded (made : List Call) (language : Language) : Prop :=
  ∃ before chosen parsed later, made = before ++ chosen :: parsed :: later ∧
    chosen.exchange = .choice language (.ok ()) ∧
    parsed.isChoice = false ∧ parsed.failure? = none

/-- The cycle that ran last asked for a language with the text that the owner saw last, and the
parser had no grammar for it; the next cycle has the whole text to parse. -/
structure Refused (past : List Step) (p : Pipeline) : Prop where
  outcome : (outcomes past).getLast? = some .failed
  call : ∃ earlier call failure, calls past = earlier ++ [call] ∧ call.text = p.lastText ∧
    call.isChoice = true ∧ call.failure? = some failure ∧ failure.isGrammar = true
  pending : p.pendingLanguage = none
  synced : p.synced = none

variable {palette : Palette} {language : Language} {text : Text} {p : Pipeline} {past : List Step}

/-- A parser with nothing wrong but a grammar that it does not have is obliging. -/
theorem obliging_of_forall {made : List Call}
    (h : ∀ call ∈ made, ∀ failure, call.failure? = some failure →
      call.isChoice = true ∧ failure.isGrammar = true) : Obliging made := by
  constructor
  · intro call hcall _ failure hfailure
    exact (h call hcall failure hfailure).2
  · intro before call later hmade hparse _
    have hcall : call ∈ made := by simp [hmade]
    cases hfailure : call.failure? with
    | none => rfl
    | some failure =>
      have hchoice := (h call hcall failure hfailure).1
      rw [hchoice] at hparse
      contradiction

/-- If an obliging parser has accepted a language, only a language makes it fail after that. -/
theorem Obliging.isChoice_of_failure {made earlier : List Call} {call : Call} {failure : Failure}
    (h : Obliging made) (hloaded : Loaded made language) (hmade : made = earlier ++ [call])
    (hfailure : call.failure? = some failure) : call.isChoice = true := by
  obtain ⟨before, chosen, parsed, later, hsplit, hchosen, _, _⟩ := hloaded
  have haccepted : chosen.isChoice = true ∧ chosen.failure? = none := by
    simp [Call.isChoice, Call.failure?, hchosen]
  by_cases hchoice : call.isChoice = true
  · exact hchoice
  · have hne : call ≠ chosen := by
      rintro rfl
      exact hchoice haccepted.1
    have hbefore := (mem_of_concat_eq (hsplit.symm.trans hmade) hne).1
    have hparse : call.isChoice = false := by simpa using hchoice
    have hnone := h.parses earlier call [] hmade hparse ⟨chosen, hbefore, haccepted⟩
    rw [hnone] at hfailure
    contradiction

/-- **Only a refused language hides the newest text.** However the events are batched: with an
obliging parser that has once accepted the language of the opening, a pipeline at rest shows the
spans of the text that the owner saw last, unless the parser refused a language in the cycle that
ran last and nothing was published since that text came. -/
theorem published_is_newest_unless_refused (h : History palette language text past p)
    (hobliging : Obliging (calls past)) (hloaded : Loaded (calls past) language)
    (hquiet : p.isQuiet = true) :
    IsPublishedFor palette past p p.lastText ∨ (Refused past p ∧ Overdue past p) := by
  obtain ⟨hqueue, hphase⟩ := isQuiet_iff.mp hquiet
  rcases h.rest hphase hqueue with ⟨_, hsettled⟩ | ⟨hfailed, hgaveUp⟩
  · obtain ⟨earlier, call, hcalls, hresult⟩ := h.settled_result hphase hqueue hsettled
    exact .inl ⟨call, by simp [hcalls], hresult⟩
  · obtain ⟨hsynced, earlier, call, failure, hcalls, htext, hfailure, hforgotten⟩ := hgaveUp
    have hchoice := hobliging.isChoice_of_failure hloaded hcalls hfailure
    have hgrammar := hobliging.choices call (by simp [hcalls]) hchoice failure hfailure
    rw [h.current_eq_of_queue hqueue] at htext
    refine h.published_or_overdue.imp_right fun hoverdue => ⟨?_, hoverdue⟩
    exact ⟨hfailed, ⟨earlier, call, failure, hcalls, htext, hchoice, hfailure, hgrammar⟩,
      hforgotten hgrammar, hsynced⟩

/-- After a batch of a text and a language that the parser refused, the next text is parsed as a
whole and shown. -/
theorem published_is_newest_after_refusal :
    let palette := Palette.ofTheme .empty
    let moves := [.work, .work, .work, .chosen (.ok ()), .parsed (.ok [⟨0, 1, 2⟩]), .work,
      .text ['a', 'b'], .language .sql, .work, .work, .work, .work,
      .chosen (.error (.reported (.grammar ['?']))), .text ['a', 'b', 'c'], .work, .work, .work,
      .parsed (.ok [⟨0, 3, 2⟩]), .work]
    let past := (Pipeline.opened .rust ['a']).steps palette moves
    let p : Pipeline := {
      epoch := 4
      lastText := ['a', 'b', 'c']
      language := .sql
      queue := []
      current := ['a', 'b', 'c']
      pendingLanguage := none
      synced := some ⟨['a', 'b', 'c'], [⟨palette.style 2, 0, 3⟩], 2⟩
      revision := 2
      publishedRevision := 2
      published := [⟨palette.style 2, 0, 3⟩]
      phase := .idle }
    History palette .rust ['a'] past p ∧ Obliging (calls past) ∧ Loaded (calls past) .rust ∧
      p.isQuiet = true ∧
      (IsPublishedFor palette past p p.lastText ∨ (Refused past p ∧ Overdue past p)) := by
  intro palette moves past p
  have h : History palette .rust ['a'] past p := history_iff_run.mpr ⟨moves, rfl, rfl⟩
  have hquiet : p.isQuiet = true := rfl
  have hcalls : calls past = [⟨1, ['a'], .choice .rust (.ok ()), 1, none⟩,
      ⟨1, ['a'], .parse (.full ['a']) (.ok [⟨0, 1, 2⟩]), 1, some 1⟩,
      ⟨3, ['a', 'b'], .choice .sql (.error (.reported (.grammar ['?']))), 3, none⟩,
      ⟨4, ['a', 'b', 'c'], .parse (.full ['a', 'b', 'c']) (.ok [⟨0, 3, 2⟩]), 4, some 2⟩] := rfl
  have hobliging : Obliging (calls past) := by
    refine obliging_of_forall ?_
    rw [hcalls]
    decide
  have hloaded : Loaded (calls past) .rust := by
    rw [hcalls]
    exact ⟨[], _, _, _, rfl, rfl, rfl, rfl⟩
  exact ⟨h, hobliging, hloaded, hquiet,
    published_is_newest_unless_refused h hobliging hloaded hquiet⟩

/-- A text in one batch with a language that the parser refuses is not parsed, and the pipeline
comes to rest with the spans of the text before. -/
theorem refused_language_hides_text :
    let palette := Palette.ofTheme .empty
    let moves := [.work, .work, .work, .chosen (.ok ()), .parsed (.ok [⟨0, 1, 2⟩]), .work,
      .text ['a', 'b'], .language .sql, .work, .work, .work, .work,
      .chosen (.error (.reported (.grammar ['?'])))]
    let past := (Pipeline.opened .rust ['a']).steps palette moves
    let p : Pipeline := {
      epoch := 3
      lastText := ['a', 'b']
      language := .sql
      queue := []
      current := ['a', 'b']
      pendingLanguage := none
      synced := none
      revision := 1
      publishedRevision := 1
      published := [⟨palette.style 2, 0, 1⟩]
      phase := .idle }
    History palette .rust ['a'] past p ∧ Obliging (calls past) ∧ Loaded (calls past) .rust ∧
      p.isQuiet = true ∧ ¬ IsPublishedFor palette past p p.lastText := by
  intro palette moves past p
  have h : History palette .rust ['a'] past p := history_iff_run.mpr ⟨moves, rfl, rfl⟩
  have hquiet : p.isQuiet = true := rfl
  have hcalls : calls past = [⟨1, ['a'], .choice .rust (.ok ()), 1, none⟩,
      ⟨1, ['a'], .parse (.full ['a']) (.ok [⟨0, 1, 2⟩]), 1, some 1⟩,
      ⟨3, ['a', 'b'], .choice .sql (.error (.reported (.grammar ['?']))), 3, none⟩] := rfl
  have hobliging : Obliging (calls past) := by
    refine obliging_of_forall ?_
    rw [hcalls]
    decide
  have hloaded : Loaded (calls past) .rust := by
    rw [hcalls]
    exact ⟨[], _, _, _, rfl, rfl, rfl, rfl⟩
  refine ⟨h, hobliging, hloaded, hquiet, ?_⟩
  -- The only text that was parsed is the one of the opening.
  rintro ⟨call, hcall, _, htext, request, highlights, hexchange, _⟩
  rw [hcalls] at hcall
  simp only [List.mem_cons, List.not_mem_nil, or_false] at hcall
  rcases hcall with rfl | rfl | rfl
  · simp at hexchange
  · simp [p] at htext
  · simp at hexchange

end Retint.Pipeline
