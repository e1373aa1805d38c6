import Retint.Proofs.Pipeline.Results

/-!
# Worker and parser agree on the text

An edit makes sense to the parser only if it starts from the text that the parser saw last. The
worker keeps that text as its snapshot: every way in which a call can fail, and every choice of a
language, leads either to a parse of the whole text or to a worker without a snapshot. So when the
worker asks for an edit, replaying all the calls gives the snapshot that the edit starts from.
-/

namespace Retint.Pipeline

/-- The text that the parser has seen after a call, if it had seen some text before: a whole text,
or that text with the edit made. Any other call leaves it open. -/
def Call.seenText? (seen : Option Text) (call : Call) : Option Text :=
  match call.exchange with
  | .parse (.full t) (.ok _) => some t
  | .parse (.incremental changed edit) (.ok _) => seen.bind fun t => edit.splice? changed t
  | _ => none

/-- The text that the parser has seen after all the calls. -/
def seenText? (made : List Call) : Option Text := made.foldl Call.seenText? none

variable {palette : Palette} {language : Language} {text : Text} {p : Pipeline} {past : List Step}

/-- The worker's snapshot is the text that the parser has seen, unless the whole text is being
parsed anew. -/
theorem History.seenText_eq (h : History palette language text past p) {s : Synced}
    (hsynced : p.synced = some s) (hwhole : p.phase.isWhole = false) :
    seenText? (calls past) = some s.text := by
  induction h generalizing s with
  | opened => simp [Pipeline.opened] at hsynced
  | @snoc past p next move hpast hstep ih =>
    have hfits := hpast.fits
    rw [calls_concat]
    cases transition_of_step hstep with
    | parsedFull epoch t highlights hparsing hfit =>
      cases Option.some.inj hsynced
      rw [hparsing] at hfits
      have ht : t = p.current := hfits
      simp [seenText?, Step.call?, hparsing, Call.seenText?, ht]
    | parsedEdit epoch changed edit highlights hparsing hfit =>
      cases Option.some.inj hsynced
      rw [hparsing] at hfits
      obtain ⟨_, before, hbefore, hedit, hchanged⟩ := hfits
      obtain ⟨inserted, hinserted, _, hsplice⟩ := Edit.exists_inserted_of_between? hedit
      rw [hchanged, Option.some.injEq] at hinserted
      subst hinserted
      have hseen := ih hbefore (by rw [hparsing]; rfl)
      rw [seenText?] at hseen
      simp [seenText?, Step.call?, hparsing, Call.seenText?, hseen, hsplice]
    | take event later hphase hqueue =>
      simpa [Step.call?] using ih hsynced (isWhole_of_waiting hphase)
    | _ => simp_all [Step.call?, Phase.isWhole, ParseRequest.isFull]

/-- **Worker and parser cannot drift apart.** Whatever the parser answered before and however the
events were batched: when it is asked to parse an edit, no language is pending, and the call before
was a parse for some text, answered by highlights inside that text, which is also the text that a
replay of all the calls leads to. The edit is the one from there to the worker's text, and the text
that comes with it is exactly what it inserts. -/
theorem edit_starts_from_seen_text (h : History palette language text past p) {epoch : Nat}
    {changed : Text} {edit : Edit} (hphase : p.phase = .parsing epoch (.incremental changed edit)) :
    p.pendingLanguage = none ∧
      ∃ earlier call old request highlights, calls past = earlier ++ [call] ∧
        call.text = old ∧ call.exchange = .parse request (.ok highlights) ∧
        IsRequestFor old request ∧ Highlight.allFit highlights old.byteSize = true ∧
        seenText? (calls past) = some old ∧ Edit.between? old p.current = some edit ∧
        p.current.slice? edit.start edit.newEnd = some changed := by
  have hfits := h.fits
  rw [hphase] at hfits
  have hslice := (isRequestFor_of_fits hfits).1
  obtain ⟨hpending, s, hsynced, hedit, _⟩ := hfits
  have hwhole : p.phase.isWhole = false := by
    rw [hphase]
    rfl
  obtain ⟨earlier, call, hcalls, _, htext, request, highlights, hexchange, hrequest, hfit, _⟩ :=
    h.synced_isResult hsynced hwhole
  exact ⟨hpending, earlier, call, s.text, request, highlights, hcalls, htext, hexchange, hrequest,
    hfit, h.seenText_eq hsynced hwhole, hedit, hslice⟩

/-- A second text arrives while the parser is busy with the first, whose result is never published;
the edit that the parser is asked for next still starts from that first text. -/
theorem edit_starts_from_unpublished_text :
    let palette := Palette.ofTheme .empty
    let moves := [.work, .work, .work, .chosen (.ok ()), .text ['a', 'b'],
      .parsed (.ok [⟨0, 1, 2⟩]), .work, .work, .work, .work]
    let past := (Pipeline.opened .rust ['a']).steps palette moves
    let p : Pipeline := {
      epoch := 2
      lastText := ['a', 'b']
      language := .rust
      queue := []
      current := ['a', 'b']
      pendingLanguage := none
      synced := some ⟨['a'], [⟨palette.style 2, 0, 1⟩], 1⟩
      revision := 1
      publishedRevision := 0
      published := []
      phase := .parsing 2 (.incremental ['b'] ⟨1, 1, 2⟩) }
    History palette .rust ['a'] past p ∧ p.phase = .parsing 2 (.incremental ['b'] ⟨1, 1, 2⟩) ∧
      p.pendingLanguage = none ∧
      ∃ earlier call old request highlights, calls past = earlier ++ [call] ∧
        call.text = old ∧ call.exchange = .parse request (.ok highlights) ∧
        IsRequestFor old request ∧ Highlight.allFit highlights old.byteSize = true ∧
        seenText? (calls past) = some old ∧ Edit.between? old p.current = some ⟨1, 1, 2⟩ ∧
        p.current.slice? 1 2 = some ['b'] := by
  intro palette moves past p
  have h : History palette .rust ['a'] past p := history_iff_run.mpr ⟨moves, rfl, rfl⟩
  have hphase : p.phase = .parsing 2 (.incremental ['b'] ⟨1, 1, 2⟩) := rfl
  exact ⟨h, hphase, edit_starts_from_seen_text h hphase⟩

end Retint.Pipeline
