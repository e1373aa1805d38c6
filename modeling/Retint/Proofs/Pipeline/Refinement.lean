import Retint.Proofs.Pipeline.Publication
import Retint.Proofs.Pipeline.Rest
import Retint.Proofs.Pipeline.Served
import Retint.Proofs.Session.Agreement
import Retint.Proofs.Tree.Places

/-!
# A pipeline over syntax trees shows what one full parse would show

The parser here is a session whose grammar grows one tree for each text, whether it starts from
nothing or from an edited tree. Worker and session then keep step: the session retains the text of
the worker's snapshot with its tree, so it accepts every edit that it is asked for, and whatever is
published are the spans of the one tree of the newest text in the newest language.
-/

namespace Retint

/-- A grammar that grows one tree for each text. -/
def Grow.ofTrees (trees : Language → Text → SyntaxTree) : Grow Id :=
  fun language text _ => some (trees language text)

/-- The spans of the one tree of a text. -/
def Palette.spansOf (palette : Palette) (trees : Language → Text → SyntaxTree)
    (language : Language) (text : Text) : List Span :=
  palette.spans ((trees language text).highlights language text)

namespace Pipeline

/-- A step in which nothing goes wrong between worker and parser. -/
structure Step.GoesWell (step : Step) : Prop where
  /-- A call that returns was accepted, and if it was a parse, a result is made of its answer. -/
  call : ∀ call, step.call? = some call →
    call.failure? = none ∧ (call.isChoice = false → call.revision ≠ none)
  /-- The worker does not go over from an edit to the whole text. -/
  keeps_edit : ∀ epoch changed e, step.before.phase = .parsing epoch (.incremental changed e) →
    step.after.phase.isWhole = false

/-- Worker and session keep step. -/
structure InStep (trees : Language → Text → SyntaxTree) (palette : Palette) (p : Pipeline)
    (s : Session) : Prop where
  /-- With no language on its way, the session has the owner's. -/
  language : p.newestLanguage? = none → s.language = some p.language
  /-- A session that is given a whole text has the language that is pending. If none is, then the
  worker has no snapshot. -/
  whole : p.phase.isWhole = true →
    ∃ l, s.language = some l ∧
      (p.pendingLanguage = some l ∨ p.pendingLanguage = none ∧ p.synced = none)
  /-- Otherwise the session retains the text of the worker's snapshot, whose spans are those of the
  tree. -/
  synced : p.phase.isWhole = false → ∀ y, p.synced = some y →
    ∃ l, s = ⟨some l, some (trees l y.text), y.text⟩ ∧ y.spans = palette.spansOf trees l y.text

variable {trees : Language → Text → SyntaxTree} {palette : Palette} {language : Language}
  {text : Text} {past : List Step} {p next : Pipeline} {s after : Session} {move : Move}

/-- What the session answers. -/
theorem reply?_session (grow : Grow Id)
    (h : reply? (Session.parser grow) p s = some (move, after)) :
    (∃ epoch l, p.phase = .choosing epoch l ∧ move = .chosen (.ok ()) ∧
      after = s.setLanguage l) ∨
    ∃ epoch request, p.phase = .parsing epoch request ∧
      move = .parsed ((s.parse grow request).1.mapError .reported) ∧
      after = (s.parse grow request).2 := by
  unfold reply? at h
  split at h
  · rename_i epoch l hphase
    cases h
    exact .inl ⟨epoch, l, hphase, rfl, rfl⟩
  · rename_i epoch request hphase
    cases h
    exact .inr ⟨epoch, request, hphase, rfl, rfl⟩
  · contradiction

/-- A move that leaves the languages and the snapshot alone keeps worker and session in step. -/
theorem InStep.keep (h : InStep trees palette p s)
    (hlanguage : next.newestLanguage? = none →
      p.newestLanguage? = none ∧ next.language = p.language)
    (hwhole : next.phase.isWhole = p.phase.isWhole)
    (hpending : next.phase.isWhole = true → next.pendingLanguage = p.pendingLanguage)
    (hsynced : next.synced = p.synced) : InStep trees palette next s := by
  constructor
  · intro hnone
    obtain ⟨hbefore, hsame⟩ := hlanguage hnone
    rw [hsame]
    exact h.language hbefore
  · intro hnext
    rw [hpending hnext, hsynced]
    exact h.whole (hwhole ▸ hnext)
  · rw [hwhole, hsynced]
    exact h.synced

/-- The moves of the owner and of the worker keep worker and session in step. -/
theorem InStep.own (h : InStep trees palette p s) (hpast : History palette language text past p)
    (howner : move.isAnswer = false) (ht : Transition palette p move next) :
    InStep trees palette next s := by
  cases ht with
  | sameText => exact h
  | newText t hnew =>
    refine h.keep (fun hnone => ⟨?_, rfl⟩) rfl (fun _ => rfl) rfl
    simpa [newestLanguage?, Notice.language?] using hnone
  | newLanguage l =>
    refine h.keep (fun hnone => ?_) rfl (fun _ => rfl) rfl
    simp [newestLanguage?, Notice.language?] at hnone
  | take event later hphase hqueue =>
    have hwaiting := isWhole_of_waiting hphase
    refine h.keep (fun hnone => ⟨?_, rfl⟩) ?_ ?_ rfl
    · rw [← newestLanguage?_take hqueue]
      exact hnone
    · exact hwaiting.symm
    · intro hwhole
      contradiction
  | parseFull hstarting hpending hsynced =>
    -- Nothing waits, so the session has the owner's language.
    have hqueue : p.queue = [] := hpast.queue_eq_nil (by rw [hstarting]; rfl)
    have hnone : p.newestLanguage? = none := by simp [newestLanguage?, hqueue, hpending]
    constructor
    · exact h.language
    · intro _
      exact ⟨p.language, h.language hnone, .inr ⟨hpending, hsynced⟩⟩
    · intro hwhole
      contradiction
  | drained | skip | choose | parseEdit | parseNothing | publish | withhold =>
    refine h.keep (fun hnone => ⟨hnone, rfl⟩) ?_ (fun _ => rfl) rfl
    simp_all [Phase.isWhole, ParseRequest.isFull]
  | chosen | notChosen | parsedFull | parsedEdit | overrunFull | overrunEdit | misfitEdit
  | notParsed => contradiction

/-- What a session in step answers to a parse, and what it retains afterwards. -/
theorem InStep.parse (h : InStep trees palette p s) (hpast : History palette language text past p)
    {epoch : Nat} {request : ParseRequest} (hphase : p.phase = .parsing epoch request) :
    ∃ l, s.parse (.ofTrees trees) request =
        (.ok ((trees l p.current).highlights l p.current),
          ⟨some l, some (trees l p.current), p.current⟩) ∧
      ((p.queue.reverse.findSome? fun event => event.notice.language?) = none →
        l = p.language) := by
  have hfits := hpast.fits
  rw [hphase] at hfits
  cases request with
  | full t =>
    have ht : t = p.current := hfits
    obtain ⟨l, hl, hpending⟩ := h.whole (by rw [hphase]; rfl)
    refine ⟨l, ht ▸ Session.parseFull_of_grow hl rfl, fun hqueue => ?_⟩
    rcases hpending with hsome | ⟨hnone, _⟩
    · exact hpast.newestLanguage_eq (by simp [newestLanguage?, hqueue, hsome])
    · have hlanguage := h.language (by simp [newestLanguage?, hqueue, hnone])
      exact Option.some.inj (hl.symm.trans hlanguage)
  | incremental changed e =>
    obtain ⟨hpending, y, hsynced, hedit, hchanged⟩ := hfits
    obtain ⟨l, hs, _⟩ := h.synced (by rw [hphase]; rfl) y hsynced
    obtain ⟨front, removed, inserted, back, hparts⟩ := Edit.exists_parts_of_between? hedit
    have hinserted : inserted = changed :=
      Option.some.inj (hparts.insertedText?_eq.symm.trans hchanged)
    subst hs hinserted
    have hgrow : Grow.ofTrees trees l p.current (some (trees l y.text,
        Session.treeEdit ⟨some l, some (trees l y.text), y.text⟩ e p.current)) =
          some (trees l p.current) := rfl
    refine ⟨l, Session.parseIncremental_of_grow rfl rfl hparts hgrow, fun hqueue => ?_⟩
    have hlanguage := h.language (by simp [newestLanguage?, hqueue, hpending])
    exact Option.some.inj hlanguage

/-- The session's answer to the choice of a language keeps worker and session in step. -/
theorem InStep.chosen {epoch : Nat} {l : Language} (hpast : History palette language text past p)
    (hphase : p.phase = .choosing epoch l)
    (ht : Transition palette p (.chosen (.ok ())) next) :
    InStep trees palette next (s.setLanguage l) := by
  have hfits := hpast.fits
  rw [hphase] at hfits
  have hpending : p.pendingLanguage = some l := hfits
  cases ht with
  | chosen epoch other hchoosing =>
    constructor
    · intro hnone
      simp [newestLanguage?, hpending] at hnone
    · intro _
      exact ⟨l, rfl, .inl hpending⟩
    · intro hwhole
      contradiction

/-- A snapshot of the text that the session retains. -/
theorem inStep_of_synced {l : Language} {t : Text} {revision : Nat}
    (hwhole : p.phase.isWhole = false)
    (hsynced : p.synced = some ⟨t, palette.spansOf trees l t, revision⟩)
    (hlanguage : p.newestLanguage? = none → l = p.language) :
    InStep trees palette p ⟨some l, some (trees l t), t⟩ := by
  constructor
  · intro hnone
    rw [← hlanguage hnone]
  · intro hnext
    rw [hwhole] at hnext
    contradiction
  · intro _ y hy
    cases hsynced.symm.trans hy
    exact ⟨l, rfl, rfl⟩

/-- The session's answer to a parse keeps worker and session in step. It fits the text, a result is
made of it, and the worker does not go over to the whole text. -/
theorem InStep.parsed (h : InStep trees palette p s) (htrees : ∀ l t, (trees l t).LiesIn t)
    (hpast : History palette language text past p) {epoch : Nat} {request : ParseRequest}
    (hphase : p.phase = .parsing epoch request) {answer : Except ParserError (List Highlight)}
    (hparse : s.parse (.ofTrees trees) request = (answer, after))
    (ht : Transition palette p (.parsed (answer.mapError .reported)) next) :
    InStep trees palette next after ∧ next.phase.isWhole = false ∧ next.revision ≠ p.revision ∧
      ∃ highlights, answer = .ok highlights ∧
        Highlight.allFit highlights p.current.byteSize = true := by
  obtain ⟨l, hanswer, hlanguage⟩ := h.parse hpast hphase
  obtain ⟨rfl, rfl⟩ := Prod.mk.inj (hparse.symm.trans hanswer)
  have hfit : Highlight.allFit ((trees l p.current).highlights l p.current)
      p.current.byteSize = true := (htrees l p.current).allFit
  cases ht with
  | parsedFull | parsedEdit =>
    refine ⟨inStep_of_synced rfl rfl fun hnone => ?_, rfl, by simp, _, rfl, hfit⟩
    exact hlanguage (Option.or_eq_none_iff.mp hnone).1
  | overrunFull epoch t highlights _ hmisfit =>
    rw [hfit] at hmisfit
    contradiction
  | overrunEdit epoch changed e highlights _ hmisfit =>
    rw [hfit] at hmisfit
    contradiction

/-- Nothing goes wrong in a move of the owner or of the worker. -/
theorem goesWell_of_own (howner : move.isAnswer = false) (ht : Transition palette p move next) :
    Step.GoesWell ⟨p, move, next⟩ := by
  constructor
  · intro call hcall
    cases move with
    | text | language | work => simp [Step.call?] at hcall
    | chosen | parsed => contradiction
  · intro epoch changed e hbefore
    cases ht with
    | sameText | newText | newLanguage =>
      show p.phase.isWhole = false
      rw [show p.phase = _ from hbefore]
      rfl
    | _ => simp_all [Phase.isWhole, Move.isAnswer]

/-- An answer of the session keeps worker and session in step, and nothing goes wrong. -/
theorem InStep.answered (h : InStep trees palette p s) (htrees : ∀ l t, (trees l t).LiesIn t)
    (hpast : History palette language text past p)
    (hreply : reply? (Session.parser (.ofTrees trees)) p s = some (move, after))
    (ht : Transition palette p move next) :
    InStep trees palette next after ∧ Step.GoesWell ⟨p, move, next⟩ := by
  rcases reply?_session _ hreply with ⟨epoch, l, hphase, rfl, rfl⟩ |
    ⟨epoch, request, hphase, rfl, rfl⟩
  · refine ⟨InStep.chosen hpast hphase ht, ?_, ?_⟩
    · intro call hcall
      simp only [Step.call?, hphase, Option.some.injEq] at hcall
      subst hcall
      simp [Call.failure?, Call.isChoice]
    · intro other changed e hbefore
      simp [hphase] at hbefore
  · obtain ⟨answer, last, hparse⟩ :
        ∃ answer last, s.parse (.ofTrees trees) request = (answer, last) := ⟨_, _, rfl⟩
    rw [hparse] at ht ⊢
    obtain ⟨hnext, hwhole, hrevision, highlights, hanswer, hfit⟩ :=
      h.parsed htrees hpast hphase hparse ht
    refine ⟨hnext, ?_, fun _ _ _ _ => hwhole⟩
    intro call hcall
    have hok : (Except.ok highlights).mapError Failure.reported = .ok highlights := rfl
    simp only [Step.call?, hphase, hrevision, if_false, hanswer, hok, Option.some.injEq] at hcall
    subst hcall
    simp [Call.failure?, hfit]

/-- Throughout a run worker and session keep step, and nothing goes wrong between them. -/
theorem Served.inStep
    (h : Served (Session.parser (.ofTrees trees)) .start palette language text past p s)
    (htrees : ∀ l t, (trees l t).LiesIn t) :
    InStep trees palette p s ∧ ∀ step ∈ past, step.GoesWell := by
  induction h with
  | opened =>
    refine ⟨⟨fun hnone => ?_, fun hwhole => ?_, fun _ y hy => ?_⟩, by simp⟩
    · simp [newestLanguage?, Pipeline.opened, Notice.language?] at hnone
    · contradiction
    · contradiction
  | own h howner hstep ih =>
    have ht := transition_of_step hstep
    have hlast := goesWell_of_own howner ht
    exact ⟨ih.1.own h.history howner ht, List.forall_mem_append.mpr ⟨ih.2, by simpa using hlast⟩⟩
  | answered h hreply hstep ih =>
    obtain ⟨hnext, hlast⟩ := ih.1.answered htrees h.history hreply (transition_of_step hstep)
    exact ⟨hnext, List.forall_mem_append.mpr ⟨ih.2, by simpa using hlast⟩⟩

/-- No call of a run in which nothing goes wrong fails, and every parse gives a result. -/
theorem accepted_of_goesWell (h : ∀ step ∈ past, step.GoesWell) {call : Call}
    (hcall : call ∈ calls past) :
    call.failure? = none ∧ (call.isChoice = false → call.revision ≠ none) := by
  obtain ⟨step, hmem, hstep⟩ := List.mem_filterMap.mp hcall
  exact (h step hmem).call call hstep

/-- When no language is on its way, a snapshot of the newest text has the spans of its tree. -/
theorem InStep.spans_eq (h : InStep trees palette p s) (hwhole : p.phase.isWhole = false)
    (hnewest : p.newestLanguage? = none) {y : Synced} (hsynced : p.synced = some y)
    (htext : y.text = p.lastText) : y.spans = palette.spansOf trees p.language p.lastText := by
  obtain ⟨l, hs, hspans⟩ := h.synced hwhole y hsynced
  have hlanguage := h.language hnewest
  rw [hs, Option.some.injEq] at hlanguage
  rw [hspans, htext, hlanguage]

/-- What replaces the published spans are those of the newest text in the newest language. -/
theorem InStep.published_eq (h : InStep trees palette p s)
    (hpast : History palette language text past p) (ht : Transition palette p move next)
    (hreplaced : next.publishedRevision ≠ p.publishedRevision ∨ next.published ≠ p.published) :
    next.published = palette.spansOf trees p.language p.lastText := by
  obtain ⟨hphase, _, _, y, hsynced, _, hpublished⟩ := publish_of_replaced ht hreplaced
  have hqueue : p.queue = [] := hpast.queue_eq_nil (by rw [hphase]; rfl)
  have hfits := hpast.fits
  rw [hphase] at hfits
  obtain ⟨hpending, z, hz, htext⟩ := hfits
  rw [Option.some.inj (hz.symm.trans hsynced), hpast.current_eq_of_queue hqueue] at htext
  rw [hpublished]
  exact h.spans_eq (by rw [hphase]; rfl) (by simp [newestLanguage?, hqueue, hpending]) hsynced htext

/-- A pipeline at rest shows the spans of the newest text in the newest language. -/
theorem InStep.shown_at_rest (h : InStep trees palette p s)
    (hpast : History palette language text past p) (hgood : ∀ step ∈ past, step.GoesWell)
    (hquiet : p.isQuiet = true) :
    p.published = palette.spansOf trees p.language p.lastText := by
  obtain ⟨hqueue, hphase⟩ := isQuiet_iff.mp hquiet
  rcases hpast.rest hphase hqueue with ⟨_, hpending, y, hsynced, htext, hrevision⟩ | ⟨_, hgaveUp⟩
  · rw [hpast.current_eq_of_queue hqueue] at htext
    rw [← hpast.revised.shown y hsynced hrevision]
    exact h.spans_eq (by rw [hphase]; rfl) (by simp [newestLanguage?, hqueue, hpending]) hsynced
      htext
  · obtain ⟨earlier, call, failure, hcalls, _, hfailure, _⟩ := hgaveUp.call
    have hcall : call ∈ calls past := by simp [hcalls]
    rw [(accepted_of_goesWell hgood hcall).1] at hfailure
    contradiction

/-- A session always answers at once, whatever languages it refuses. -/
theorem isReady_session (grow : Grow Id) (refused? : Language → Option Text) :
    IsReady (Session.parser grow refused?) where
  setLanguage language s :=
    ⟨(s.choose refused? language).1.mapError .reported, (s.choose refused? language).2, rfl⟩
  parse request s :=
    ⟨(s.parse grow request).1.mapError .reported, (s.parse grow request).2, rfl⟩

/-- From wherever a run has come to, a worker that goes on while the owner is silent ends up showing
the spans of the newest text in the newest language. -/
theorem Served.settle_published
    (h : Served (Session.parser (.ofTrees trees)) .start palette language text past p s)
    (htrees : ∀ l t, (trees l t).LiesIn t) :
    ((p.settle palette (Session.parser (.ofTrees trees))).run s).1.published =
      palette.spansOf trees p.language p.lastText := by
  obtain ⟨later, q, after, hend, hserved, hquiet, hlanguage, htext⟩ :=
    h.settle (isReady_session _ _)
  obtain ⟨hin, hgood⟩ := hserved.inStep htrees
  rw [hend, ← hlanguage, ← htext]
  exact hin.shown_at_rest hserved.history hgood hquiet

/-- **A pipeline over syntax trees shows what one full parse would show.** The grammars grow one
tree for each text, which lies in that text. Then, however the events are batched and whatever they
interrupt: every edit that the parser is asked to parse is accepted and gives a result, and never
has the whole text to be parsed in its place. The session's text is the one of the worker's
snapshot; only inside a cycle that chooses a language, after the choice and before the whole text
is parsed, has the session none yet. Whatever replaces the published spans are those of the newest
text in the newest language, and a pipeline at rest shows what a new session would answer for
them. -/
theorem published_is_full_parse
    (h : Served (Session.parser (.ofTrees trees)) .start palette language text past p s)
    (htrees : ∀ l t, (trees l t).LiesIn t) :
    (∀ call ∈ calls past, ∀ changed e answer,
      call.exchange = .parse (.incremental changed e) answer →
        call.revision ≠ none ∧ ∃ highlights, answer = .ok highlights ∧
          Highlight.allFit highlights call.text.byteSize = true) ∧
    (∀ step ∈ past, ∀ epoch changed e,
      step.before.phase = .parsing epoch (.incremental changed e) →
        step.after.phase.isWhole = false) ∧
    (∀ y, p.synced = some y → s.text = y.text ∨
      p.phase.isWhole = true ∧ ∃ l earlier call, p.pendingLanguage = some l ∧
        calls past = earlier ++ [call] ∧ call.exchange = .choice l (.ok ())) ∧
    (∀ move next, p.step palette move = some next →
      next.publishedRevision ≠ p.publishedRevision ∨ next.published ≠ p.published →
        next.published = palette.spansOf trees p.language p.lastText) ∧
    (p.isQuiet = true → ∃ highlights,
      (Session.fresh (.ofTrees trees) p.language p.lastText).1 = .ok highlights ∧
        p.published = palette.spans highlights) := by
  obtain ⟨hin, hgood⟩ := h.inStep htrees
  refine ⟨?_, ?_, ?_, ?_, ?_⟩
  · intro call hcall changed e answer hexchange
    obtain ⟨hfailure, hrevision⟩ := accepted_of_goesWell hgood hcall
    refine ⟨hrevision (by simp [Call.isChoice, hexchange]), ?_⟩
    cases answer with
    | ok highlights => exact ⟨highlights, rfl, by simpa [Call.failure?, hexchange] using hfailure⟩
    | error failure => simp [Call.failure?, hexchange] at hfailure
  · intro step hstep
    exact (hgood step hstep).keeps_edit
  · intro y hsynced
    cases hwhole : p.phase.isWhole with
    | false =>
      obtain ⟨l, hs, _⟩ := hin.synced hwhole y hsynced
      exact .inl (congrArg Session.text hs)
    | true =>
      obtain ⟨l, _, hpending | ⟨_, hnone⟩⟩ := hin.whole hwhole
      · obtain ⟨earlier, call, hcalls, hchoice⟩ := h.history.chosen_before_whole hwhole hpending
        exact .inr ⟨rfl, l, earlier, call, hpending, hcalls, hchoice⟩
      · rw [hnone] at hsynced
        contradiction
  · intro move next hstep hreplaced
    exact hin.published_eq h.history (transition_of_step hstep) hreplaced
  · intro hquiet
    refine ⟨_, ?_, hin.shown_at_rest h.history hgood hquiet⟩
    exact congrArg Prod.fst (Session.fresh_of_grow rfl)

/-- The name of a constant grows while the first result is already published: the parser is asked to
parse the edit, and what it answers replaces that result. -/
theorem published_is_full_parse_after_edit :
    let trees (_ : Language) (text : Text) : SyntaxTree := .ofStatement text
    let palette := Palette.ofTheme .empty
    let old := ['A', 'B', ';']
    let new := ['A', 'B', 'C', ';']
    let highlights (t : Text) := (trees .rust t).highlights .rust t
    let p : Pipeline := {
      epoch := 2
      lastText := new
      language := .rust
      queue := []
      current := new
      pendingLanguage := none
      synced := some ⟨new, palette.spans (highlights new), 2⟩
      revision := 2
      publishedRevision := 1
      published := palette.spans (highlights old)
      phase := .publishing 2 }
    let next : Pipeline := {
      p with
      phase := .idle
      published := palette.spans (highlights new)
      publishedRevision := 2 }
    let s : Session := ⟨some .rust, some (trees .rust new), new⟩
    (∀ l t, (trees l t).LiesIn t) ∧
      ∃ past, Served (Session.parser (.ofTrees trees)) .start palette .rust old past p s ∧
        (∃ call ∈ calls past, call.exchange =
            .parse (.incremental ['C'] ⟨2, 2, 3⟩) (.ok (highlights new)) ∧
          call.revision ≠ none) ∧
        p.step palette .work = some next ∧ next.isQuiet = true ∧
        p.published = [⟨palette.style 10, 0, 2⟩] ∧ next.published = [⟨palette.style 10, 0, 3⟩] ∧
        next.published = palette.spansOf trees .rust new ∧
        ∃ shown, (Session.fresh (.ofTrees trees) .rust new).1 = .ok shown ∧
          next.published = palette.spans shown := by
  intro trees palette old new highlights p next s
  have htrees : ∀ l t, (trees l t).LiesIn t := fun _ t => SyntaxTree.liesIn_ofStatement t
  have hfit : ∀ t, Highlight.allFit (highlights t) t.byteSize = true :=
    fun t => (htrees .rust t).allFit
  have hold : highlights old = [⟨0, 2, 10⟩] := by decide +kernel
  have hnew : highlights new = [⟨0, 3, 10⟩] := by decide +kernel
  -- The first cycle has parsed the whole text.
  let first : Pipeline := {
    epoch := 1
    lastText := old
    language := .rust
    queue := []
    current := old
    pendingLanguage := none
    synced := some ⟨old, palette.spans (highlights old), 1⟩
    revision := 1
    publishedRevision := 0
    published := []
    phase := .publishing 1 }
  have hopened : Served (Session.parser (.ofTrees trees)) .start palette .rust old []
      (.opened .rust old) .start := .opened
  have hasked := hopened.run
    (show ∀ move ∈ [Move.work, .work, .work], move.isAnswer = false by simp [Move.isAnswer]) rfl
  have hchosen := hasked.answered (show reply? _ _ _ = some (.chosen (.ok ()), _) from rfl) rfl
  have hparsed := hchosen.answered
    (show reply? _ _ _ = some (.parsed (.ok (highlights old)), _) from rfl)
    (show step _ _ _ = some first from congrArg some (if_pos (hfit old)))
  have hedited := hparsed.run
    (show ∀ move ∈ [Move.work, .text new, .work, .work, .work], move.isAnswer = false by
      simp [Move.isAnswer]) rfl
  obtain ⟨past, hserved, call, hcall, hexchange⟩ :
      ∃ past, Served (Session.parser (.ofTrees trees)) .start palette .rust old past p s ∧
        ∃ call ∈ calls past, call.exchange =
          .parse (.incremental ['C'] ⟨2, 2, 3⟩) (.ok (highlights new)) := by
    refine ⟨_, hedited.answered
      (show reply? _ _ _ = some (.parsed (.ok (highlights new)), s) from rfl)
      (show step _ _ _ = some p from congrArg some (if_pos (hfit new))), ?_⟩
    rw [calls_concat]
    exact ⟨_, List.mem_append_right _ (List.mem_singleton.mpr rfl), rfl⟩
  have hpublish : p.step palette .work = some next := rfl
  have hshown := hserved.own rfl hpublish
  obtain ⟨haccepted, _, _, hreplaced, _⟩ := published_is_full_parse hserved htrees
  obtain ⟨_, _, _, _, hrest⟩ := published_is_full_parse hshown htrees
  exact ⟨htrees, past, hserved, ⟨call, hcall, hexchange, (haccepted call hcall _ _ _ hexchange).1⟩,
    hpublish, rfl, congrArg palette.spans hold, congrArg palette.spans hnew,
    hreplaced _ next hpublish (.inl (by decide)), hrest rfl⟩

end Pipeline

end Retint
