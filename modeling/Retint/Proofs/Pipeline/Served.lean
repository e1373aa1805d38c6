import Retint.Pipeline.Settle
import Retint.Proofs.Pipeline.Queue

/-!
# Runs with a given parser

In a run the parser may answer anything. Here the answers are those of one parser that keeps a
state: whenever the pipeline asks, the parser answers from the state that it is in, and goes on to
the next one. The owner and the worker make their moves in between as before. A worker that goes on
for as long as it can makes such a run, in which the owner is silent.
-/

namespace Retint.Pipeline

/-- Whether a move is an answer of the parser. -/
def Move.isAnswer : Move → Bool
  | .chosen _ | .parsed _ => true
  | .text _ | .language _ | .work => false

variable {σ : Type}

/-- The answer of a parser to what a pipeline asks for, with the parser's next state; none if the
pipeline asks for nothing or the parser is not ready. -/
def reply? (parser : Parser (StateM σ)) (p : Pipeline) (s : σ) : Option (Move × σ) :=
  match p.phase with
  | .choosing _ language =>
    let (answer?, after) := (parser.setLanguage language).run s
    answer?.map fun answer => (.chosen answer, after)
  | .parsing _ request =>
    let (answer?, after) := (parser.parse request).run s
    answer?.map fun answer => (.parsed answer, after)
  | _ => none

/-- The steps since the opening, the pipeline they lead to and the state of the parser that gave
all the answers. -/
inductive Served (parser : Parser (StateM σ)) (initial : σ) (palette : Palette)
    (language : Language) (text : Text) : List Step → Pipeline → σ → Prop where
  /-- Nothing has happened since the opening. -/
  | opened : Served parser initial palette language text [] (.opened language text) initial
  /-- The owner or the worker made a move. -/
  | own {past : List Step} {p next : Pipeline} {s : σ} {move : Move} :
      Served parser initial palette language text past p s → move.isAnswer = false →
      p.step palette move = some next →
      Served parser initial palette language text (past ++ [⟨p, move, next⟩]) next s
  /-- The parser answered. -/
  | answered {past : List Step} {p next : Pipeline} {s after : σ} {move : Move} :
      Served parser initial palette language text past p s →
      reply? parser p s = some (move, after) → p.step palette move = some next →
      Served parser initial palette language text (past ++ [⟨p, move, next⟩]) next after

variable {parser : Parser (StateM σ)} {initial s : σ} {palette : Palette} {language : Language}
  {text : Text} {past : List Step} {p next : Pipeline} {move : Move} {moves : List Move}

/-- A run with a given parser is a run. -/
theorem Served.history (h : Served parser initial palette language text past p s) :
    History palette language text past p := by
  induction h with
  | opened => exact .opened
  | own _ _ hstep ih => exact ih.snoc hstep
  | answered _ _ hstep ih => exact ih.snoc hstep

/-- Several moves of the owner and the worker, without an answer of the parser. -/
theorem Served.run (h : Served parser initial palette language text past p s)
    (hown : ∀ move ∈ moves, move.isAnswer = false) (hrun : p.run palette moves = some next) :
    Served parser initial palette language text (past ++ p.steps palette moves) next s := by
  induction moves generalizing past p with
  | nil =>
    cases hrun
    simpa [steps] using h
  | cons move later ih =>
    obtain ⟨after, hstep, hlater⟩ := Option.bind_eq_some_iff.mp hrun
    have hfirst := h.own (hown move List.mem_cons_self) hstep
    have hrest := ih hfirst (fun m hm => hown m (List.mem_cons_of_mem _ hm)) hlater
    simpa [steps, hstep] using hrest

/-! ### Going on to the end -/

/-- Whether a move is one of the owner. -/
def Move.isOwner : Move → Bool
  | .text _ | .language _ => true
  | .work | .chosen _ | .parsed _ => false

/-- A parser that always answers at once. -/
structure IsReady (parser : Parser (StateM σ)) : Prop where
  /-- It answers to the choice of a language. -/
  setLanguage : ∀ language s, ∃ answer after,
    (parser.setLanguage language).run s = (some answer, after)
  /-- It answers to a request. -/
  parse : ∀ request s, ∃ answer after, (parser.parse request).run s = (some answer, after)

/-- Only the owner changes what the owner saw and chose last. -/
theorem Transition.owner_eq (ht : Transition palette p move next) (howner : move.isOwner = false) :
    next.language = p.language ∧ next.lastText = p.lastText := by
  cases ht with
  | sameText | newText | newLanguage => contradiction
  | _ => exact ⟨rfl, rfl⟩

/-- While the owner is silent, a worker that has published something has nothing left to do. -/
theorem History.isQuiet_of_published (h : History palette language text past p)
    (hsilent : ∀ step ∈ past, step.move.isOwner = false) (hpublished : p.publishedRevision ≠ 0) :
    p.isQuiet = true := by
  induction h with
  | opened => exact absurd rfl hpublished
  | @snoc past p next move hpast hstep ih =>
    have hbefore := ih fun step hmem => hsilent step (List.mem_append_left _ hmem)
    have howner : move.isOwner = false :=
      hsilent ⟨p, move, next⟩ (List.mem_append_right _ (List.mem_singleton_self _))
    cases transition_of_step hstep with
    | sameText | newText | newLanguage => contradiction
    | publish synced hphase =>
      have hqueue : p.queue = [] := hpast.queue_eq_nil (by rw [hphase]; rfl)
      exact isQuiet_iff.mpr ⟨hqueue, rfl⟩
    | _ =>
      -- Any other move starts from a pipeline with something left to do.
      have hquiet := isQuiet_iff.mp (hbefore hpublished)
      simp_all

/-- A worker with nothing left to do makes no move, and the parser is not asked. -/
theorem step_eq_none_of_isQuiet (hquiet : p.isQuiet = true) (howner : move.isOwner = false) :
    p.step palette move = none := by
  obtain ⟨hqueue, hphase⟩ := isQuiet_iff.mp hquiet
  cases move with
  | text | language => contradiction
  | work => simp [step, work, hqueue, hphase]
  | chosen | parsed => simp [step, hphase]

/-- A worker that can make no move by itself and does not wait for the parser has nothing left to
do. -/
theorem isQuiet_of_work_eq_none (hwork : p.work = none)
    (hchoosing : ∀ epoch l, p.phase = .choosing epoch l → False)
    (hparsing : ∀ epoch request, p.phase = .parsing epoch request → False) :
    p.isQuiet = true := by
  cases hphase : p.phase with
  | idle =>
    cases hqueue : p.queue with
    | nil => simp [isQuiet, hphase, hqueue]
    | cons event later => simp [work, hphase, hqueue] at hwork
  | draining epoch => cases hqueue : p.queue <;> simp [work, hphase, hqueue] at hwork
  | starting epoch => simp [work, hphase] at hwork
  | publishing epoch => simp [work, hphase] at hwork
  | choosing epoch l => exact (hchoosing epoch l hphase).elim
  | parsing epoch request => exact (hparsing epoch request hphase).elim

/-- A worker that goes on with a ready parser has nothing left to do, or it makes one more move or
gets one more answer, which brings it nearer to the end. -/
theorem settle_cases (palette : Palette) (hready : IsReady parser) (p : Pipeline) (s : σ) :
    p.isQuiet = true ∧ (p.settle palette parser).run s = (p, s) ∨
      ∃ move next after, move.isOwner = false ∧ p.step palette move = some next ∧
        (move.isAnswer = false ∧ after = s ∨ reply? parser p s = some (move, after)) ∧
        next.distance < p.distance ∧
        (p.settle palette parser).run s = (next.settle palette parser).run after := by
  rw [Pipeline.settle]
  split
  · rename_i epoch l hphase
    obtain ⟨answer, after, hanswer⟩ := hready.setLanguage l s
    refine .inr ⟨.chosen answer, p.afterChoice epoch answer, after, rfl, ?_, .inr ?_,
      distance_afterChoice_lt hphase answer, ?_⟩
    · simp [step, hphase]
    · simp [reply?, hphase, hanswer]
    · simp only [StateT.run_bind, hanswer]
      rfl
  · rename_i epoch request hphase
    obtain ⟨answer, after, hanswer⟩ := hready.parse request s
    refine .inr ⟨.parsed answer, p.afterParse palette epoch request answer, after, rfl, ?_, .inr ?_,
      distance_afterParse_lt hphase palette answer, ?_⟩
    · simp [step, hphase]
    · simp [reply?, hphase, hanswer]
    · simp only [StateT.run_bind, hanswer]
      rfl
  · rename_i hchoosing hparsing
    split
    · rename_i hwork
      exact .inl ⟨isQuiet_of_work_eq_none hwork hchoosing hparsing, rfl⟩
    · rename_i next hwork
      exact .inr ⟨.work, next, s, rfl, hwork, .inl ⟨rfl, rfl⟩, distance_work_lt hwork, rfl⟩

/-- A worker that goes on with a ready parser, while the owner is silent, makes one of these runs,
and it ends with nothing left to do. -/
theorem Served.settle (hready : IsReady parser)
    (h : Served parser initial palette language text past p s) :
    ∃ later q after, (p.settle palette parser).run s = (q, after) ∧
      Served parser initial palette language text (past ++ later) q after ∧ q.isQuiet = true ∧
      q.language = p.language ∧ q.lastText = p.lastText := by
  induction hd : p.distance using Nat.strongRecOn generalizing past p s with
  | ind d ih =>
    rcases settle_cases palette hready p s with ⟨hquiet, hend⟩ |
      ⟨move, next, after, howner, hstep, hmade, hlt, hgo⟩
    · exact ⟨[], p, s, hend, by simpa using h, hquiet, rfl, rfl⟩
    · have hnext : Served parser initial palette language text (past ++ [⟨p, move, next⟩]) next
          after := by
        rcases hmade with ⟨hown, rfl⟩ | hreply
        · exact h.own hown hstep
        · exact h.answered hreply hstep
      obtain ⟨later, q, last, hend, hserved, hquiet, hlanguage, htext⟩ :=
        ih next.distance (hd ▸ hlt) hnext rfl
      obtain ⟨hsame, hsame'⟩ := (transition_of_step hstep).owner_eq howner
      refine ⟨⟨p, move, next⟩ :: later, q, last, hgo.trans hend, ?_, hquiet,
        hlanguage.trans hsame, htext.trans hsame'⟩
      simpa using hserved

end Retint.Pipeline
