import Retint.Pipeline.Basic

/-!
# Letting a pipeline come to rest

While the owner is silent, the worker goes on until it waits for an event or for a parser that is
not ready. This always ends: every move of the worker shortens the queue or brings the cycle nearer
to its end, whatever the parser answers.
-/

namespace Retint.Pipeline

/-- How many moves may be left before a cycle ends. -/
def Phase.distance : Phase → Nat
  | .idle => 0
  | .publishing _ => 1
  | .parsing _ (.full _) => 2
  | .parsing _ (.incremental _ _) => 3
  | .choosing _ _ => 4
  | .starting _ => 5
  | .draining _ => 6

/-- How many moves may be left before the worker waits for an event. -/
def distance (p : Pipeline) : Nat := 7 * p.queue.length + Phase.distance p.phase

theorem distance_fail_lt (p : Pipeline) (failure : Failure) (h : 0 < Phase.distance p.phase) :
    (p.fail failure).distance < p.distance := by
  show 7 * p.queue.length + 0 < 7 * p.queue.length + Phase.distance p.phase
  omega

theorem distance_absorb_lt {p : Pipeline} {event : Event} {later : List Event}
    (h : p.queue = event :: later) : (p.absorb event later).distance < p.distance := by
  unfold absorb
  cases event.notice <;> simp [distance, Phase.distance, h] <;> omega

theorem Phase.distance_firstPhase_lt (p : Pipeline) (epoch : Nat) :
    Phase.distance (p.firstPhase epoch) < 5 := by
  unfold firstPhase
  split
  · simp [Phase.distance]
  · simp [Phase.distance]
  · split <;> simp [Phase.distance]

theorem distance_begin_lt {p : Pipeline} {epoch : Nat} (h : p.phase = .starting epoch) :
    (p.begin epoch).distance < p.distance := by
  have := Phase.distance_firstPhase_lt p epoch
  show 7 * p.queue.length + Phase.distance (if epoch = p.epoch then _ else .idle) <
    7 * p.queue.length + Phase.distance p.phase
  rw [h]
  split
  · exact Nat.add_lt_add_left this _
  · simp [Phase.distance]

theorem distance_publish_lt {p : Pipeline} {epoch : Nat} (h : p.phase = .publishing epoch) :
    (p.publish epoch).distance < p.distance := by
  unfold publish
  split
  · simp [distance, Phase.distance, h]
  · split <;> simp [distance, Phase.distance, h]

theorem distance_work_lt {p next : Pipeline} (h : p.work = some next) :
    next.distance < p.distance := by
  unfold work at h
  split at h <;> simp only [Option.some.injEq, reduceCtorEq] at h <;> subst h
  · exact distance_absorb_lt ‹_›
  · exact distance_absorb_lt ‹_›
  · rename_i hphase _
    simp [distance, Phase.distance, hphase]
  · exact distance_begin_lt ‹_›
  · exact distance_publish_lt ‹_›

theorem distance_afterChoice_lt {p : Pipeline} {epoch : Nat} {language : Language}
    (h : p.phase = .choosing epoch language) (answer : Except Failure Unit) :
    (p.afterChoice epoch answer).distance < p.distance := by
  unfold afterChoice
  split
  · simp [distance, Phase.distance, h]
  · exact p.distance_fail_lt _ (by simp [h, Phase.distance])

theorem distance_afterParse_lt {p : Pipeline} {epoch : Nat} {request : ParseRequest}
    (h : p.phase = .parsing epoch request) (palette : Palette)
    (answer : Except Failure (List Highlight)) :
    (p.afterParse palette epoch request answer).distance < p.distance := by
  have failed : ∀ failure, (p.fail failure).distance < p.distance := fun failure =>
    p.distance_fail_lt failure (by rw [h]; cases request <;> simp [Phase.distance])
  unfold afterParse
  split
  · split
    · simp [distance, Phase.distance, sync, h]
    · exact failed _
  · split
    · simp [distance, Phase.distance, sync, h]
    · simp [distance, Phase.distance, h]
  · simp [distance, Phase.distance, h]
  · exact failed _

variable {m : Type → Type} [Monad m]

/-- The pipeline after the worker went on for as long as it could. -/
def settle (palette : Palette) (parser : Parser m) (p : Pipeline) : m Pipeline :=
  match _hphase : p.phase with
  | .choosing epoch language => do
    match ← parser.setLanguage language with
    | none => return p
    | some answer => settle palette parser (p.afterChoice epoch answer)
  | .parsing epoch request => do
    match ← parser.parse request with
    | none => return p
    | some answer => settle palette parser (p.afterParse palette epoch request answer)
  | _ =>
    match _hwork : p.work with
    | none => return p
    | some next => settle palette parser next
termination_by p.distance
decreasing_by
  · exact distance_afterChoice_lt _hphase answer
  · exact distance_afterParse_lt _hphase palette answer
  · exact distance_work_lt _hwork

end Retint.Pipeline
