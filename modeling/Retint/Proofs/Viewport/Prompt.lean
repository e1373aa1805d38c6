import Retint.Proofs.Viewport.Reading

/-!
# Taking everything up when it occurs

A filter that takes everything up when it occurs lets time pass only while there is nothing to take
up, and no further than to its deadline. Such a filter is never stuck: by its own moves it takes up
all that is waiting, and then lets as much time pass as one likes, taking its deadline up on the way
when it comes.
-/

namespace Retint.Filter

/-- A filter may let time pass: there is nothing to take up, and the deadline is not passed over. -/
structure MayWait (f : Filter) (time : Nat) : Prop where
  idle : ∀ w, f.ready w = false
  le_deadline : ∀ due, f.deadline = some due → f.now + time ≤ due

/-- A filter that takes everything up when it occurs leaves room for a move. -/
def Admits (f : Filter) : Move → Prop
  | .tick time => f.MayWait time
  | _ => True

/-- A run of a filter that takes everything up when it occurs, with the filter before each move. -/
inductive Prompt (f : Filter) : List (Filter × Move) → Filter → Prop where
  /-- Nothing has happened. -/
  | start : Prompt f [] f
  /-- One more move was made. -/
  | move {trace : List (Filter × Move)} {g next : Filter} (move : Move) :
      Prompt f trace g → g.Admits move → g.step move = some next →
      Prompt f (trace ++ [(g, move)]) next

/-- The filter when its clock shows a time. -/
def atTime (f : Filter) (time : Nat) : Filter := { f with now := time }

/-- A move of the filter itself or of the clock. -/
def Move.IsOwn : Move → Prop
  | .tick _ | .wake _ => True
  | .spans _ | .close | .scroll _ | .resize _ | .layout _ => False

/-- A filter gets to another one if nothing happens to it but what it does itself. -/
def GetsTo (f g : Filter) : Prop :=
  ∃ trace, Prompt f trace g ∧ ∀ entry ∈ trace, entry.2.IsOwn

/-- Whether taking one thing up can make another one ready. -/
def Wake.bringsAbout : Wake → Wake → Bool
  | .start, _ | .spans, .closed | .scroll, .timer => true
  | _, _ => false

variable {f g next : Filter} {trace later : List (Filter × Move)} {move : Move} {v w : Wake}

/-! ### What is ready -/

@[simp] theorem ready_recompute (f : Filter) (w : Wake) : f.recompute.ready w = f.ready w := by
  unfold recompute
  split
  · rfl
  · cases w <;> rfl

@[simp] theorem take_now (f : Filter) (w : Wake) : (f.take w).now = f.now := by
  cases w <;> simp [take]

@[simp] theorem take_debounce (f : Filter) (w : Wake) : (f.take w).debounce = f.debounce := by
  cases w <;> simp [take]

theorem started_take (w : Wake) (h : f.started = true) : (f.take w).started = true := by
  cases w <;> simp [take, h]

/-- Only a change of position and the deadline itself touch the deadline. -/
theorem deadline_take (hscroll : w ≠ .scroll) (htimer : w ≠ .timer) :
    (f.take w).deadline = f.deadline := by
  cases w <;> simp_all [take]

theorem deadline_take_timer : (f.take .timer).deadline = none := by
  simp [take]

theorem scroll_seen_take (w : Wake) (h : f.scroll.unseen = false) :
    (f.take w).scroll.unseen = false := by
  cases w <;> simp [take, Watched.seen, h]

/-- Recomputing makes nothing ready. -/
theorem ready_take (f : Filter) (w v : Wake) : (f.take w).ready v = (f.notice w).ready v := by
  rw [take_eq_notice]
  split
  · exact ready_recompute _ v
  · rfl

theorem ready_take_self (f : Filter) (w : Wake) : (f.take w).ready w = false := by
  rw [ready_take]
  cases w <;> simp [ready, notice, Watched.seen]

/-- What was not ready is not made ready by something that does not bring it about. -/
theorem not_ready_take (h : f.ready v = false) (hbrings : w.bringsAbout v = false) :
    (f.take w).ready v = false := by
  rw [ready_take]
  cases w <;> cases v <;> first
    | contradiction
    | exact h
    | simp_all [ready, notice, Watched.seen]

/-! ### Taking up all that is waiting -/

/-- Whatever taking something up keeps, taking up all that is waiting keeps. -/
theorem settle_of_take {P : Filter → Prop}
    (htake : ∀ g w, g.ready w = true → P g → P (g.take w)) (h : P f) : P f.settle := by
  unfold settle
  generalize Wake.all = waiting
  induction waiting generalizing f with
  | nil => exact h
  | cons w later ih =>
    have htried : P ((f.wake? w).getD f) := by
      cases hwake : f.wake? w with
      | none => exact h
      | some next =>
        obtain ⟨hready, rfl⟩ := wake?_eq_some_iff.mp hwake
        exact htake f w hready h
    exact ih htried

theorem now_settle (f : Filter) : f.settle.now = f.now :=
  settle_of_take (P := fun g => g.now = f.now) (fun g w _ h => (take_now g w).trans h) rfl

/-- Without a change of the position nothing sets a deadline. -/
theorem deadline_settle (h : f.scroll.unseen = false) :
    f.settle.deadline = f.deadline ∨ f.settle.deadline = none := by
  refine (settle_of_take (P := fun g => g.scroll.unseen = false ∧
    (g.deadline = f.deadline ∨ g.deadline = none)) ?_ ⟨h, .inl rfl⟩).2
  intro g w hready ⟨hseen, hdeadline⟩
  refine ⟨scroll_seen_take w hseen, ?_⟩
  by_cases htimer : w = .timer
  · subst htimer
    exact .inr deadline_take_timer
  · have hscroll : w ≠ .scroll := by
      rintro rfl
      simp [ready, hseen] at hready
    rwa [deadline_take hscroll htimer]

/-- Trying to take something up leaves nothing of it. -/
theorem not_ready_wake? (f : Filter) (w : Wake) : ((f.wake? w).getD f).ready w = false := by
  unfold wake?
  split
  · exact ready_take_self f w
  · rename_i hready
    simpa using hready

theorem not_ready_wake?_of_not_ready (h : f.ready v = false) (hbrings : w.bringsAbout v = false) :
    ((f.wake? w).getD f).ready v = false := by
  unfold wake?
  split
  · exact not_ready_take h hbrings
  · exact h

theorem not_ready_foldl_of_not_ready {waiting : List Wake} (h : f.ready v = false)
    (hbrings : ∀ w ∈ waiting, w.bringsAbout v = false) :
    (waiting.foldl (fun f w => (f.wake? w).getD f) f).ready v = false := by
  induction waiting generalizing f with
  | nil => exact h
  | cons w later ih =>
    have htried := not_ready_wake?_of_not_ready h (hbrings w List.mem_cons_self)
    exact ih htried fun u hu => hbrings u (List.mem_cons_of_mem w hu)

/-- What is taken up in an order in which nothing brings about what comes before it is not waiting
afterwards. -/
theorem not_ready_foldl {waiting : List Wake}
    (horder : waiting.Pairwise fun v w => w.bringsAbout v = false) (hmem : v ∈ waiting) :
    (waiting.foldl (fun f w => (f.wake? w).getD f) f).ready v = false := by
  induction waiting generalizing f with
  | nil => contradiction
  | cons w later ih =>
    obtain ⟨hfirst, hlater⟩ := List.pairwise_cons.mp horder
    rcases List.mem_cons.mp hmem with rfl | hmem
    · rw [List.foldl_cons]
      exact not_ready_foldl_of_not_ready (not_ready_wake? f v) hfirst
    · exact ih hlater hmem

/-- **Nothing is waiting** once all that is waiting was taken up. -/
theorem not_ready_settle (f : Filter) (w : Wake) : f.settle.ready w = false :=
  not_ready_foldl (by decide) (by cases w <;> decide)

theorem started_settle (f : Filter) : f.settle.started = true := by
  simpa [ready] using not_ready_settle f .start

/-- A deadline that is left after taking up all that is waiting is still to come. -/
theorem now_lt_of_deadline_settle {due : Nat} (h : f.settle.deadline = some due) : f.now < due := by
  have htimer := not_ready_settle f .timer
  simpa [ready, started_settle, h, now_settle] using htimer

theorem scroll_seen_settle (f : Filter) : f.settle.scroll.unseen = false := by
  simpa [ready, started_settle] using not_ready_settle f .scroll

/-! ### Getting on -/

theorem Prompt.trans (h : Prompt f trace g) (hlater : Prompt g later next) :
    Prompt f (trace ++ later) next := by
  induction hlater with
  | start => rwa [List.append_nil]
  | move move _ hadmits hstep ih =>
    rw [← List.append_assoc]
    exact ih.move move hadmits hstep

theorem GetsTo.refl (f : Filter) : f.GetsTo f := ⟨[], .start, by simp⟩

theorem GetsTo.trans (h : f.GetsTo g) (hlater : g.GetsTo next) : f.GetsTo next := by
  obtain ⟨trace, hrun, hown⟩ := h
  obtain ⟨later, hlater, hownLater⟩ := hlater
  refine ⟨trace ++ later, hrun.trans hlater, ?_⟩
  intro entry hentry
  rcases List.mem_append.mp hentry with hentry | hentry
  · exact hown entry hentry
  · exact hownLater entry hentry

theorem GetsTo.take (h : f.ready w = true) : f.GetsTo (f.take w) := by
  refine ⟨[(f, .wake w)], Prompt.start.move (.wake w) trivial ?_, ?_⟩
  · exact wake?_eq_some_iff.mpr ⟨h, rfl⟩
  · rintro _ (_ | ⟨_, ⟨⟩⟩)
    trivial

theorem GetsTo.tick {time : Nat} (h : f.MayWait time) : f.GetsTo (f.atTime (f.now + time)) := by
  refine ⟨[(f, .tick time)], Prompt.start.move (.tick time) h rfl, ?_⟩
  rintro _ (_ | ⟨_, ⟨⟩⟩)
  trivial

/-- A filter gets to a later time if nothing is waiting and the deadline is not passed over. -/
theorem GetsTo.atTime {time : Nat} (hidle : ∀ w, f.ready w = false) (hle : f.now ≤ time)
    (hdeadline : ∀ due, f.deadline = some due → time ≤ due) : f.GetsTo (f.atTime time) := by
  obtain ⟨rest, rfl⟩ := Nat.exists_eq_add_of_le hle
  exact .tick ⟨hidle, hdeadline⟩

theorem GetsTo.settle (f : Filter) : f.GetsTo f.settle :=
  settle_of_take (fun _ _ hready h => h.trans (.take hready)) (.refl f)

/-- Some time later the deadline has come and was taken up on the way, or it has not come. -/
theorem advance_cases (f : Filter) (time : Nat) :
    (∃ due, f.settle.deadline = some due ∧ due ≤ f.now + time ∧
      f.advance time = (f.settle.atTime due).settle.atTime (f.now + time)) ∨
    (∀ due, f.settle.deadline = some due → f.now + time < due) ∧
      f.advance time = f.settle.atTime (f.now + time) := by
  unfold advance atTime
  cases hdeadline : f.settle.deadline with
  | none => exact .inr ⟨by simp, by simp only [hdeadline, now_settle]⟩
  | some due =>
    have hmax : max f.now due = due :=
      Nat.max_eq_right (Nat.le_of_lt (now_lt_of_deadline_settle hdeadline))
    by_cases hle : due ≤ f.now + time
    · exact .inl ⟨due, rfl, hle, by simp only [hdeadline, now_settle, hmax, if_pos hle]⟩
    · refine .inr ⟨?_, by simp only [hdeadline, now_settle, if_neg hle]⟩
      rintro _ ⟨⟩
      exact Nat.lt_of_not_le hle

/-- Once a deadline has come and was taken up there is none. -/
theorem deadline_settle_at {due : Nat} (h : f.settle.deadline = some due) :
    (f.settle.atTime due).settle.deadline = none := by
  rcases deadline_settle (f := f.settle.atTime due) (scroll_seen_settle f) with hsame | hnone
  · exact absurd (now_lt_of_deadline_settle (hsame.trans h)) (Nat.lt_irrefl due)
  · exact hnone

/-- A deadline that is left some time later is still to come. -/
theorem now_lt_of_deadline_advance {time due : Nat} (h : (f.advance time).deadline = some due) :
    f.now + time < due := by
  rcases advance_cases f time with ⟨_, hdue, _, heq⟩ | ⟨hlater, heq⟩
  · rw [heq] at h
    cases (deadline_settle_at hdue).symm.trans h
  · rw [heq] at h
    exact hlater due h

/-- **A filter is never stuck.** By its own moves it lets as much time pass as one likes. -/
theorem GetsTo.advance (f : Filter) (time : Nat) : f.GetsTo (f.advance time) := by
  have hsettle := GetsTo.settle f
  rcases advance_cases f time with ⟨due, hdue, hle, heq⟩ | ⟨hlater, heq⟩
  · have hlt : f.settle.now < due := by
      rw [now_settle]
      exact now_lt_of_deadline_settle hdue
    -- Time passes to the deadline, it is taken up, and the rest of the time passes.
    have hcome : f.settle.GetsTo (f.settle.atTime due) := by
      refine .atTime (not_ready_settle f) (Nat.le_of_lt hlt) ?_
      intro other hother
      cases hdue.symm.trans hother
      exact Nat.le_refl due
    have hrest : (f.settle.atTime due).settle.GetsTo (f.advance time) := by
      rw [heq]
      refine .atTime (not_ready_settle _) (by rwa [now_settle]) ?_
      intro other hother
      cases (deadline_settle_at hdue).symm.trans hother
    exact hsettle.trans (hcome.trans ((GetsTo.settle _).trans hrest))
  · rw [heq]
    refine hsettle.trans (.atTime (not_ready_settle f) ?_ ?_)
    · rw [now_settle]
      exact Nat.le_add_right _ _
    · intro due hdue
      exact Nat.le_of_lt (hlater due hdue)

end Retint.Filter
