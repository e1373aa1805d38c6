import Mathlib.Data.List.Induction
import Retint.Files.System

/-!
# Where paths lead while files are added

What a path leads to is found name by name. If files and directories are only added, a path that led
somewhere still leads there. Conversely, a path that leads to something that was there before led to
it before, unless it climbs, by two dots, out of a directory that has been added: below such a
directory there was nothing, but next to it there may have been.
-/

namespace Retint.FileSystem

variable {fs fs' fs'' : FileSystem} {here there : Location} {names later : List Text} {name : Text}
  {path t : Text} {entry : Entry}

/-- There is always a root. -/
theorem ne_nil_of_missing (h : fs.entry? here = none) : here ≠ [] := by
  rintro rfl
  contradiction

/-- What was put at a location is there, and nowhere else has anything changed. -/
theorem entry?_put {location : Location} (hlocation : location ≠ []) (there : Location) :
    entry? (fs.put location entry) there =
      if there = location then some entry else fs.entry? there := by
  have hfilter : ∀ entries : List (Location × Entry), there ≠ location →
      (entries.filter (·.1 ≠ location)).lookup there = entries.lookup there := by
    intro entries hne
    induction entries with
    | nil => rfl
    | cons m entries ih =>
      by_cases hm : m.1 = location
      · have hthere : (there == m.1) = false := by simp [hm, hne]
        rw [List.filter_cons_of_neg (by simp [hm]), ih, List.lookup_cons, hthere]
      · rw [List.filter_cons_of_pos (by simp [hm]), List.lookup_cons, List.lookup_cons, ih]
  unfold put entry?
  by_cases hroot : there = []
  · rw [if_pos hroot, if_pos hroot, if_neg]
    exact fun heq => hlocation (heq.symm.trans hroot)
  · rw [if_neg hroot, if_neg hroot, List.lookup_cons]
    by_cases heq : there = location
    · simp [heq]
    · have hthere : (there == location) = false := by simp [heq]
      rw [hthere, if_neg heq]
      exact hfilter _ heq

/-! ### Following names -/

/-- Where one name leads from a directory. -/
def enter (here : Location) (name : Text) : Location :=
  if name = ['.'] then here
  else if name = ['.', '.'] then here.dropLast
  else here ++ [name]

theorem follow_cons_eq_ok_iff : fs.follow here (name :: names) = .ok there ↔
    fs.entry? here = some .directory ∧ fs.follow (enter here name) names = .ok there := by
  rw [follow, enter]
  split
  · simp_all
  · simp_all
  · rename_i h
    simp only [h, true_and]
    split
    · rfl
    · split <;> rfl

theorem follow_append : fs.follow here (names ++ later) = .ok there ↔
    ∃ between, fs.follow here names = .ok between ∧ fs.follow between later = .ok there := by
  induction names generalizing here with
  | nil => simp [follow]
  | cons name names ih =>
    simp only [List.cons_append, follow_cons_eq_ok_iff, ih]
    constructor
    · rintro ⟨hdirectory, between, hbetween, hlater⟩
      exact ⟨between, ⟨hdirectory, hbetween⟩, hlater⟩
    · rintro ⟨between, ⟨hdirectory, hbetween⟩, hlater⟩
      exact ⟨hdirectory, between, hbetween, hlater⟩

theorem follow_concat : fs.follow here (names ++ [name]) = .ok there ↔
    ∃ directory, fs.follow here names = .ok directory ∧ fs.entry? directory = some .directory ∧
      enter directory name = there := by
  have hnil : ∀ directory, fs.follow directory [] = .ok there ↔ directory = there := by
    simp [follow]
  simp only [follow_append, follow_cons_eq_ok_iff, hnil]

/-- Single dots may be left out of a path that leads somewhere. -/
theorem follow_filter (h : fs.follow here names = .ok there) :
    fs.follow here (names.filter (· ≠ ['.'])) = .ok there := by
  induction names generalizing here with
  | nil => exact h
  | cons name names ih =>
    obtain ⟨hdirectory, hlater⟩ := follow_cons_eq_ok_iff.mp h
    by_cases hdot : name = ['.']
    · rw [List.filter_cons_of_neg (by simp [hdot])]
      rw [enter, if_pos hdot] at hlater
      exact ih hlater
    · rw [List.filter_cons_of_pos (by simp [hdot])]
      exact follow_cons_eq_ok_iff.mpr ⟨hdirectory, ih hlater⟩

/-! ### Where something new can be made -/

theorem follow_of_directoryOf {origin directory : Location}
    (h : fs.directoryOf origin names = .ok directory) :
    fs.follow origin names.dropLast = .ok directory ∧ fs.entry? directory = some .directory := by
  unfold directoryOf at h
  cases hfollow : fs.follow origin names.dropLast with
  | error error =>
    rw [hfollow] at h
    contradiction
  | ok there =>
    rw [hfollow] at h
    simp only [bind, Except.bind] at h
    split at h
    · contradiction
    · contradiction
    · rename_i hentry
      obtain rfl := Except.ok.inj h
      exact ⟨rfl, hentry⟩

theorem enter_of_newLocation {directory location : Location}
    (h : fs.newLocation directory name = .ok location) :
    enter directory name = location ∧ fs.entry? location = none := by
  unfold newLocation at h
  split at h
  · contradiction
  · rename_i hnew
    obtain rfl := Except.ok.inj h
    simp only [not_or, Option.not_isSome_iff_eq_none] at hnew
    obtain ⟨hdot, hdots, hnone⟩ := hnew
    rw [enter, if_neg hdot, if_neg hdots]
    exact ⟨rfl, hnone⟩

/-- Where something new can be made is where the names lead, and there is nothing yet. -/
theorem follow_of_newLocation {origin directory location : Location}
    (hdirectory : fs.directoryOf origin (names ++ [name]) = .ok directory)
    (hlocation : fs.newLocation directory name = .ok location) :
    fs.follow origin (names ++ [name]) = .ok location ∧ fs.entry? location = none := by
  obtain ⟨hfollow, hentry⟩ := follow_of_directoryOf hdirectory
  obtain ⟨henter, hnone⟩ := enter_of_newLocation hlocation
  rw [List.dropLast_concat] at hfollow
  exact ⟨follow_concat.mpr ⟨directory, hfollow, hentry, henter⟩, hnone⟩

/-! ### What is at a path -/

theorem stat_eq_ok_iff : fs.stat path = .ok entry ↔ path ≠ [] ∧ ∃ there,
    fs.follow (fs.origin path) (Path.names '/' path) = .ok there ∧ fs.entry? there = some entry ∧
      (path.getLast? = some '/' → entry = .directory) := by
  unfold stat
  by_cases hpath : path = []
  · simp [hpath, throw, throwThe, MonadExceptOf.throw, bind, Except.bind]
  · cases hfollow : fs.follow (fs.origin path) (Path.names '/' path) with
    | error error => simp [hpath, bind, Except.bind]
    | ok there =>
      simp only [hpath, if_false, bind, Except.bind, pure, Except.pure]
      cases hentry : fs.entry? there with
      | none => simp [hentry]
      | some found =>
        cases found with
        | directory => simp +contextual [hpath, hentry, eq_comm]
        | file bytes =>
          by_cases hslash : path.getLast? = some '/'
          · simp +contextual [hpath, hentry, hslash, throw, throwThe, MonadExceptOf.throw, eq_comm]
          · simp [hpath, hentry, hslash]

theorem has_iff : fs.has path = true ↔ ∃ entry, fs.stat path = .ok entry := by
  unfold has
  cases fs.stat path <;> simp [Except.isOk, Except.toBool]

theorem readText_of_stat (h : fs.stat path = .ok (.file (String.ofList t).toUTF8)) :
    fs.readText path = .ok t := by
  have hdecode : String.fromUTF8? (String.ofList t).toUTF8 = some (String.ofList t) :=
    dif_pos (String.ofList t).isValidUTF8
  have hread : fs.read path = .ok (String.ofList t).toUTF8 := by rw [read, h]; rfl
  rw [readText, hread]
  simp only [bind, Except.bind, hdecode]
  rw [String.toList_ofList]
  rfl

/-! ### Added files and directories -/

/-- Everything that was there is still there, as it was. -/
structure Keeps (fs fs' : FileSystem) : Prop where
  working : fs'.working = fs.working
  entry : ∀ there entry, fs.entry? there = some entry → fs'.entry? there = some entry

namespace Keeps

theorem refl (fs : FileSystem) : Keeps fs fs := ⟨rfl, fun _ _ h => h⟩

theorem trans (h : Keeps fs fs') (h' : Keeps fs' fs'') : Keeps fs fs'' :=
  ⟨h'.working.trans h.working, fun _ _ hentry => h'.entry _ _ (h.entry _ _ hentry)⟩

theorem put {location : Location} (h : fs.entry? location = none) (entry : Entry) :
    Keeps fs (fs.put location entry) := by
  refine ⟨rfl, fun there found hfound => ?_⟩
  rw [entry?_put (ne_nil_of_missing h), if_neg]
  · exact hfound
  · rintro rfl
    rw [h] at hfound
    contradiction

theorem origin (h : Keeps fs fs') (path : Text) : fs'.origin path = fs.origin path := by
  rw [FileSystem.origin, FileSystem.origin, h.working]

/-- A path that leads somewhere still leads there. -/
theorem follow (h : Keeps fs fs') (hfollow : fs.follow here names = .ok there) :
    fs'.follow here names = .ok there := by
  induction names generalizing here with
  | nil => exact hfollow
  | cons name names ih =>
    obtain ⟨hdirectory, hlater⟩ := follow_cons_eq_ok_iff.mp hfollow
    exact follow_cons_eq_ok_iff.mpr ⟨h.entry _ _ hdirectory, ih hlater⟩

end Keeps

/-- A file that has just been put where a path leads is the one at this path. -/
theorem stat_put {location : Location}
    (hfollow : fs.follow (fs.origin path) (Path.names '/' path) = .ok location)
    (hnone : fs.entry? location = none) (hpath : path ≠ []) (hslash : path.getLast? ≠ some '/')
    (bytes : ByteArray) :
    (fs.put location (.file bytes)).stat path = .ok (.file bytes) := by
  refine stat_eq_ok_iff.mpr ⟨hpath, location, (Keeps.put hnone _).follow hfollow, ?_,
    fun h => absurd h hslash⟩
  rw [entry?_put (ne_nil_of_missing hnone), if_pos rfl]

/-- Whatever there is stands in a directory. -/
def IsTree (fs : FileSystem) : Prop :=
  ∀ there name, fs.entry? (there ++ [name]) ≠ none → fs.entry? there = some .directory

/-- On their way some names climb, by two dots, out of a directory that was missing before. -/
def Climbs (fs fs' : FileSystem) (here : Location) (names : List Text) : Prop :=
  ∃ front there, front ++ [['.', '.']] <+: names ∧ fs'.follow here front = .ok there ∧
    fs.entry? there = none

theorem Climbs.append_right (h : Climbs fs fs' here names) :
    Climbs fs fs' here (names ++ later) := by
  obtain ⟨front, between, hstands, hfront, hnone⟩ := h
  exact ⟨front, between, hstands.trans (List.prefix_append _ _), hfront, hnone⟩

theorem Climbs.append_left (hfollow : fs'.follow here names = .ok there)
    (h : Climbs fs fs' there later) : Climbs fs fs' here (names ++ later) := by
  obtain ⟨front, between, hstands, hfront, hnone⟩ := h
  refine ⟨names ++ front, between, ?_, follow_append.mpr ⟨there, hfollow, hfront⟩, hnone⟩
  rw [List.append_assoc]
  exact (List.prefix_append_right_inj names).mpr hstands

/-- Names that lead to something that was there before led to it before, unless they climb. -/
theorem follow_of_not_climbs (hkeeps : Keeps fs fs') (htree : fs.IsTree)
    (hclimbs : ¬ Climbs fs fs' here names) (hfollow : fs'.follow here names = .ok there)
    (hentry : fs.entry? there ≠ none) : fs.follow here names = .ok there := by
  -- The last name is taken off, since it is a front of the names that climbing is said of.
  induction names using List.reverseRecOn generalizing there with
  | nil => exact hfollow
  | append_singleton names name ih =>
    obtain ⟨directory, hnames, hdirectory, rfl⟩ := follow_concat.mp hfollow
    have hsome : fs.entry? directory ≠ none := by
      -- From a missing directory only two dots lead back to something old.
      intro hnone
      unfold enter at hentry
      split at hentry
      · exact hentry hnone
      · split at hentry
        · rename_i hdots
          exact hclimbs ⟨names, directory, hdots ▸ List.prefix_rfl, hnames, hnone⟩
        · rw [htree directory name hentry] at hnone
          contradiction
    obtain ⟨entry, hbefore⟩ := Option.ne_none_iff_exists'.mp hsome
    have hsame := hkeeps.entry _ _ hbefore
    rw [hdirectory, Option.some.injEq] at hsame
    subst hsame
    exact follow_concat.mpr
      ⟨directory, ih (fun h => hclimbs h.append_right) hnames hsome, hbefore, rfl⟩

/-- Below a directory that was missing before, names that do not climb lead deeper. -/
theorem follow_of_missing (htree : fs.IsTree) (hmissing : fs.entry? here = none)
    (hclimbs : ¬ Climbs fs fs' here names) (hfollow : fs'.follow here names = .ok there) :
    there = here ++ names.filter (· ≠ ['.']) ∧ fs.entry? there = none := by
  induction names using List.reverseRecOn generalizing there with
  | nil =>
    obtain rfl : here = there := Except.ok.inj hfollow
    exact ⟨(List.append_nil here).symm, hmissing⟩
  | append_singleton names name ih =>
    obtain ⟨directory, hnames, hdirectory, rfl⟩ := follow_concat.mp hfollow
    obtain ⟨heq, hnone⟩ := ih (fun h => hclimbs h.append_right) hnames
    unfold enter
    split
    · rename_i hdot
      rw [List.filter_append, List.filter_cons_of_neg (by simp [hdot]), List.filter_nil,
        List.append_nil]
      exact ⟨heq, hnone⟩
    · rename_i hdot
      split
      · rename_i hdots
        exact absurd ⟨names, directory, hdots ▸ List.prefix_rfl, hnames, hnone⟩ hclimbs
      · rw [List.filter_append, List.filter_cons_of_pos (by simp [hdot]), List.filter_nil,
          ← List.append_assoc, ← heq]
        refine ⟨rfl, ?_⟩
        by_contra hsome
        rw [htree directory name hsome] at hnone
        contradiction

end Retint.FileSystem
