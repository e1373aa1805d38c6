import Mathlib.Data.List.Basic
import Retint.Proofs.Files.Following

/-!
# What making directories does

An action on files may fail midway, so what it did is said of its run whatever the result: the
directories that it made are ones to which a part of the names leads, and everything else is as it
was.
-/

namespace Retint.FileAction

open FileSystem (Keeps)

variable {α β : Type} {fs fs' fs'' : FileSystem} {origin location : Location}
  {names later : List Text} {path : Text}

/-! ### Runs -/

theorem run_get (fs : FileSystem) :
    (get : FileAction FileSystem).run.run fs = (.ok fs, fs) := rfl

theorem run_bind (a : FileAction α) (f : α → FileAction β) (fs : FileSystem) :
    (a >>= f).run.run fs = match a.run.run fs with
      | (.ok x, fs') => (f x).run.run fs'
      | (.error error, fs') => (.error error, fs') := by
  cases h : a.run.run fs with
  | mk result fs' =>
    simp only [StateT.run, ExceptT.run] at h ⊢
    simp only [bind, ExceptT.bind, ExceptT.mk, StateT.bind, h]
    cases result <;> rfl

theorem run_tryCatch (a : FileAction α) (f : FileError → FileAction α) (fs : FileSystem) :
    (tryCatch a f).run.run fs = match a.run.run fs with
      | (.ok x, fs') => (.ok x, fs')
      | (.error error, fs') => (f error).run.run fs' := by
  cases h : a.run.run fs with
  | mk result fs' =>
    simp only [StateT.run, ExceptT.run] at h ⊢
    simp only [tryCatch, tryCatchThe, MonadExceptOf.tryCatch, ExceptT.tryCatch, ExceptT.mk, bind,
      StateT.bind, h]
    cases result <;> rfl

theorem run_look (f : FileSystem → Except FileError α) (fs : FileSystem) :
    (look f).run.run fs = (f fs, fs) := by
  rw [look, run_bind, run_get]
  dsimp only
  cases f fs <;> rfl

/-! ### Single directories and files -/

/-- Making a directory fails and changes nothing, or it adds one to which the names lead. -/
theorem run_makeDirectory (origin : Location) (names : List Text) (fs : FileSystem) :
    (∃ error, (makeDirectory origin names).run.run fs = (.error error, fs)) ∨
    ∃ location, names ≠ [] ∧ fs.follow origin names = .ok location ∧ fs.entry? location = none ∧
      (makeDirectory origin names).run.run fs = (.ok (), fs.put location .directory) := by
  rcases List.eq_nil_or_concat' names with rfl | ⟨front, name, rfl⟩
  · exact .inl ⟨.alreadyExists, rfl⟩
  · unfold makeDirectory
    simp only [List.getLast?_concat, run_bind, run_look]
    cases hdirectory : fs.directoryOf origin (front ++ [name]) with
    | error error => exact .inl ⟨error, rfl⟩
    | ok directory =>
      dsimp only
      cases hlocation : fs.newLocation directory name with
      | error error => exact .inl ⟨error, rfl⟩
      | ok location =>
        obtain ⟨hfollow, hnone⟩ := FileSystem.follow_of_newLocation hdirectory hlocation
        exact .inr ⟨location, by simp, hfollow, hnone, rfl⟩

/-- Creating a file fails and changes nothing, or it adds the file to which the path leads. -/
theorem run_create (path : Text) (bytes : ByteArray) (fs : FileSystem) :
    (∃ error, (create path bytes).run.run fs = (.error error, fs)) ∨
    ∃ location, fs.follow (fs.origin path) (Path.names '/' path) = .ok location ∧
      fs.entry? location = none ∧ path ≠ [] ∧ path.getLast? ≠ some '/' ∧
      (create path bytes).run.run fs = (.ok (), fs.put location (.file bytes)) := by
  unfold create
  rcases List.eq_nil_or_concat' (Path.names '/' path) with hnil | ⟨front, name, hnames⟩
  · rw [hnil]
    exact .inl ⟨.notFound, rfl⟩
  · have hpath : path ≠ [] := by
      rintro rfl
      exact List.append_ne_nil_of_right_ne_nil front (List.cons_ne_nil name []) hnames.symm
    simp only [hnames, List.getLast?_concat, run_bind, run_look]
    cases hdirectory : fs.directoryOf (fs.origin path) (front ++ [name]) with
    | error error => exact .inl ⟨error, rfl⟩
    | ok directory =>
      dsimp only
      by_cases hslash : path.getLast? = some '/'
      · rw [if_pos hslash]
        exact .inl ⟨.isADirectory, rfl⟩
      · rw [if_neg hslash]
        simp only [run_bind, run_look]
        cases hlocation : fs.newLocation directory name with
        | error error => exact .inl ⟨error, rfl⟩
        | ok location =>
          obtain ⟨hfollow, hnone⟩ := FileSystem.follow_of_newLocation hdirectory hlocation
          exact .inr ⟨location, hfollow, hnone, hpath, hslash, rfl⟩

/-! ### Directories above a path -/

/-- Nothing is added but directories to which a front of some names leads. -/
structure Makes (origin : Location) (names : List Text) (fs fs' : FileSystem) : Prop where
  keeps : Keeps fs fs'
  made : ∀ location entry, fs'.entry? location = some entry → fs.entry? location = none →
    entry = .directory ∧ ∃ front, front ≠ [] ∧ front <+: names ∧
      fs'.follow origin front = .ok location

namespace Makes

theorem refl (origin : Location) (names : List Text) (fs : FileSystem) :
    Makes origin names fs fs := by
  refine ⟨.refl fs, fun location entry hentry hnone => ?_⟩
  rw [hnone] at hentry
  contradiction

theorem trans (h : Makes origin names fs fs') (h' : Makes origin names fs' fs'') :
    Makes origin names fs fs'' := by
  refine ⟨h.keeps.trans h'.keeps, fun location entry hentry hnone => ?_⟩
  cases hbetween : fs'.entry? location with
  | none => exact h'.made location entry hentry hbetween
  | some found =>
    obtain ⟨rfl, front, hne, hfront, hfollow⟩ := h.made location found hbetween hnone
    have hkept := h'.keeps.entry location _ hbetween
    rw [hentry, Option.some.injEq] at hkept
    exact ⟨hkept, front, hne, hfront, h'.keeps.follow hfollow⟩

theorem append_right (h : Makes origin names fs fs') : Makes origin (names ++ later) fs fs' := by
  refine ⟨h.keeps, fun location entry hentry hnone => ?_⟩
  obtain ⟨hdirectory, front, hne, hfront, hfollow⟩ := h.made location entry hentry hnone
  exact ⟨hdirectory, front, hne, hfront.trans (List.prefix_append _ _), hfollow⟩

theorem of_makeDirectory (origin : Location) (names : List Text) (fs : FileSystem) :
    Makes origin names fs ((makeDirectory origin names).run.run fs).2 := by
  obtain ⟨error, hrun⟩ | ⟨location, hne, hfollow, hnone, hrun⟩ := run_makeDirectory origin names fs
  · rw [hrun]
    exact .refl origin names fs
  · rw [hrun]
    have hkeeps := Keeps.put hnone .directory
    refine ⟨hkeeps, fun there entry hentry habsent => ?_⟩
    rw [FileSystem.entry?_put (FileSystem.ne_nil_of_missing hnone)] at hentry
    split at hentry
    · rename_i hthere
      subst hthere
      exact ⟨(Option.some.inj hentry).symm, names, hne, List.prefix_rfl, hkeeps.follow hfollow⟩
    · rw [habsent] at hentry
      contradiction

end Makes

theorem run_unlessDirectory (origin : Location) (names : List Text) (error : FileError)
    (fs : FileSystem) : ((unlessDirectory origin names error).run.run fs).2 = fs := by
  rw [unlessDirectory, run_bind, run_get]
  dsimp only
  split <;> rfl

/-- Making directories from the top down makes those to which the names lead, whether or not it
ends well. -/
theorem makes_makeDirectoriesUp (origin : Location) (above : List Text) (fs : FileSystem) :
    Makes origin above.reverse fs ((makeDirectoriesUp origin above).run.run fs).2 := by
  induction above generalizing fs with
  | nil => exact .refl origin [] fs
  | cons name above ih =>
    have hmakes := Makes.of_makeDirectory origin (name :: above).reverse
    have habove : Makes origin (name :: above).reverse fs
        ((makeDirectoriesUp origin above).run.run fs).2 := by
      rw [List.reverse_cons]
      exact (ih fs).append_right
    rw [makeDirectoriesUp, run_tryCatch]
    obtain ⟨error, hrun⟩ | ⟨location, _, _, _, hrun⟩ :=
      run_makeDirectory origin (name :: above).reverse fs
    · rw [hrun]
      dsimp only
      split
      · -- Something above is missing: it is made first, and then the directory is tried again.
        rw [run_bind]
        cases hup : (makeDirectoriesUp origin above).run.run fs with
        | mk result between =>
          rw [hup] at habove
          cases result with
          | error error => exact habove
          | ok _ =>
            dsimp only
            rw [run_tryCatch]
            refine habove.trans ?_
            obtain ⟨error, hagain⟩ | ⟨location, _, _, _, hagain⟩ :=
              run_makeDirectory origin (name :: above).reverse between
            · rw [hagain]
              dsimp only
              rw [run_unlessDirectory]
              exact .refl _ _ _
            · have hbetween := hmakes between
              rw [hagain] at hbetween ⊢
              exact hbetween
      · rw [run_unlessDirectory]
        exact .refl _ _ _
    · have hfirst := hmakes fs
      rw [hrun] at hfirst ⊢
      exact hfirst

/-- The names of a path that are no single dots. -/
def steps (path : Text) : List Text := (Path.names '/' path).filter (· ≠ ['.'])

/-- Making the directories above a path makes those to which the names in front of the last one
lead. -/
theorem makes_makeParents (path : Text) (fs : FileSystem) :
    Makes (fs.origin path) (steps path).dropLast fs ((makeParents path).run.run fs).2 := by
  rw [makeParents, run_bind, run_get]
  dsimp only
  split
  · exact .refl _ _ _
  · have hmakes := makes_makeDirectoriesUp (fs.origin path) (steps path).dropLast.reverse fs
    rw [List.reverse_reverse] at hmakes
    exact hmakes

/-- Nothing is made above a path at which there is something. -/
theorem run_makeParents_of_has (h : fs.has path = true) :
    (makeParents path).run.run fs = (.ok (), fs) := by
  obtain ⟨entry, hstat⟩ := FileSystem.has_iff.mp h
  obtain ⟨_, there, hfollow, hentry, _⟩ := FileSystem.stat_eq_ok_iff.mp hstat
  have habove : ∃ directory, fs.follow (fs.origin path) (steps path).dropLast = .ok directory ∧
      fs.entry? directory ≠ none := by
    have hsteps := FileSystem.follow_filter hfollow
    change fs.follow (fs.origin path) (steps path) = .ok there at hsteps
    rcases List.eq_nil_or_concat' (steps path) with hnil | ⟨front, name, hconcat⟩
    · rw [hnil] at hsteps ⊢
      exact ⟨there, hsteps, by simp [hentry]⟩
    · rw [hconcat] at hsteps ⊢
      obtain ⟨directory, hfront, hdirectory, _⟩ := FileSystem.follow_concat.mp hsteps
      rw [List.dropLast_concat]
      exact ⟨directory, hfront, by simp [hdirectory]⟩
  obtain ⟨directory, hdirectory, hsome⟩ := habove
  have hlook : (fs.follow (fs.origin path) (steps path).dropLast).toOption.bind fs.entry? ≠
      none := by
    rw [hdirectory]
    exact hsome
  rw [makeParents, run_bind, run_get]
  dsimp only
  split
  · rfl
  · exact absurd ‹_› hlook

end Retint.FileAction
