import Retint.Proofs.Files.Making
import Retint.Settings.File

/-!
# The settings file is ensured without harm

Ensuring the settings file adds the directories above its path that are missing and the file itself,
and touches nothing that is there, whether or not it ends well. A path that climbs out of a missing
directory may lead to something old once that directory has been made; then no file is written.
-/

namespace Retint

open FileAction (steps Makes run_bind run_get run_create run_makeParents_of_has makes_makeParents)

variable {α β : Type} {fs fs' : FileSystem} {path : Text}

/-! ### What making directories does not change -/

/-- Unless the path climbs out of a missing directory, making the directories above it puts nothing
at the path. -/
theorem FileSystem.has_of_not_climbs
    (hmakes : Makes (fs.origin path) (steps path).dropLast fs fs') (htree : fs.IsTree)
    (hclimbs : ¬ fs.Climbs fs' (fs.origin path) (Path.names '/' path))
    (hhas : fs'.has path = true) : fs.has path = true := by
  obtain ⟨entry, hstat⟩ := has_iff.mp hhas
  obtain ⟨hpath, there, hfollow, hentry, hslash⟩ := stat_eq_ok_iff.mp hstat
  rw [hmakes.keeps.origin] at hfollow
  have hold : fs.entry? there ≠ none := by
    intro hnone
    -- What has been made is above the path, and the rest of the path leads further down from there.
    obtain ⟨_, front, hne, hfront, hmade⟩ := hmakes.made there entry hentry hnone
    obtain ⟨rest, hrest⟩ := hfront.trans (List.dropLast_prefix _)
    have hrestne : rest ≠ [] := by
      rintro rfl
      rw [List.append_nil] at hrest
      have hle := hfront.length_le
      rw [← hrest, List.length_dropLast] at hle
      have hpos := List.length_pos_iff.mpr hne
      omega
    obtain ⟨names, later, hnames, rfl, rfl⟩ := List.filter_eq_append_iff.mp hrest.symm
    rw [hnames] at hfollow hclimbs
    obtain ⟨between, hbetween, hlater⟩ := follow_append.mp hfollow
    have hsame := follow_filter hbetween
    rw [hmade, Except.ok.injEq] at hsame
    subst hsame
    have hdeeper := (follow_of_missing htree hnone
      (fun h => hclimbs (h.append_left hbetween)) hlater).1
    exact hrestne (List.append_right_eq_self.mp hdeeper.symm)
  have hbefore := follow_of_not_climbs hmakes.keeps htree hclimbs hfollow hold
  obtain ⟨found, hfound⟩ := Option.ne_none_iff_exists'.mp hold
  have hsame := hmakes.keeps.entry there found hfound
  rw [hentry, Option.some.injEq] at hsame
  subst hsame
  exact has_iff.mpr ⟨entry, stat_eq_ok_iff.mpr ⟨hpath, there, hbefore, hfound, hslash⟩⟩

namespace Settings

/-- The bytes of a settings file that has just been made. -/
def defaultBytes : ByteArray := (String.ofList defaultText).toUTF8

theorem read?_defaultText : read? defaultText = some {} := by
  decide +kernel

theorem run_writeDefault_of_has (h : fs.has path = true) :
    (writeDefault path).run.run fs = (.ok (), fs) := by
  rw [writeDefault, run_bind, run_makeParents_of_has h]
  dsimp only
  rw [run_bind, run_get]
  dsimp only
  rw [h]
  rfl

/-- Writing the default settings fails after some directories have been made, or there is something
at the path then, or the file is created. -/
theorem run_writeDefault_cases (path : Text) (fs : FileSystem) :
    ∃ made, Makes (fs.origin path) (steps path).dropLast fs made ∧
      ((∃ error, (writeDefault path).run.run fs = (.error error, made)) ∨
        made.has path = true ∧ (writeDefault path).run.run fs = (.ok (), made) ∨
        ∃ location, made.follow (made.origin path) (Path.names '/' path) = .ok location ∧
          made.entry? location = none ∧ path ≠ [] ∧ path.getLast? ≠ some '/' ∧
          (writeDefault path).run.run fs = (.ok (), made.put location (.file defaultBytes))) := by
  have hmakes := makes_makeParents path fs
  rw [writeDefault, run_bind]
  cases hparents : (FileAction.makeParents path).run.run fs with
  | mk result made =>
    rw [hparents] at hmakes
    refine ⟨made, hmakes, ?_⟩
    cases result with
    | error error => exact .inl ⟨error, rfl⟩
    | ok _ =>
      dsimp only
      rw [run_bind, run_get]
      dsimp only
      cases hhas : made.has path with
      | true => exact .inr (.inl ⟨rfl, rfl⟩)
      | false =>
        obtain ⟨error, hrun⟩ | ⟨location, hfollow, hnone, hpath, hslash, hrun⟩ :=
          run_create path defaultBytes made
        · exact .inl ⟨error, hrun⟩
        · exact .inr (.inr ⟨location, hfollow, hnone, hpath, hslash, hrun⟩)

/-- What ensuring a settings file at a path comes to: the result and the files after it, as against
the files before. -/
structure Ensured (action : FileAction α) (path : Text) (fs : FileSystem)
    (after : Except FileError α × FileSystem) : Prop where
  /-- No file and no directory is changed or removed, whatever the result. -/
  keeps : fs.Keeps after.2
  /-- All that is new is directories above the path, to which a front of its names without the last
  one leads, and the file at the path, with the default settings in it. -/
  made : ∀ location entry, FileSystem.entry? after.2 location = some entry →
    fs.entry? location = none →
    (entry = .directory ∧ ∃ front, front ≠ [] ∧ front <+: (steps path).dropLast ∧
      after.2.follow (fs.origin path) front = .ok location) ∨
    (entry = .file defaultBytes ∧
      after.2.follow (fs.origin path) (Path.names '/' path) = .ok location)
  /-- If there is something at the path, all goes well and nothing happens. -/
  existing : fs.has path = true → ∃ a, after = (.ok a, fs)
  /-- If all goes well, there is something at the path, and once more nothing happens. -/
  again : ∀ a, after.1 = .ok a → after.2.has path = true ∧ action.run.run after.2 = after
  /-- If all goes well where nothing was, the default settings are loaded from the path, unless it
  climbs out of a directory that was missing; in that case, if they are not, no file is written. -/
  fresh : ∀ a, fs.IsTree → after.1 = .ok a → fs.has path = false →
    load after.2 path = .ok {} ∨
      fs.Climbs after.2 (fs.origin path) (Path.names '/' path) ∧
        ∀ location bytes, FileSystem.entry? after.2 location = some (.file bytes) →
          fs.entry? location = some (.file bytes)

/-- An action that runs as another one does, but for what it returns, ensures the same. -/
theorem Ensured.of_run {action : FileAction α} {action' : FileAction β} {b : β}
    (hrun : ∀ fs, action'.run.run fs =
      ((action.run.run fs).1.map fun _ => b, (action.run.run fs).2))
    (h : Ensured action path fs (action.run.run fs)) :
    Ensured action' path fs (action'.run.run fs) := by
  obtain ⟨hkeeps, hmade, hexisting, hagain, hfresh⟩ := h
  rw [hrun]
  have hok : ∀ b', (action.run.run fs).1.map (fun _ => b) = .ok b' →
      ∃ a, (action.run.run fs).1 = .ok a := by
    intro b' hb
    cases hresult : (action.run.run fs).1 with
    | error error =>
      rw [hresult] at hb
      contradiction
    | ok a => exact ⟨a, rfl⟩
  refine ⟨hkeeps, hmade, fun hhas => ?_, fun b' hb => ?_, fun b' htree hb hhas => ?_⟩
  · obtain ⟨a, ha⟩ := hexisting hhas
    exact ⟨b, by rw [ha]; rfl⟩
  · obtain ⟨a, ha⟩ := hok b' hb
    obtain ⟨hhas, hsame⟩ := hagain a ha
    exact ⟨hhas, by rw [hrun, hsame]⟩
  · obtain ⟨a, ha⟩ := hok b' hb
    exact hfresh a htree ha hhas

theorem ensured_writeDefault (path : Text) (fs : FileSystem) :
    Ensured (writeDefault path) path fs ((writeDefault path).run.run fs) := by
  obtain ⟨between, hmakes, hcases⟩ := run_writeDefault_cases path fs
  have hexisting : fs.has path = true → ∃ a, (writeDefault path).run.run fs = (.ok a, fs) :=
    fun hhas => ⟨(), run_writeDefault_of_has hhas⟩
  -- It fails, it finds something at the path once the directories are made, or the file is created.
  rcases hcases with ⟨error, hrun⟩ | ⟨hthere, hrun⟩ |
    ⟨location, hfollow, hnone, hpath, hslash, hrun⟩
  · rw [hrun] at hexisting ⊢
    exact ⟨hmakes.keeps, fun l entry hentry hl => .inl (hmakes.made l entry hentry hl), hexisting,
      nofun, nofun⟩
  · rw [hrun] at hexisting ⊢
    refine ⟨hmakes.keeps, fun l entry hentry hl => .inl (hmakes.made l entry hentry hl), hexisting,
      fun _ _ => ⟨hthere, run_writeDefault_of_has hthere⟩, fun _ htree _ hhas => .inr ⟨?_, ?_⟩⟩
    · by_contra hclimbs
      rw [FileSystem.has_of_not_climbs hmakes htree hclimbs hthere] at hhas
      contradiction
    · intro l bytes hbytes
      cases hl : fs.entry? l with
      | none => exact absurd (hmakes.made l _ hbytes hl).1 nofun
      | some found => rw [← hmakes.keeps.entry l found hl, hbytes]
  · have hput := FileSystem.Keeps.put hnone (.file defaultBytes)
    have hstat := FileSystem.stat_put hfollow hnone hpath hslash defaultBytes
    have hthere := FileSystem.has_iff.mpr ⟨_, hstat⟩
    rw [hrun] at hexisting ⊢
    refine ⟨hmakes.keeps.trans hput, fun l entry hentry hl => ?_, hexisting,
      fun _ _ => ⟨hthere, run_writeDefault_of_has hthere⟩, fun _ _ _ _ => .inl ?_⟩
    · rw [FileSystem.entry?_put (FileSystem.ne_nil_of_missing hnone)] at hentry
      split at hentry
      · rename_i heq
        subst heq
        rw [hmakes.keeps.origin] at hfollow
        exact .inr ⟨(Option.some.inj hentry).symm, hput.follow hfollow⟩
      · obtain ⟨hdirectory, front, hne, hfront, hlead⟩ := hmakes.made l entry hentry hl
        exact .inl ⟨hdirectory, front, hne, hfront, hput.follow hlead⟩
    · rw [load, FileSystem.readText_of_stat hstat]
      dsimp only
      rw [read?_defaultText]

theorem run_ensureFile {e : Environment} (h : e.settingsPath? = some path) (fs : FileSystem) :
    (ensureFile e).run.run fs = (((writeDefault path).run.run fs).1.map fun _ => path,
      ((writeDefault path).run.run fs).2) := by
  rw [ensureFile, h]
  dsimp only
  rw [run_bind]
  cases (writeDefault path).run.run fs with
  | mk result fs' => cases result <;> rfl

/-- **Ensuring the settings file harms nothing.** Writing the default settings to a path, and making
sure of the settings file of an environment, keep all that there is; they add nothing but
directories above the path and the file, which then holds the default settings; they do nothing if
there is something at the path, and nothing when they are repeated. Where nothing was, the default
settings are loaded afterwards, unless the path climbs out of a directory that was missing. An
environment that names no settings file is refused. -/
theorem ensuring_harms_nothing (fs : FileSystem) :
    (∀ path, Ensured (writeDefault path) path fs ((writeDefault path).run.run fs)) ∧
    ∀ e : Environment, match e.settingsPath? with
      | none => (ensureFile e).run.run fs = (.error .notFound, fs)
      | some path => Ensured (ensureFile e) path fs ((ensureFile e).run.run fs) ∧
          ∀ p, ((ensureFile e).run.run fs).1 = .ok p → p = path := by
  refine ⟨fun path => ensured_writeDefault path fs, fun e => ?_⟩
  split
  · rename_i hnone
    rw [ensureFile, hnone]
    rfl
  · rename_i path hpath
    refine ⟨(ensured_writeDefault path fs).of_run (run_ensureFile hpath), fun p hp => ?_⟩
    rw [run_ensureFile hpath] at hp
    cases hresult : ((writeDefault path).run.run fs).1 with
    | error error =>
      rw [hresult] at hp
      contradiction
    | ok _ =>
      rw [hresult] at hp
      exact (Except.ok.inj hp).symm

/-- The files of a user with settings that have a colour for comments. -/
def usedFiles : FileSystem :=
  ⟨[(["settings.json".toList],
    .file "\x7b\"theme\":\x7b\"comment\":\"#112233\"\x7d\x7d".toUTF8)], []⟩

theorem usedFiles_isTree : usedFiles.IsTree := by
  intro there name h
  have hlocation : there ++ [name] = ["settings.json".toList] := by
    by_contra hne
    rw [FileSystem.entry?, if_neg (by simp), usedFiles, List.lookup_cons,
      beq_eq_false_iff_ne.mpr hne] at h
    exact h rfl
  obtain rfl : there = [] := by simpa using congrArg List.length hlocation
  rfl

/-- The default settings are written beside those of the user, in a directory that was missing. -/
theorem ensuring_harms_nothing_of_new_path :
    let path := "new/settings.json".toList
    let after := (writeDefault path).run.run usedFiles
    usedFiles.IsTree ∧ usedFiles.has path = false ∧ after.1 = .ok () ∧ load after.2 path = .ok {} ∧
      usedFiles.entry? ["settings.json".toList] ≠ none ∧
      FileSystem.entry? after.2 ["settings.json".toList] =
        usedFiles.entry? ["settings.json".toList] := by
  intro path after
  have hmissing : usedFiles.has path = false := by decide +kernel
  have hok : after.1 = .ok () := by decide +kernel
  have hensured := (ensuring_harms_nothing usedFiles).1 path
  have hloads : load after.2 path = .ok {} := by
    refine (hensured.fresh () usedFiles_isTree hok hmissing).resolve_right ?_
    rintro ⟨⟨front, there, hstands, _⟩, _⟩
    exact absurd (hstands.subset (List.mem_append_right front List.mem_cons_self)) (by decide)
  have hkept := hensured.keeps.entry ["settings.json".toList] _ rfl
  exact ⟨usedFiles_isTree, hmissing, hok, hloads, nofun, hkept⟩

/-- A path that climbs out of a missing directory leads nowhere at first. Writing the default
settings to it ends well, but then it leads to the settings of the user, which are not the default
ones. -/
theorem climbing_path_leads_to_old_settings :
    usedFiles.IsTree ∧ usedFiles.has "missing/../settings.json".toList = false ∧
      ((writeDefault "missing/../settings.json".toList).run.run usedFiles).1 = .ok () ∧
      load ((writeDefault "missing/../settings.json".toList).run.run usedFiles).2
        "missing/../settings.json".toList ≠ .ok {} := by
  refine ⟨usedFiles_isTree, by decide +kernel, by decide +kernel, fun hload => ?_⟩
  have hcomment := congrArg (fun loaded => loaded.map fun s => s.theme.color .comment) hload
  revert hcomment
  decide +kernel

end Settings

end Retint
