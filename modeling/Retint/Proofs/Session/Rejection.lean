import Retint.Proofs.Session.Acceptance
import Retint.Proofs.Tree.Places

/-!
# What a session does with an edit that does not fit

The checks of an edit come before everything else that is done with it. An edit that passes them can
be made without looking further: its region lies in the retained text, and its end in the edited
one. An edit that does not is answered at once, and neither is the grammar asked for a tree nor does
the session change.
-/

namespace Retint.Session

/-- Why a session rejects an edit, if it does: the first check that does not pass. -/
def rejection? (s : Session) (changed : Text) (e : Edit) : Option ParserError :=
  if s.language.isNone then some .noLanguage
  else if s.tree.isNone then some (.misfit "no previous tree to edit".toList)
  else refusal? s.text changed e

/-- The text in which an edit was made: the front and the back of the old text with the inserted
text in between, cut by bytes or by characters. The edit ends inside it, between two characters. -/
structure IsEdited (old changed : Text) (e : Edit) (new : Text) : Prop where
  /-- What stands before and after the region is kept. -/
  slices : ∃ front back, old.slice? 0 e.start = some front ∧
    old.slice? e.oldEnd old.byteSize = some back ∧ new = front ++ changed ++ back
  /-- The characters of the region, which all exist, are taken out, and the others are put where the
  first of them was. -/
  characters : ∃ first last, old.charIndex? e.start = some first ∧
    old.charIndex? e.oldEnd = some last ∧ first ≤ last ∧ last ≤ old.length ∧
    new = old.take first ++ changed ++ old.drop last
  /-- The end of the inserted text is a boundary. -/
  boundary : new.isBoundary e.newEnd = true ∧ e.newEnd ≤ new.byteSize

/-- The answer to an accepted edit and the session afterwards, by what the grammar makes of the
edited text. -/
def grown (language : Language) (text : Text) :
    Option SyntaxTree → Except ParserError (List Highlight) × Session
  | none => (.error .noTree, ⟨some language, none, text⟩)
  | some tree => (.ok (tree.highlights language text), ⟨some language, some tree, text⟩)

variable {m : Type → Type} [Monad m] {grow : Grow m} {s : Session} {old changed new : Text}
  {front removed back : Text} {e : Edit} {language : Language} {oldTree : SyntaxTree}
  {error : ParserError}

/-- A language that is refused leaves the session as it was. -/
theorem choose_of_error {refused? : Language → Option Text}
    (h : (s.choose refused? language).1 = .error error) :
    (s.choose refused? language).2 = s ∧ error.isGrammar = true := by
  unfold choose at h ⊢
  split at h
  · contradiction
  · cases h
    exact ⟨rfl, rfl⟩

/-- An edit passes the checks exactly if there are a language and a tree and the edit fits the
text. -/
theorem rejection?_eq_none_iff : s.rejection? changed e = none ↔
    s.language.isSome = true ∧ s.tree.isSome = true ∧ e.Fits s.text changed := by
  unfold rejection?
  rw [← refusal?_eq_none_iff]
  cases s.language <;> cases s.tree <;> simp

/-- An edit does not fit a text for reasons of the edit and not of the session. -/
theorem exists_misfit_of_refusal? (h : refusal? old changed e = some error) :
    ∃ reason, error = .misfit reason := by
  unfold refusal? at h
  dsimp only at h
  split at h
  · exact ⟨_, (Option.some.inj h).symm⟩
  · split at h
    · exact ⟨_, (Option.some.inj h).symm⟩
    · obtain ⟨offset, _, hoffset⟩ := Option.map_eq_some_iff.mp h
      exact ⟨_, hoffset.symm⟩

/-- A session without a language says so, and any other one says that the edit does not fit. -/
theorem error_of_rejection? (h : s.rejection? changed e = some error) :
    (s.language = none ∧ error = .noLanguage) ∨
      (s.language.isSome = true ∧ ∃ reason, error = .misfit reason) := by
  unfold rejection? at h
  split at h
  · rename_i hlanguage
    exact .inl ⟨Option.isNone_iff_eq_none.mp hlanguage, (Option.some.inj h).symm⟩
  · rename_i hlanguage
    refine .inr ⟨by simpa [Option.isSome_iff_ne_none] using hlanguage, ?_⟩
    split at h
    · exact ⟨_, (Option.some.inj h).symm⟩
    · exact exists_misfit_of_refusal? h

/-- A rejected edit is answered with the reason, and that is all. -/
theorem parseIncremental_of_rejection? (h : s.rejection? changed e = some error) :
    s.parseIncremental grow changed e = pure (.error error, s) := by
  unfold rejection? at h
  unfold parseIncremental
  cases hlanguage : s.language with
  | none =>
    simp only [hlanguage, Option.isNone_none, if_true, Option.some.injEq] at h
    rw [← h]
  | some language =>
    cases htree : s.tree with
    | none =>
      simp only [hlanguage, htree, Option.isNone_some, Option.isNone_none, if_true,
        Bool.false_eq_true, if_false, Option.some.injEq] at h
      simp only [← h]
    | some oldTree =>
      simp only [hlanguage, htree, Option.isNone_some, Bool.false_eq_true, if_false] at h
      simp only [h]

/-- For an accepted edit the grammar is asked for the tree of the edited text. -/
theorem parseIncremental_of_parts (hlanguage : s.language = some language)
    (htree : s.tree = some oldTree) (hparts : Edit.Parts s.text new e front removed changed back) :
    s.parseIncremental grow changed e =
      grow language new (some (oldTree, s.treeEdit e new)) >>= fun tree? =>
        pure (grown language new tree?) := by
  have haccepted := refusal?_eq_none_iff.mpr hparts.fits
  simp only [parseIncremental, hlanguage, htree, haccepted, hparts.splice?_eq]
  congr 1
  funext tree?
  cases tree? with
  | none => rfl
  | some tree => rfl

/-- The parts of an edit show where it ends up. -/
theorem isEdited_of_parts (hparts : Edit.Parts old new e front removed changed back) :
    IsEdited old changed e new where
  slices := ⟨front, back, hparts.slice?_front, hparts.slice?_back, hparts.new_eq⟩
  characters := by
    refine ⟨front.length, front.length + removed.length, hparts.charIndex?_start,
      hparts.charIndex?_oldEnd, Nat.le_add_right _ _, ?_, ?_⟩
    · rw [hparts.old_eq]
      simp
    · rw [hparts.old_eq, hparts.new_eq]
      simp [List.drop_append]
  boundary := ⟨hparts.inverse.boundaries.2, hparts.inverse.range.2⟩

/-- **A session accepts exactly the edits that fit, and a rejected one changes nothing.** Whatever
the session and the edit are: the checks pass if and only if a language is chosen, a tree is there,
the region lies in the retained text and splits no character of it, and the inserted text is as long
as the edit says. Then the grammar is asked for the tree of the edited text, which the session
retains from then on, whether it gets a tree or not. Otherwise the grammar is asked for nothing, the
session stays as it is, and the answer is that there is no language, or else that the edit does not
fit. -/
theorem incremental_accepted_iff_fits (grow : Grow m) (s : Session) (changed : Text) (e : Edit) :
    (s.rejection? changed e = none ↔
      s.language.isSome = true ∧ s.tree.isSome = true ∧ e.Fits s.text changed) ∧
    (s.rejection? changed e = none →
      ∃ language oldTree new, s.language = some language ∧ s.tree = some oldTree ∧
        IsEdited s.text changed e new ∧
        s.parseIncremental grow changed e =
          grow language new (some (oldTree, s.treeEdit e new)) >>= fun tree? =>
            pure (grown language new tree?)) ∧
    ∀ error, s.rejection? changed e = some error →
      s.parseIncremental grow changed e = pure (.error error, s) ∧
        ((s.language = none ∧ error = .noLanguage) ∨
          (s.language.isSome = true ∧ ∃ reason, error = .misfit reason)) := by
  refine ⟨rejection?_eq_none_iff, fun hpasses => ?_, fun error herror => ?_⟩
  · obtain ⟨hlanguage, htree, hfits⟩ := rejection?_eq_none_iff.mp hpasses
    obtain ⟨language, hlanguage⟩ := Option.isSome_iff_exists.mp hlanguage
    obtain ⟨oldTree, htree⟩ := Option.isSome_iff_exists.mp htree
    obtain ⟨front, removed, back, hparts⟩ := hfits.exists_parts
    exact ⟨language, oldTree, front ++ changed ++ back, hlanguage, htree, isEdited_of_parts hparts,
      parseIncremental_of_parts hlanguage htree hparts⟩
  · exact ⟨parseIncremental_of_rejection? herror, error_of_rejection? herror⟩

/-- In the name of a statement one edit replaces a letter of two bytes by one of three. Another one
is as long as it says and lies in the text, but it starts inside that letter. -/
theorem incremental_accepted_iff_fits_of_wide_character :
    let grow : Grow Id := fun _ text _ => some (.ofStatement text)
    let s : Session :=
      ⟨some .rust, some (.ofStatement ['a', 'é', 'b', ';']), ['a', 'é', 'b', ';']⟩
    s.rejection? ['ẞ'] ⟨1, 3, 4⟩ = none ∧
      (∃ new, IsEdited s.text ['ẞ'] ⟨1, 3, 4⟩ new ∧ new = ['a', 'ẞ', 'b', ';'] ∧
        s.parseIncremental grow ['ẞ'] ⟨1, 3, 4⟩ = grown .rust new (some (.ofStatement new))) ∧
      ∃ error, s.rejection? ['x'] ⟨2, 3, 3⟩ = some error ∧
        s.parseIncremental grow ['x'] ⟨2, 3, 3⟩ = (.error error, s) := by
  intro grow s
  have hpasses : s.rejection? ['ẞ'] ⟨1, 3, 4⟩ = none := by decide
  have hfails : (s.rejection? ['x'] ⟨2, 3, 3⟩).isSome = true := by decide
  obtain ⟨error, herror⟩ := Option.isSome_iff_exists.mp hfails
  obtain ⟨_, haccepts, _⟩ := incremental_accepted_iff_fits grow s ['ẞ'] ⟨1, 3, 4⟩
  obtain ⟨_, _, hrejects⟩ := incremental_accepted_iff_fits grow s ['x'] ⟨2, 3, 3⟩
  obtain ⟨language, oldTree, new, hlanguage, _, hedited, hanswer⟩ := haccepts hpasses
  obtain rfl : Language.rust = language := Option.some.inj hlanguage
  have hnew : new = ['a', 'ẞ', 'b', ';'] := by
    obtain ⟨front, back, hfront, hback, hnew⟩ := hedited.slices
    obtain rfl : ['a'] = front := Option.some.inj hfront
    obtain rfl : ['b', ';'] = back := Option.some.inj hback
    exact hnew
  exact ⟨hpasses, ⟨new, hedited, hnew, hanswer⟩, error, herror, (hrejects error herror).1⟩

end Retint.Session
