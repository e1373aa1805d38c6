import Retint.Proofs.Edit.Script
import Retint.Tree.Session

/-!
# Edits that a session accepts

A session checks an edit by its offsets. What the checks come to is that the edit has its parts:
the retained text is a front, a removed region and a back, the edit's offsets are where these meet,
and its lengths are those of the removed and of the inserted text. So an edit that passes always
splices, and the edit between two texts passes against the first of them.
-/

namespace Retint

namespace Edit

/-- An edit whose region is one of a text and whose inserted length is that of another text. -/
structure Fits (e : Edit) (text changed : Text) : Prop where
  /-- The region lies in the text. -/
  range : e.start ≤ e.oldEnd ∧ e.oldEnd ≤ text.byteSize
  /-- The inserted text is as long as the edit says. -/
  length : e.start ≤ e.newEnd ∧ changed.byteSize = e.newEnd - e.start
  /-- The region splits no character. -/
  boundaries : text.isBoundary e.start = true ∧ text.isBoundary e.oldEnd = true

variable {old new front removed inserted back text changed : Text} {e : Edit}

/-- An edit that comes with its parts fits. -/
theorem Parts.fits (h : Parts old new e front removed inserted back) : e.Fits old inserted where
  range := h.range
  length := ⟨h.inverse.range.1, h.byteSize_inserted⟩
  boundaries := h.boundaries

/-- An edit that fits comes with its parts. -/
theorem Fits.exists_parts (h : e.Fits text changed) :
    ∃ front removed back, Parts text (front ++ changed ++ back) e front removed changed back := by
  obtain ⟨front, removed, back, htext, hstart, hstop⟩ :=
    Text.exists_middle_of_isBoundary h.boundaries.1 h.boundaries.2 h.range.1
  have hlength := h.length
  exact ⟨front, removed, back, htext, rfl, hstart.symm, hstop.symm, by omega⟩

end Edit

namespace Session

variable {text changed new front removed back : Text} {e : Edit} {language : Language}

/-- The checks of an edit pass exactly if the edit fits. -/
theorem refusal?_eq_none_iff : refusal? text changed e = none ↔ e.Fits text changed := by
  unfold refusal? Edit.insertedLength
  dsimp only
  constructor
  · intro h
    split at h
    · contradiction
    · rename_i hrange
      split at h
      · contradiction
      · rename_i hlength
        simp only [Bool.or_eq_true, decide_eq_true_eq, bne_iff_ne, ne_eq, not_or,
          Nat.not_lt, Decidable.not_not] at hrange hlength
        simp only [Option.map_eq_none_iff, List.find?_eq_none, List.mem_cons, List.not_mem_nil,
          or_false, forall_eq_or_imp, forall_eq, Bool.not_eq_true, Bool.not_eq_false'] at h
        exact ⟨hrange, hlength, h⟩
  · rintro ⟨hrange, hlength, hstart, hstop⟩
    rw [if_neg, if_neg]
    · simp [hstart, hstop]
    · simp [hlength]
    · simp [hrange]

/-- The edit that a grammar is told of when it grows the tree of an edited text. -/
def treeEdit (s : Session) (e : Edit) (new : Text) : TreeEdit where
  edit := e
  start := s.text.position e.start
  oldEnd := s.text.position e.oldEnd
  newEnd := new.position e.newEnd

variable {grow : Grow Id} {s : Session} {tree oldTree : SyntaxTree}

/-- A whole text for which a tree is grown: the session keeps the tree and the text. -/
theorem parseFull_of_grow (hlanguage : s.language = some language)
    (hgrow : grow language text none = some tree) :
    s.parseFull grow text =
      (.ok (tree.highlights language text), ⟨some language, some tree, text⟩) := by
  simp [parseFull, hlanguage, hgrow, bind, pure]

/-- An edit that is accepted and for which a tree is grown: the session keeps the tree and the text
with the edited region replaced. -/
theorem parseIncremental_of_grow (hlanguage : s.language = some language)
    (htree : s.tree = some oldTree)
    (hparts : Edit.Parts s.text new e front removed changed back)
    (hgrow : grow language new (some (oldTree, s.treeEdit e new)) = some tree) :
    s.parseIncremental grow changed e =
      (.ok (tree.highlights language new), ⟨some language, some tree, new⟩) := by
  have haccepted := refusal?_eq_none_iff.mpr hparts.fits
  simp only [treeEdit] at hgrow
  simp [parseIncremental, hlanguage, htree, haccepted, hparts.splice?_eq, hgrow, bind, pure]

end Session

end Retint
