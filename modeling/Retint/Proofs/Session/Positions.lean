import Retint.Proofs.Session.Rejection
import Retint.Proofs.Text.Rows

/-!
# The positions of an edit

A grammar is told of an edit by offsets and by positions. Grammars count the rows of a position by
line feeds. A session counts lines, which other characters end as well, so the positions that it
tells are those of the grammar only where line feeds end all lines before them.
-/

namespace Retint.Session

open Text (feedPosition OnlyFeedsEnd position_eq_feedPosition_iff position_append_eq_iff)

variable {m : Type → Type} [Monad m] {s : Session} {changed new front removed back : Text}
  {e : Edit} {language : Language} {oldTree : SyntaxTree}

/-- The positions that a grammar is told are those behind the front, behind the removed text and
behind the inserted text. -/
theorem treeEdit_of_parts (h : Edit.Parts s.text new e front removed changed back) :
    s.treeEdit e new =
      ⟨e, (front ++ (removed ++ back)).position front.byteSize,
        (front ++ removed ++ back).position (front ++ removed).byteSize,
        (front ++ changed ++ back).position (front ++ changed).byteSize⟩ := by
  rw [treeEdit, h.start_eq, h.oldEnd_eq, h.newEnd_eq, h.old_eq, h.new_eq, Text.byteSize_append,
    Text.byteSize_append, List.append_assoc front removed back]

/-- **When a grammar is told of an edit in its own positions.** For an edit that a session accepts
the grammar is asked once, for the tree of the edited text. The start of the edit, its end in the
old text and its end in the new one are told by the rows and columns that line feeds make exactly if
line feeds end all lines before them. The start is the same in the old and in the new text exactly
if the edit neither puts a line feed behind a carriage return in front of it nor takes one away from
there. -/
theorem edit_is_told_by_feeds_iff (grow : Grow m) (hlanguage : s.language = some language)
    (htree : s.tree = some oldTree) (haccepted : refusal? s.text changed e = none) :
    ∃ front removed back,
      Edit.Parts s.text (front ++ changed ++ back) e front removed changed back ∧
      let new := front ++ changed ++ back
      let told := s.treeEdit e new
      s.parseIncremental grow changed e =
        (grow language new (some (oldTree, told)) >>= fun tree? =>
          pure (grown language new tree?)) ∧
      told.edit = e ∧
      (told.start = feedPosition front ↔ OnlyFeedsEnd front (removed ++ back)) ∧
      (told.oldEnd = feedPosition (front ++ removed) ↔ OnlyFeedsEnd (front ++ removed) back) ∧
      (told.newEnd = feedPosition (front ++ changed) ↔ OnlyFeedsEnd (front ++ changed) back) ∧
      (told.start = new.position e.start ↔
        (front.getLast? = some '\r' →
          ((removed ++ back).head? = some '\n' ↔ (changed ++ back).head? = some '\n'))) := by
  obtain ⟨front, removed, back, hparts⟩ := (refusal?_eq_none_iff.mp haccepted).exists_parts
  refine ⟨front, removed, back, hparts, parseIncremental_of_parts hlanguage htree hparts, rfl, ?_⟩
  rw [treeEdit_of_parts hparts]
  refine ⟨position_eq_feedPosition_iff _ _, position_eq_feedPosition_iff _ _,
    position_eq_feedPosition_iff _ _, ?_⟩
  rw [hparts.start_eq, List.append_assoc front changed back]
  exact position_append_eq_iff _ _ _

/-- A letter is put between the halves of a line break. The start is told as the grammar counts it,
the end in the new text is not, and in the new text the start would be told otherwise. -/
theorem edit_is_told_by_feeds_iff_of_parted_break :
    let old : Text := ['a', '\r', '\n', 'b']
    let new : Text := ['a', '\r', 'x', '\n', 'b']
    let tree : SyntaxTree := .node ⟨"ERROR", true, ⟨0, 4⟩, []⟩ []
    let s : Session := ⟨some .rust, some tree, old⟩
    let told := s.treeEdit ⟨2, 2, 3⟩ new
    s.language = some .rust ∧ s.tree = some tree ∧ refusal? s.text ['x'] ⟨2, 2, 3⟩ = none ∧
      told.start = feedPosition ['a', '\r'] ∧ told.newEnd ≠ feedPosition ['a', '\r', 'x'] ∧
      told.start ≠ new.position 2 := by
  intro old new tree s told
  have haccepted : refusal? s.text ['x'] ⟨2, 2, 3⟩ = none := by decide
  obtain ⟨front, removed, back, hparts, _, _, hstart, _, hnewEnd, hsame⟩ :=
    edit_is_told_by_feeds_iff (fun _ _ _ => (some tree : Id _)) (s := s) rfl rfl haccepted
  obtain rfl : ['a', '\r'] = front := Option.some.inj hparts.slice?_front
  obtain rfl : ['\n', 'b'] = back := Option.some.inj hparts.slice?_back
  obtain rfl : [] = removed := Option.some.inj hparts.inverse.slice?_eq
  refine ⟨rfl, rfl, haccepted, hstart.mpr ?_, fun hfeeds => ?_, fun hboth => ?_⟩
  · simp [Text.onlyFeedsEnd_cons, Text.onlyFeedsEnd_nil, Text.endsLine, Text.isLineBreak]
  · have honly := hnewEnd.mp hfeeds
    simp [Text.onlyFeedsEnd_cons, Text.endsLine, Text.isLineBreak] at honly
  · have hjoined := hsame.mp hboth rfl
    simp at hjoined

/-- The positions of an accepted edit are not always counted by line feeds: a letter that is put
between the halves of a line break ends up in another line, not in another row. -/
theorem edit_is_not_told_by_feeds :
    ¬ ∀ (s : Session) (changed front removed back : Text) (e : Edit),
      s.language.isSome = true → s.tree.isSome = true → refusal? s.text changed e = none →
      Edit.Parts s.text (front ++ changed ++ back) e front removed changed back →
      let told := s.treeEdit e (front ++ changed ++ back)
      told.start = feedPosition front ∧ told.oldEnd = feedPosition (front ++ removed) ∧
        told.newEnd = feedPosition (front ++ changed) ∧
        told.start = (front ++ changed ++ back).position e.start := by
  intro h
  obtain ⟨_, _, hnewEnd, _⟩ :=
    h ⟨some .rust, some (.node ⟨"ERROR", true, ⟨0, 4⟩, []⟩ []), ['a', '\r', '\n', 'b']⟩ ['x']
      ['a', '\r'] [] ['\n', 'b'] ⟨2, 2, 3⟩ rfl rfl (by decide) ⟨rfl, rfl, rfl, rfl, rfl⟩
  revert hnewEnd
  decide

end Retint.Session
