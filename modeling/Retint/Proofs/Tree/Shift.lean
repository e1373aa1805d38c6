import Retint.Proofs.Text.Cuts
import Retint.Tree.Walk

/-!
# Highlights move with the text

When a text is put in front of another one, every offset of the latter grows by the size of the
former. The rules for the kind of a node compare ranges with each other, measure them and read the
text that they cover, and none of these depends on where the text begins. So a tree with all its
ranges moved has the highlights of the tree, moved as far.
-/

namespace Retint

/-- The range moved towards the end. -/
def Range.shift (r : Range) (offset : Nat) : Range := ⟨offset + r.start, offset + r.stop⟩

/-- Ranges that are moved equally far stay different. -/
theorem Range.shift_inj {r s : Range} {offset : Nat} : r.shift offset = s.shift offset ↔ r = s := by
  obtain ⟨start, stop⟩ := r
  obtain ⟨start', stop'⟩ := s
  simp only [shift, Range.mk.injEq]
  omega

/-- The highlight moved towards the end. -/
def Highlight.shift (h : Highlight) (offset : Nat) : Highlight :=
  { h with start := offset + h.start, stop := offset + h.stop }

namespace Node

/-- The node with its range and those of its fields moved towards the end. -/
def shift (n : Node) (offset : Nat) : Node :=
  { n with range := n.range.shift offset, fields := n.fields.map (Prod.map id (·.shift offset)) }

variable (language : Language) (front text : Text) (above : List Node) (n : Node) (offset : Nat)

@[simp] theorem shift_kind : (n.shift offset).kind = n.kind := rfl

@[simp] theorem shift_named : (n.shift offset).named = n.named := rfl

@[simp] theorem shift_range : (n.shift offset).range = n.range.shift offset := rfl

@[simp] theorem isEmpty_shift : (n.shift offset).isEmpty = n.isEmpty := by
  simp [isEmpty, Range.shift]

theorem field?_shift (f : Field) :
    (n.shift offset).field? f = (n.field? f).map (·.shift offset) := by
  unfold field? shift
  induction n.fields with
  | nil => rfl
  | cons entry fields ih =>
    obtain ⟨g, r⟩ := entry
    by_cases hfield : f = g
    · simp [hfield]
    · have hne : (f == g) = false := by simpa using hfield
      simpa [List.lookup_cons, hne] using ih

/-- A child fills a field as before: both ranges have moved. -/
@[simp] theorem isField_shift (f : Field) (child : Node) :
    (n.shift offset).isField f (child.shift offset) = n.isField f child := by
  unfold isField
  rw [field?_shift, Bool.eq_iff_iff, decide_eq_true_iff, decide_eq_true_iff]
  cases hfield : n.field? f with
  | none => simp
  | some r => simp [Range.shift_inj]

@[simp] theorem isCallee_shift :
    (n.shift offset).isCallee (above.map (·.shift offset)) = n.isCallee above := by
  cases above with
  | nil => rfl
  | cons caller outer => simp [isCallee]

/-- A node covers the same characters as before. -/
theorem isConstantName_shift :
    (n.shift front.byteSize).isConstantName (front ++ text) = n.isConstantName text := by
  have hlength : front.byteSize + n.range.stop - (front.byteSize + n.range.start) =
      n.range.stop - n.range.start := by omega
  simp only [isConstantName, shift_range, Range.shift, Text.slice?_append_right, hlength]

/-! ### The rules of the languages -/

theorem identifierKind_shift :
    (n.shift front.byteSize).identifierKind (front ++ text) (above.map (·.shift front.byteSize)) =
      n.identifierKind text above := by
  cases above with
  | nil => rfl
  | cons parent outer =>
    simp only [identifierKind, List.map_cons, shift_kind, isField_shift, isCallee_shift,
      isConstantName_shift]

theorem rustKind_shift :
    (n.shift front.byteSize).rustKind (front ++ text) (above.map (·.shift front.byteSize)) =
      n.rustKind text above := by
  have hidentifier := identifierKind_shift front text above n
  cases above with
  | nil => rfl
  | cons parent outer =>
    simp only [List.map_cons] at hidentifier
    simp only [rustKind, List.map_cons, shift_kind, isField_shift, isCallee_shift, hidentifier]

theorem cKind_shift :
    (n.shift front.byteSize).cKind (front ++ text) (above.map (·.shift front.byteSize)) =
      n.cKind text above := by
  have hidentifier := identifierKind_shift front text above n
  cases above with
  | nil => rfl
  | cons parent outer =>
    simp only [List.map_cons] at hidentifier
    simp only [cKind, List.map_cons, shift_kind, isField_shift, hidentifier]

theorem elementKind_shift :
    (n.shift offset).elementKind (above.map (·.shift offset)) = n.elementKind above := by
  cases above with
  | nil => rfl
  | cons parent outer =>
    simp only [elementKind, List.map_cons, shift_kind, isField_shift]
    rfl

theorem markupKind_shift :
    (n.shift offset).markupKind (above.map (·.shift offset)) = n.markupKind above := by
  cases above with
  | nil => rfl
  | cons parent outer => simp only [markupKind, List.map_cons, shift_kind]

theorem pairKeyKind_shift :
    (n.shift offset).pairKeyKind (above.map (·.shift offset)) = n.pairKeyKind above := by
  cases above with
  | nil => rfl
  | cons parent outer => simp only [pairKeyKind, List.map_cons, shift_kind, isField_shift]

theorem contextKind_shift :
    (n.shift front.byteSize).contextKind language (front ++ text)
      (above.map (·.shift front.byteSize)) = n.contextKind language text above := by
  cases language with
  | rust => exact rustKind_shift front text above n
  | c | cpp => exact cKind_shift front text above n
  | html | xml => exact markupKind_shift above n front.byteSize
  | json => exact pairKeyKind_shift above n front.byteSize
  | jsx | tsx => simp only [contextKind, elementKind_shift, identifierKind_shift]
  -- The rules of these look at nothing but the kind.
  | css | bash | toml => rfl
  | go | python | java | javaScript | typeScript | yaml | sql =>
    exact identifierKind_shift front text above n

/-- A moved node is what it was. -/
theorem classify_shift :
    (n.shift front.byteSize).classify language (front ++ text)
      (above.map (·.shift front.byteSize)) = n.classify language text above := by
  simp only [classify, shift_named, shift_kind, contextKind_shift]
  rfl

end Node

namespace SyntaxTree

mutual

/-- The tree with all its ranges moved towards the end. -/
def shift (offset : Nat) : SyntaxTree → SyntaxTree
  | node info children => node (info.shift offset) (shiftAll offset children)

/-- Several trees with all their ranges moved towards the end. -/
def shiftAll (offset : Nat) : List SyntaxTree → List SyntaxTree
  | [] => []
  | t :: later => shift offset t :: shiftAll offset later

end

theorem shiftAll_eq_map (offset : Nat) (ts : List SyntaxTree) :
    shiftAll offset ts = ts.map (shift offset) := by
  induction ts with
  | nil => rfl
  | cons t later ih => rw [shiftAll, ih, List.map_cons]

end SyntaxTree

namespace Placed

/-- The tree and the nodes above it with all their ranges moved towards the end. -/
def shift (offset : Nat) (p : Placed) : Placed :=
  ⟨p.above.map (·.shift offset), p.tree.shift offset⟩

@[simp] theorem info_shift (offset : Nat) (p : Placed) :
    (p.shift offset).tree.info = p.tree.info.shift offset := by
  obtain ⟨above, info, children⟩ := p
  rfl

theorem children_shift (offset : Nat) (p : Placed) :
    (p.shift offset).children = p.children.map (shift offset) := by
  obtain ⟨above, info, children⟩ := p
  simp [shift, Placed.children, SyntaxTree.shift, SyntaxTree.children, SyntaxTree.info,
    SyntaxTree.shiftAll_eq_map]

theorem classify_shift (language : Language) (front text : Text) (p : Placed) :
    (p.shift front.byteSize).tree.info.classify language (front ++ text)
      (p.shift front.byteSize).above = p.tree.info.classify language text p.above := by
  rw [info_shift]
  exact Node.classify_shift language front text p.above p.tree.info

end Placed

namespace Walk

variable {language : Language} {text : Text} {p : Placed} {later : List Placed}

theorem emit_of_isEmpty (hempty : p.tree.info.isEmpty = true) :
    emit language text (p :: later) = emit language text later := by
  rw [emit, if_pos hempty]

theorem emit_of_none (hfull : p.tree.info.isEmpty = false)
    (hkind : p.tree.info.classify language text p.above = none) :
    emit language text (p :: later) = emit language text (p.children ++ later) := by
  rw [emit]
  simp only [hfull, hkind, Bool.false_eq_true, if_false]

theorem emit_of_some {kind : Kind} (hfull : p.tree.info.isEmpty = false)
    (hkind : p.tree.info.classify language text p.above = some kind) :
    emit language text (p :: later) =
      ⟨p.tree.info.range.start, p.tree.info.range.stop, kind.toTag⟩ ::
        emit language text (if kind.isLeaf then later else p.children ++ later) := by
  rw [emit]
  simp only [hfull, hkind, Bool.false_eq_true, if_false]

/-- What the walk emits for moved trees is what it emits for the trees, moved as far. -/
theorem emit_shift (language : Language) (front text : Text) (pending : List Placed) :
    emit language (front ++ text) (pending.map (Placed.shift front.byteSize)) =
      (emit language text pending).map (·.shift front.byteSize) := by
  fun_induction emit language text pending with
  | case1 => rw [List.map_nil, emit, List.map_nil]
  | case2 p later n hempty ih =>
    have hmoved : (p.shift front.byteSize).tree.info.isEmpty = true := by simpa using hempty
    rw [List.map_cons, emit_of_isEmpty hmoved, ih]
  | case3 p later n hfull hkind ih =>
    have hmoved : (p.shift front.byteSize).tree.info.isEmpty = false := by simpa using hfull
    have hstill := (p.classify_shift language front text).trans hkind
    rw [List.map_cons, emit_of_none hmoved hstill, Placed.children_shift, ← List.map_append, ih]
  | case4 p later n hfull kind hkind ih =>
    have hmoved : (p.shift front.byteSize).tree.info.isEmpty = false := by simpa using hfull
    have hstill := (p.classify_shift language front text).trans hkind
    rw [dite_eq_ite] at ih
    rw [List.map_cons, emit_of_some hmoved hstill, List.map_cons, ← ih, Placed.info_shift,
      Placed.children_shift, ← List.map_append, apply_ite (List.map (Placed.shift front.byteSize))]
    rfl

end Walk

/-- **Highlights move with the text.** If a text is put in front of another one and all ranges of a
tree over the latter are moved by its size, then the highlights are those of the tree, moved as
far: as many, in the same order and of the same kinds. -/
theorem highlights_move_with_text (language : Language) (front text : Text) (tree : SyntaxTree) :
    (tree.shift front.byteSize).highlights language (front ++ text) =
      (tree.highlights language text).map (·.shift front.byteSize) := by
  have hemit := Walk.emit_shift language front text [⟨[], tree⟩]
  unfold SyntaxTree.highlights
  rw [List.map_mergeSort (s := fun a b => a.start ≤ b.start), ← hemit]
  · rfl
  · intro a _ b _
    simp [Highlight.shift]

end Retint
