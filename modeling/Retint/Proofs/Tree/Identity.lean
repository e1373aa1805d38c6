import Retint.Proofs.Tree.Nesting
import Retint.Tree.Listing

/-!
# Nodes are told apart by their ranges

A rule finds out whether a node occupies a field of its parent by comparing the node's range with
the one that the parent records for the field. Two nodes can have one range: a node with a single
child may cover the same bytes as that child, and any number of empty nodes may stand at one offset.
The identity of a node is its position. If no byte is covered by two children of a node, then a
child that covers something is the only one of its range, and the walk asks about no other: it
classifies no empty node, the rules compare a node with children of its parent and the parent with
children of the node above, and a parent covers something if a child within it does. So the kind of
a node is the one that it would get if the rules compared nodes.
-/

namespace Retint

/-- Whether a byte is in a range. -/
def Range.Covers (r : Range) (byte : Nat) : Prop := r.start ≤ byte ∧ byte < r.stop

theorem Node.covers_start {n : Node} (hfull : n.isEmpty = false) :
    n.range.Covers n.range.start :=
  ⟨Nat.le_refl _, isEmpty_eq_false_iff.mp hfull⟩

/-- Of what stands above a node, its kind depends on no more than the kind of the parent, on whether
the parent finds the node in a field, and on whether the parent is called. -/
theorem Node.classify_congr {n parent parent' : Node} {outer outer' : List Node}
    (language : Language) (text : Text) (hkind : parent'.kind = parent.kind)
    (hfield : ∀ f, parent'.isField f n = parent.isField f n)
    (hcallee : parent'.isCallee outer' = parent.isCallee outer) :
    n.classify language text (parent' :: outer') = n.classify language text (parent :: outer) := by
  simp only [classify, contextKind, rustKind, markupKind, pairKeyKind, cKind, elementKind,
    identifierKind, hkind, hfield, hcallee]

namespace SyntaxTree

/-- Each child lies within its parent, and no byte is covered by two children of one node. A node
that does not end behind its start covers none. -/
inductive IsOrderly : SyntaxTree → Prop where
  | node {info : Node} {children : List SyntaxTree}
      (inside : ∀ c ∈ children, info.range.start ≤ c.info.range.start ∧
        c.info.range.stop ≤ info.range.stop)
      (apart : children.Pairwise fun a b =>
        ∀ byte, a.info.range.Covers byte → ¬ b.info.range.Covers byte)
      (below : ∀ c ∈ children, IsOrderly c) : IsOrderly (node info children)

variable {tree : SyntaxTree} {above : List Node} {position : List Nat} {i k : Nat}
  {place : List Node × Node}

/-- In a well-formed tree a byte of one child is before or after all of another. -/
theorem WellFormed.isOrderly (h : tree.WellFormed) : tree.IsOrderly := by
  induction h with
  | @node info children ordered inside apart below ih =>
    have hpairwise := pairwise_of_isChain apart fun c hc => (below c hc).range_le
    refine .node inside (hpairwise.imp ?_) ih
    rintro a b hafter byte ⟨_, hstop⟩ ⟨hstart, _⟩
    omega

theorem nodeAt?_singleton : nodeAt? above tree [i] = some place ↔
    ∃ c, tree.children[i]? = some c ∧ (tree.info :: above, c.info) = place := by
  obtain ⟨info, children⟩ := tree
  simp only [nodeAt?, Option.bind_eq_some_iff]
  refine exists_congr fun c => and_congr_right fun _ => ?_
  obtain ⟨cinfo, cchildren⟩ := c
  simp [nodeAt?, SyntaxTree.info]

/-- A byte is covered by one child at most. -/
theorem IsOrderly.eq_of_covers (h : tree.IsOrderly) {a b : SyntaxTree}
    (ha : tree.children[i]? = some a) (hb : tree.children[k]? = some b) {byte : Nat}
    (hcoversA : a.info.range.Covers byte) (hcoversB : b.info.range.Covers byte) : i = k := by
  cases h with
  | node _ apart _ =>
    obtain ⟨hi, rfl⟩ := List.getElem?_eq_some_iff.mp ha
    obtain ⟨hk, rfl⟩ := List.getElem?_eq_some_iff.mp hb
    rw [List.pairwise_iff_getElem] at apart
    rcases Nat.lt_trichotomy i k with hlt | heq | hlt
    · exact absurd hcoversB (apart i k hi hk hlt byte hcoversA)
    · exact heq
    · exact absurd hcoversA (apart k i hk hi hlt byte hcoversB)

/-- The root covers the bytes of its children. -/
theorem IsOrderly.isEmpty_eq_false (h : tree.IsOrderly) {c : SyntaxTree}
    (hc : c ∈ tree.children) (hfull : c.info.isEmpty = false) : tree.info.isEmpty = false := by
  cases h with
  | node inside _ _ =>
    obtain ⟨hstart, hstop⟩ := inside c hc
    rw [Node.isEmpty_eq_false_iff] at hfull ⊢
    exact Nat.lt_of_le_of_lt hstart (Nat.lt_of_lt_of_le hfull hstop)

/-- The nodes of a tree are those at its positions. -/
theorem mem_nodes_iff : place ∈ tree.nodes ↔ ∃ position, tree.nodeAt? [] position = some place := by
  simp [nodes, ← map_snd_located, mem_located_iff]

/-- A child that covers something lies in a parent that does, and no other child of that parent has
its range. -/
theorem IsOrderly.exists_parent (h : tree.IsOrderly)
    (hplace : nodeAt? above tree (position ++ [i]) = some place) (hfull : place.2.isEmpty = false) :
    ∃ parent, nodeAt? above tree position = some parent ∧ place.1 = parent.2 :: parent.1 ∧
      parent.2.isEmpty = false ∧
      ∀ k sibling, nodeAt? above tree (position ++ [k]) = some sibling →
        (sibling.2.range = place.2.range ↔ k = i) := by
  induction position generalizing above tree with
  | nil =>
    obtain ⟨c, hc, rfl⟩ := nodeAt?_singleton.mp hplace
    refine ⟨(above, tree.info), ?_, rfl, h.isEmpty_eq_false (List.mem_of_getElem? hc) hfull,
      fun k sibling hsibling => ?_⟩
    · cases tree
      rfl
    · obtain ⟨s, hs, rfl⟩ := nodeAt?_singleton.mp hsibling
      constructor
      · intro hrange
        have hcovers := Node.covers_start hfull
        exact h.eq_of_covers hs hc (hrange ▸ hcovers) hcovers
      · rintro rfl
        rw [Option.some.inj (hs.symm.trans hc)]
  | cons child position ih =>
    obtain ⟨info, children⟩ := tree
    rw [List.cons_append, nodeAt?, Option.bind_eq_some_iff] at hplace
    obtain ⟨c, hc, hplace⟩ := hplace
    cases h with
    | node _ _ below =>
      obtain ⟨parent, hparent, hrest⟩ := ih (below c (List.mem_of_getElem? hc)) hplace
      refine ⟨parent, ?_, ?_⟩
      · rw [nodeAt?, hc]
        exact hparent
      · simpa only [List.cons_append, nodeAt?, hc, Option.bind_some] using hrest

end SyntaxTree

/-- Which child of each node occupies a field, by the position of the node. -/
def Occupancy := List Nat → Field → Option Nat

namespace Occupancy

/-- Every node of a tree records the ranges of the children that occupy its fields and no others. -/
def IsRecordedIn (occupancy : Occupancy) (tree : SyntaxTree) : Prop :=
  ∀ position place, tree.nodeAt? [] position = some place → ∀ f,
    place.2.field? f = (occupancy position f).bind fun i =>
      (tree.nodeAt? [] (position ++ [i])).map fun child => child.2.range

/-- The node at a position occupies the function field of a call expression. -/
def IsCalled (occupancy : Occupancy) (tree : SyntaxTree) (position : List Nat) : Prop :=
  ∃ outer i caller, position = outer ++ [i] ∧ tree.nodeAt? [] outer = some caller ∧
    caller.2.kind = "call_expression" ∧ occupancy outer .function = some i

variable {occupancy : Occupancy} {tree : SyntaxTree} {position : List Nat} {i : Nat}
  {place parent : List Node × Node}

/-- A node is found in the fields that it occupies, if no other child of its parent has its
range. -/
theorem IsRecordedIn.isField_iff (hrecorded : occupancy.IsRecordedIn tree)
    (hparent : tree.nodeAt? [] position = some parent)
    (hplace : tree.nodeAt? [] (position ++ [i]) = some place)
    (halone : ∀ k sibling, tree.nodeAt? [] (position ++ [k]) = some sibling →
      (sibling.2.range = place.2.range ↔ k = i)) (f : Field) :
    parent.2.isField f place.2 = true ↔ occupancy position f = some i := by
  simp only [Node.isField, decide_eq_true_eq, hrecorded position parent hparent f,
    Option.bind_eq_some_iff, Option.map_eq_some_iff]
  constructor
  · rintro ⟨k, hk, sibling, hsibling, hrange⟩
    rw [hk, (halone k sibling hsibling).mp hrange]
  · intro hi
    exact ⟨i, hi, place, hplace, rfl⟩

/-- A node that covers something is called exactly if it occupies the function field of a call
expression. -/
theorem IsRecordedIn.isCallee_iff (hrecorded : occupancy.IsRecordedIn tree)
    (htree : tree.IsOrderly) (hplace : tree.nodeAt? [] position = some place)
    (hfull : place.2.isEmpty = false) :
    place.2.isCallee place.1 = true ↔ occupancy.IsCalled tree position := by
  rcases position.eq_nil_or_concat with rfl | ⟨outer, i, rfl⟩
  · obtain ⟨info, children⟩ := tree
    obtain rfl : ([], info) = place := Option.some.inj hplace
    simp [Node.isCallee, IsCalled]
  · rw [List.concat_eq_append] at hplace ⊢
    obtain ⟨caller, hcaller, habove, _, halone⟩ := htree.exists_parent hplace hfull
    have hfield := hrecorded.isField_iff hcaller hplace halone .function
    simp only [habove, Node.isCallee, Bool.and_eq_true, beq_iff_eq, hfield]
    constructor
    · rintro ⟨hkind, hoccupied⟩
      exact ⟨outer, i, caller, rfl, hcaller, hkind, hoccupied⟩
    · rintro ⟨outer', i', caller', hposition, hcaller', hkind, hoccupied⟩
      obtain ⟨rfl, hi⟩ := List.append_inj' hposition rfl
      obtain rfl : i = i' := by simpa using hi
      obtain rfl := Option.some.inj (hcaller.symm.trans hcaller')
      exact ⟨hkind, hoccupied⟩

end Occupancy

/-- **Wherever the walk compares ranges, it could as well compare nodes.** The walk emits the
highlights of the nodes that it classifies. Each of these stands at a position of the tree. If the
position is that of a child, then the node's range is that of no other child of its parent, the
parent finds the node in exactly those fields that it occupies, and the parent is taken for what is
called exactly if it occupies the function field of a call expression. The node has the kind that it
would have below any parent of the same kind that answers these two questions by the nodes. -/
theorem ranges_tell_nodes_apart {tree : SyntaxTree} (htree : tree.IsOrderly)
    {occupancy : Occupancy} (hrecorded : occupancy.IsRecordedIn tree) (language : Language)
    (text : Text) :
    Walk.emit language text [⟨[], tree⟩] =
        (Walk.judged language text [⟨[], tree⟩]).filterMap (Walk.highlight? language text) ∧
      ∀ place ∈ Walk.judged language text [⟨[], tree⟩],
        (∃ position, tree.nodeAt? [] position = some place) ∧
        ∀ position i, tree.nodeAt? [] (position ++ [i]) = some place →
          ∃ parent, tree.nodeAt? [] position = some parent ∧ place.1 = parent.2 :: parent.1 ∧
            (∀ k sibling, tree.nodeAt? [] (position ++ [k]) = some sibling →
              (sibling.2.range = place.2.range ↔ k = i)) ∧
            (∀ f, parent.2.isField f place.2 = true ↔ occupancy position f = some i) ∧
            (parent.2.isCallee parent.1 = true ↔ occupancy.IsCalled tree position) ∧
            ∀ (parent' : Node) (outer' : List Node), parent'.kind = parent.2.kind →
              (∀ f, parent'.isField f place.2 = true ↔ occupancy position f = some i) →
              (parent'.isCallee outer' = true ↔ occupancy.IsCalled tree position) →
              place.2.classify language text (parent' :: outer') =
                place.2.classify language text place.1 := by
  refine ⟨Walk.emit_eq_filterMap_judged _, fun place hjudged => ?_⟩
  obtain ⟨hnode, hfull⟩ := Walk.mem_nodes_of_mem_judged hjudged
  refine ⟨?_, fun position i hplace => ?_⟩
  · rw [List.flatMap_singleton] at hnode
    exact SyntaxTree.mem_nodes_iff.mp hnode
  · obtain ⟨parent, hparent, habove, hparentFull, halone⟩ := htree.exists_parent hplace hfull
    have hfield := hrecorded.isField_iff hparent hplace halone
    have hcallee := hrecorded.isCallee_iff htree hparent hparentFull
    refine ⟨parent, hparent, habove, halone, hfield, hcallee, ?_⟩
    intro parent' outer' hkind hfield' hcallee'
    rw [habove]
    refine Node.classify_congr language text hkind (fun f => ?_) ?_
    · exact Bool.eq_iff_iff.mpr ((hfield' f).trans (hfield f).symm)
    · exact Bool.eq_iff_iff.mpr (hcallee'.trans hcallee.symm)

/-- A path that is called, without its arguments. The file, the call and the path have one range,
and the missing arguments are empty. The last name of the path is in the field of the name and the
path in that of the function. -/
theorem ranges_tell_nodes_apart_of_called_path :
    let text := "a::b".toList
    let name : Node := ⟨"identifier", true, ⟨3, 4⟩, []⟩
    let path : Node := ⟨"scoped_identifier", true, ⟨0, 4⟩, [(.name, ⟨3, 4⟩)]⟩
    let call : Node := ⟨"call_expression", true, ⟨0, 4⟩, [(.function, ⟨0, 4⟩)]⟩
    let file : Node := ⟨"source_file", true, ⟨0, 4⟩, []⟩
    let tree : SyntaxTree :=
      .node file [
        .node call [
          .node path [
            .node ⟨"identifier", true, ⟨0, 1⟩, []⟩ [],
            .node ⟨"::", false, ⟨1, 3⟩, []⟩ [],
            .node name []],
          .node ⟨"arguments", true, ⟨4, 4⟩, []⟩ []]]
    let occupancy : Occupancy := fun position f =>
      match position, f with
      | [0], .function => some 0
      | [0, 0], .name => some 2
      | _, _ => none
    tree.IsOrderly ∧ occupancy.IsRecordedIn tree ∧
      ([path, call, file], name) ∈ Walk.judged .rust text [⟨[], tree⟩] ∧
      path.isField .name name = true ∧ path.isCallee [call, file] = true := by
  intro text name path call file tree occupancy
  have htree : tree.IsOrderly := by
    apply SyntaxTree.WellFormed.isOrderly
    simp [tree, name, path, call, file, SyntaxTree.wellFormed_iff, SyntaxTree.info]
  have hrecorded : occupancy.IsRecordedIn tree := by
    have hchecked : ∀ entry ∈ tree.located [], ∀ f ∈ Field.all,
        entry.2.2.field? f = (occupancy entry.1 f).bind fun i =>
          (tree.nodeAt? [] (entry.1 ++ [i])).map fun child => child.2.range := by
      decide +kernel
    intro position place hplace f
    exact hchecked _ (SyntaxTree.mem_located_iff.mpr hplace) f (by cases f <;> decide)
  have hjudged : ([path, call, file], name) ∈ Walk.judged .rust text [⟨[], tree⟩] := by
    decide +kernel
  obtain ⟨_, hnodes⟩ := ranges_tell_nodes_apart htree hrecorded .rust text
  obtain ⟨_, hpath, _, _, hfield, hcallee, _⟩ := (hnodes _ hjudged).2 [0, 0] 2 rfl
  cases Option.some.inj hpath
  exact ⟨htree, hrecorded, hjudged, (hfield .name).mpr rfl,
    hcallee.mpr ⟨[0], 0, ([file], call), rfl, rfl, rfl, rfl⟩⟩

end Retint
