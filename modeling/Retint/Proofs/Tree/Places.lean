import Retint.Proofs.Text.Cuts
import Retint.Tree.Walk

/-!
# The nodes that highlights come from

The walk over a tree keeps a list of trees that are still to be seen, and it classifies nodes of
them that cover something. Every highlight that it emits is the range of such a node. So the
highlights of a tree whose nodes lie in a text lie in that text as well.
-/

namespace Retint

theorem Node.isEmpty_eq_false_iff {n : Node} :
    n.isEmpty = false ↔ n.range.start < n.range.stop := by
  simp [Node.isEmpty]

namespace SyntaxTree

theorem nodesBelowAll_eq_flatMap (above : List Node) (ts : List SyntaxTree) :
    nodesBelowAll above ts = ts.flatMap (nodesBelow above) := by
  induction ts with
  | nil => rfl
  | cons t later ih => rw [nodesBelowAll, ih, List.flatMap_cons]

/-- The ranges of all nodes of a tree lie in a text and split none of its characters. -/
def LiesIn (tree : SyntaxTree) (text : Text) : Prop :=
  ∀ place ∈ tree.nodes,
    text.isBoundary place.2.range.start = true ∧ text.isBoundary place.2.range.stop = true

/-- The tree that a grammar grows for a name with a semicolon behind it. -/
def ofStatement (text : Text) : SyntaxTree :=
  let name : Text := text.takeWhile (· != ';')
  node ⟨"source_file", true, ⟨0, text.byteSize⟩, []⟩ [
    node ⟨"expression_statement", true, ⟨0, text.byteSize⟩, []⟩ [
      node ⟨"identifier", true, ⟨0, name.byteSize⟩, []⟩ [],
      node ⟨";", false, ⟨name.byteSize, text.byteSize⟩, []⟩ []]]

theorem liesIn_ofStatement (text : Text) : (ofStatement text).LiesIn text := by
  have hstart : text.isBoundary 0 = true := Text.isBoundary_iff.mpr ⟨[], text, rfl, rfl⟩
  have hstop : text.isBoundary text.byteSize = true :=
    Text.isBoundary_iff.mpr ⟨text, [], by simp, rfl⟩
  have hname : text.isBoundary (Text.byteSize (text.takeWhile (· != ';'))) = true :=
    Text.isBoundary_iff.mpr ⟨_, _, (List.takeWhile_append_dropWhile).symm, rfl⟩
  simp [LiesIn, ofStatement, nodes, nodesBelow, nodesBelowAll, hstart, hstop, hname]

end SyntaxTree

namespace Placed

/-- Every node of a tree in preorder, each with the nodes above it. -/
def nodes (p : Placed) : List (List Node × Node) := p.tree.nodesBelow p.above

/-- The nodes of a tree are its root and the nodes of the trees right below. -/
theorem nodes_eq_cons (p : Placed) :
    p.nodes = (p.above, p.tree.info) :: p.children.flatMap nodes := by
  obtain ⟨above, info, children⟩ := p
  simp only [nodes, Placed.children, SyntaxTree.info, SyntaxTree.children, SyntaxTree.nodesBelow,
    SyntaxTree.nodesBelowAll_eq_flatMap, List.flatMap_map]

/-- The root of a tree is among its nodes. -/
theorem root_mem_nodes (p : Placed) (later : List Placed) :
    (p.above, p.tree.info) ∈ (p :: later).flatMap nodes := by
  rw [List.flatMap_cons, nodes_eq_cons]
  exact List.mem_append_left _ List.mem_cons_self

/-- The nodes below a tree are among its nodes. -/
theorem mem_nodes_of_mem_children {p : Placed} {later : List Placed} {place : List Node × Node}
    (h : place ∈ (p.children ++ later).flatMap nodes) : place ∈ (p :: later).flatMap nodes := by
  rw [List.flatMap_append, List.mem_append] at h
  rw [List.flatMap_cons, List.mem_append, nodes_eq_cons]
  rcases h with hbelow | hlater
  · exact .inl (List.mem_cons_of_mem _ hbelow)
  · exact .inr hlater

end Placed

/-- A highlight is that of a node with the nodes above it: the node covers something and is
classified. -/
def Highlight.IsOf (h : Highlight) (language : Language) (text : Text)
    (place : List Node × Node) : Prop :=
  place.2.isEmpty = false ∧ ∃ kind, place.2.classify language text place.1 = some kind ∧
    h = ⟨place.2.range.start, place.2.range.stop, kind.toTag⟩

variable {language : Language} {text : Text} {tree : SyntaxTree} {h : Highlight}

namespace Walk

/-- The nodes that the walk classifies, each with the nodes above it, in the order of the visit. -/
def judged (language : Language) (text : Text) : List Placed → List (List Node × Node)
  | [] => []
  | p :: later =>
    let n := p.tree.info
    if n.isEmpty then judged language text later
    else
      match n.classify language text p.above with
      | none => (p.above, n) :: judged language text (p.children ++ later)
      | some kind =>
        (p.above, n) :: judged language text (if kind.isLeaf then later else p.children ++ later)
termination_by pending => Placed.sizeAll pending
decreasing_by
  all_goals
    have hsize := p.sizeAll_children
    simp only [Placed.sizeAll_cons, Placed.sizeAll_append]
  · omega
  · omega
  · split
    · omega
    · simp only [Placed.sizeAll_append]
      omega

/-- The highlight of a node that the walk has classified. -/
def highlight? (language : Language) (text : Text) (place : List Node × Node) : Option Highlight :=
  (place.2.classify language text place.1).map fun kind =>
    ⟨place.2.range.start, place.2.range.stop, kind.toTag⟩

/-- The walk emits the highlights of the nodes that it classifies. -/
theorem emit_eq_filterMap_judged (pending : List Placed) :
    emit language text pending =
      (judged language text pending).filterMap (highlight? language text) := by
  fun_induction judged language text pending with
  | case1 => simp [emit]
  | case2 p later n hempty ih => rw [emit, if_pos hempty, ih]
  | case3 p later n hfull hkind ih =>
    have hhidden : highlight? language text (p.above, n) = none := by
      simp [highlight?, hkind]
    rw [emit, if_neg hfull, hkind, List.filterMap_cons_none hhidden, ih]
  | case4 p later n hfull kind hkind ih =>
    have hshown : highlight? language text (p.above, n) =
        some ⟨n.range.start, n.range.stop, kind.toTag⟩ := by
      simp [highlight?, hkind]
    rw [dite_eq_ite] at ih
    rw [emit, if_neg hfull, hkind, List.filterMap_cons_some hshown, ← ih]

/-- The walk classifies no node but those that it has still to see, and none that is empty. -/
theorem mem_nodes_of_mem_judged {pending : List Placed} {place : List Node × Node}
    (hmem : place ∈ judged language text pending) :
    place ∈ pending.flatMap Placed.nodes ∧ place.2.isEmpty = false := by
  fun_induction judged language text pending with
  | case1 => contradiction
  | case2 p later n hempty ih =>
    rw [List.flatMap_cons]
    exact ⟨List.mem_append_right _ (ih hmem).1, (ih hmem).2⟩
  | case3 p later n hfull hkind ih =>
    rcases List.mem_cons.mp hmem with rfl | hrest
    · exact ⟨Placed.root_mem_nodes p later, by simpa using hfull⟩
    · exact ⟨Placed.mem_nodes_of_mem_children (ih hrest).1, (ih hrest).2⟩
  | case4 p later n hfull kind hkind ih =>
    rcases List.mem_cons.mp hmem with rfl | hrest
    · exact ⟨Placed.root_mem_nodes p later, by simpa using hfull⟩
    · obtain ⟨hnode, hrestFull⟩ := ih hrest
      refine ⟨?_, hrestFull⟩
      split at hnode
      · rw [List.flatMap_cons]
        exact List.mem_append_right _ hnode
      · exact Placed.mem_nodes_of_mem_children hnode

/-- What the walk emits comes from the nodes that it has still to see. -/
theorem exists_place_of_mem_emit {pending : List Placed}
    (hmem : h ∈ emit language text pending) :
    ∃ place ∈ pending.flatMap Placed.nodes, h.IsOf language text place := by
  rw [emit_eq_filterMap_judged] at hmem
  obtain ⟨place, hplace, hshown⟩ := List.mem_filterMap.mp hmem
  obtain ⟨hnode, hfull⟩ := mem_nodes_of_mem_judged hplace
  obtain ⟨kind, hkind, rfl⟩ := Option.map_eq_some_iff.mp hshown
  exact ⟨place, hnode, hfull, kind, hkind, rfl⟩

end Walk

/-- Every highlight of a tree is that of one of its nodes. -/
theorem SyntaxTree.exists_place_of_mem_highlights (hmem : h ∈ tree.highlights language text) :
    ∃ place ∈ tree.nodes, h.IsOf language text place := by
  have hemitted : h ∈ Walk.emit language text [⟨[], tree⟩] := List.mem_mergeSort.mp hmem
  obtain ⟨place, hplace, hof⟩ := Walk.exists_place_of_mem_emit hemitted
  rw [List.flatMap_singleton] at hplace
  exact ⟨place, hplace, hof⟩

/-- The highlights of a tree that lies in a text fit that text. -/
theorem SyntaxTree.LiesIn.allFit (htree : tree.LiesIn text) :
    Highlight.allFit (tree.highlights language text) text.byteSize = true := by
  refine List.all_eq_true.mpr fun h hmem => ?_
  obtain ⟨place, hplace, hfull, kind, _, rfl⟩ := exists_place_of_mem_highlights hmem
  have hstop := Text.le_byteSize_of_isBoundary (htree place hplace).2
  have hle := Nat.le_of_lt (Node.isEmpty_eq_false_iff.mp hfull)
  simp [Highlight.fits, hle, hstop]

end Retint
