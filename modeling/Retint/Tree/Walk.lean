import Retint.Tree.Classify

/-!
# The highlights of a tree

A node that covers nothing is passed over with all below it. Any other node gets a highlight if it
is classified, and nothing below it is looked at if its kind is a leaf. The highlights are sorted
by start; the sort is stable, so of two that start together the outer one comes first.

`Walk.emit` visits the nodes with an explicit list of what is still to be seen. Beside it stands
`SyntaxTree.visible`, which says of each node by itself whether it is highlighted, from the nodes
above it alone.
-/

namespace Retint

/-- A tree with the nodes above it, nearest first. -/
structure Placed where
  /-- The nodes above, nearest first. -/
  above : List Node
  /-- The tree that stands below them. -/
  tree : SyntaxTree

namespace Placed

/-- The trees right below the root. -/
def children (p : Placed) : List Placed :=
  p.tree.children.map fun child => ⟨p.tree.info :: p.above, child⟩

/-- The number of nodes of several trees. -/
def sizeAll (ps : List Placed) : Nat := SyntaxTree.sizeAll (ps.map Placed.tree)

@[simp] theorem sizeAll_cons (p : Placed) (ps : List Placed) :
    sizeAll (p :: ps) = p.tree.size + sizeAll ps := by
  simp [sizeAll, SyntaxTree.sizeAll]

@[simp] theorem sizeAll_append (ps qs : List Placed) :
    sizeAll (ps ++ qs) = sizeAll ps + sizeAll qs := by
  induction ps with
  | nil => simp [sizeAll, SyntaxTree.sizeAll]
  | cons p ps ih => simp [ih, Nat.add_assoc]

theorem sizeAll_children (p : Placed) : sizeAll p.children + 1 = p.tree.size := by
  obtain ⟨above, info, children⟩ := p
  simp [sizeAll, Placed.children, SyntaxTree.children, SyntaxTree.size, Function.comp_def]

end Placed

namespace Walk

/-- The highlights of the trees that are still to be seen, in the order of the visit. -/
def emit (language : Language) (text : Text) : List Placed → List Highlight
  | [] => []
  | p :: later =>
    let n := p.tree.info
    if n.isEmpty then emit language text later
    else
      match n.classify language text p.above with
      | none => emit language text (p.children ++ later)
      | some kind =>
        ⟨n.range.start, n.range.stop, kind.toTag⟩ ::
          emit language text (if kind.isLeaf then later else p.children ++ later)
termination_by pending => Placed.sizeAll pending
decreasing_by
  all_goals
    have hsize := p.sizeAll_children
    simp only [Placed.sizeAll_cons, Placed.sizeAll_append]
  · omega
  · omega
  · split
    · omega
    · simp only [Placed.sizeAll_append]
      omega

end Walk

namespace SyntaxTree

/-- The highlights of a tree over a text, sorted by start. -/
def highlights (language : Language) (text : Text) (tree : SyntaxTree) : List Highlight :=
  (Walk.emit language text [⟨[], tree⟩]).mergeSort fun a b => a.start ≤ b.start

mutual

/-- Every node of a tree in preorder, each with the nodes above it, nearest first. -/
def nodesBelow (above : List Node) : SyntaxTree → List (List Node × Node)
  | node info children => (above, info) :: nodesBelowAll (info :: above) children

/-- Every node of several trees that stand below the same nodes. -/
def nodesBelowAll (above : List Node) : List SyntaxTree → List (List Node × Node)
  | [] => []
  | t :: later => nodesBelow above t ++ nodesBelowAll above later

end

/-- Every node of a whole tree in preorder, each with the nodes above it, nearest first. -/
def nodes (tree : SyntaxTree) : List (List Node × Node) := nodesBelow [] tree

/-- Whether the walk goes on below a node, given that node and those above it, nearest first: none
of them is empty, and none has a kind that is a leaf. -/
def isOpen (language : Language) (text : Text) : List Node → Bool
  | [] => true
  | n :: above =>
    !n.isEmpty && (n.classify language text above).all (!·.isLeaf) && isOpen language text above

/-- The highlight of a node, given the nodes above it: it has one if it covers something, is
classified, and all above it is open. -/
def visible (language : Language) (text : Text) : List Node × Node → Option Highlight
  | (above, n) =>
    if isOpen language text above && !n.isEmpty then
      (n.classify language text above).map fun kind => ⟨n.range.start, n.range.stop, kind.toTag⟩
    else none

end SyntaxTree

end Retint
