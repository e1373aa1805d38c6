import Retint.Proofs.Tree.Places

/-!
# The walk visits the nodes in preorder

A node of a tree has a position: the numbers of the children to go to, from the root down. The
nodes in preorder are those of all positions in lexicographic order. The walk keeps a list of trees
that are still to be seen, and what it emits for them is what their nodes show one after the other,
where each node is judged by itself from the nodes above it. The sort at the end keeps the order of
the highlights that start together.
-/

namespace Retint

/-- A list is another one sorted by a key, and the elements with the same key keep their order. -/
structure IsStablySorted {α : Type} (key : α → Nat) (given sorted : List α) : Prop where
  perm : sorted.Perm given
  ordered : sorted.Pairwise fun a b => key a ≤ key b
  stable : ∀ k, sorted.filter (key · = k) = given.filter (key · = k)

/-- Merging sorts stably. -/
theorem isStablySorted_mergeSort {α : Type} (key : α → Nat) (given : List α) :
    IsStablySorted key given (given.mergeSort fun a b => key a ≤ key b) := by
  have htrans : ∀ a b c : α, decide (key a ≤ key b) = true → decide (key b ≤ key c) = true →
      decide (key a ≤ key c) = true := by
    intro a b c hab hbc
    simp only [decide_eq_true_eq] at hab hbc ⊢
    omega
  have htotal : ∀ a b : α, (decide (key a ≤ key b) || decide (key b ≤ key a)) = true := by
    intro a b
    simp only [Bool.or_eq_true, decide_eq_true_eq]
    omega
  have hperm := List.mergeSort_perm given fun a b => decide (key a ≤ key b)
  refine ⟨hperm, ?_, fun k => ?_⟩
  · simpa using List.pairwise_mergeSort htrans htotal given
  · -- The elements with one key are a sublist of the sorted list, and there are no more of them.
    have hequal : (given.filter (key · = k)).Pairwise fun a b =>
        decide (key a ≤ key b) = true := by
      apply List.pairwise_of_forall_mem_list
      intro a ha b hb
      have hka : key a = k := by simpa using (List.mem_filter.mp ha).2
      have hkb : key b = k := by simpa using (List.mem_filter.mp hb).2
      simp [hka, hkb]
    have hsub := List.sublist_mergeSort htrans htotal hequal List.filter_sublist
    have hkept := hsub.filter (key · = k)
    rw [List.filter_filter] at hkept
    simp only [Bool.and_self] at hkept
    exact (hkept.eq_of_length (hperm.filter _).length_eq.symm).symm

namespace SyntaxTree

/-! ### Positions -/

/-- The node at a position, with the nodes above it, nearest first. A position has the number of
the child to go to for every level. -/
def nodeAt? (above : List Node) : SyntaxTree → List Nat → Option (List Node × Node)
  | node info _, [] => some (above, info)
  | node info children, child :: position =>
    children[child]?.bind fun t => nodeAt? (info :: above) t position

mutual

/-- Every node of a tree in preorder, each with its position and the nodes above it. -/
def located (above : List Node) : SyntaxTree → List (List Nat × List Node × Node)
  | node info children => ([], above, info) :: locatedAll (info :: above) 0 children

/-- Every node of the children from a given number on. -/
def locatedAll (above : List Node) (first : Nat) :
    List SyntaxTree → List (List Nat × List Node × Node)
  | [] => []
  | t :: later =>
    (located above t).map (Prod.map (first :: ·) id) ++ locatedAll above (first + 1) later

end

mutual

/-- Without the positions these are the nodes in preorder. -/
theorem map_snd_located (above : List Node) :
    ∀ t, (located above t).map Prod.snd = nodesBelow above t
  | node info children => by
    rw [located, nodesBelow, List.map_cons, map_snd_locatedAll]

theorem map_snd_locatedAll (above : List Node) (first : Nat) :
    ∀ ts, (locatedAll above first ts).map Prod.snd = nodesBelowAll above ts
  | [] => rfl
  | t :: later => by
    rw [locatedAll, nodesBelowAll, List.map_append, map_snd_locatedAll, ← map_snd_located above t,
      List.map_map]
    rfl

end

mutual

/-- A node is listed with a position exactly if it stands there. -/
theorem mem_located_iff {above : List Node} {place : List Node × Node} :
    ∀ {t : SyntaxTree} {position : List Nat},
      (position, place) ∈ located above t ↔ nodeAt? above t position = some place
  | node info children, [] => by
    have hroot : ([], place) ∉ locatedAll (info :: above) 0 children := by
      simp [mem_locatedAll_iff]
    simp [located, nodeAt?, hroot, eq_comm]
  | node info children, child :: position => by
    have hroot : (child :: position, place) ≠ ([], above, info) := by simp
    rw [located, List.mem_cons, or_iff_right hroot, mem_locatedAll_iff, nodeAt?,
      Option.bind_eq_some_iff]
    constructor
    · rintro ⟨child', rest, t, heq, ht, hplace⟩
      obtain ⟨rfl, rfl⟩ := List.cons.inj heq
      rw [Nat.zero_add]
      exact ⟨t, ht, hplace⟩
    · rintro ⟨t, ht, hplace⟩
      exact ⟨child, position, t, by rw [Nat.zero_add], ht, hplace⟩

theorem mem_locatedAll_iff {above : List Node} {place : List Node × Node} {position : List Nat} :
    ∀ {first : Nat} {ts : List SyntaxTree},
      (position, place) ∈ locatedAll above first ts ↔
        ∃ child rest t, position = (first + child) :: rest ∧ ts[child]? = some t ∧
          nodeAt? above t rest = some place
  | first, [] => by simp [locatedAll]
  | first, t :: later => by
    rw [locatedAll, List.mem_append, mem_locatedAll_iff]
    constructor
    · rintro (hhere | ⟨child, rest, t', hposition, ht', hplace⟩)
      · obtain ⟨⟨rest, place'⟩, hmem, heq⟩ := List.mem_map.mp hhere
        obtain ⟨rfl, rfl⟩ := Prod.mk.inj heq
        exact ⟨0, rest, t, rfl, rfl, mem_located_iff.mp hmem⟩
      · refine ⟨child + 1, rest, t', ?_, by simpa using ht', hplace⟩
        rw [hposition, Nat.add_assoc, Nat.add_comm 1 child]
    · rintro ⟨child, rest, t', rfl, ht', hplace⟩
      cases child with
      | zero =>
        cases Option.some.inj ht'
        exact .inl (List.mem_map.mpr ⟨(rest, place), mem_located_iff.mpr hplace, rfl⟩)
      | succ child =>
        refine .inr ⟨child, rest, t', ?_, by simpa using ht', hplace⟩
        rw [Nat.add_assoc, Nat.add_comm 1 child]

end

mutual

/-- The positions grow in lexicographic order, in which a node stands before those below it. -/
theorem pairwise_located (above : List Node) :
    ∀ t, (located above t).Pairwise fun a b => a.1 < b.1
  | node info children => by
    rw [located, List.pairwise_cons]
    refine ⟨?_, pairwise_locatedAll (info :: above) 0 children⟩
    rintro ⟨position, place⟩ hmem
    obtain ⟨child, rest, t, rfl, _, _⟩ := mem_locatedAll_iff.mp hmem
    exact List.nil_lt_cons _ _

theorem pairwise_locatedAll (above : List Node) (first : Nat) :
    ∀ ts, (locatedAll above first ts).Pairwise fun a b => a.1 < b.1
  | [] => .nil
  | t :: later => by
    rw [locatedAll, List.pairwise_append, List.pairwise_map]
    refine ⟨?_, pairwise_locatedAll above (first + 1) later, ?_⟩
    · refine (pairwise_located above t).imp fun hlt => ?_
      exact List.cons_lt_cons_iff.mpr (.inr ⟨rfl, hlt⟩)
    · rintro a ha ⟨position, place⟩ hlater
      obtain ⟨b, _, rfl⟩ := List.mem_map.mp ha
      obtain ⟨child, rest, t', rfl, _, _⟩ := mem_locatedAll_iff.mp hlater
      exact List.cons_lt_cons_iff.mpr (.inl (by omega))

end

/-! ### What a node shows -/

mutual

/-- Every node of a tree stands below the nodes above the tree. -/
theorem suffix_of_mem_nodesBelow {above : List Node} {place : List Node × Node} :
    ∀ {t : SyntaxTree}, place ∈ nodesBelow above t → above <:+ place.1
  | node info children, h => by
    rw [nodesBelow, List.mem_cons] at h
    rcases h with rfl | hbelow
    · exact List.suffix_refl above
    · exact (List.suffix_cons info above).trans (suffix_of_mem_nodesBelowAll hbelow)

theorem suffix_of_mem_nodesBelowAll {above : List Node} {place : List Node × Node} :
    ∀ {ts : List SyntaxTree}, place ∈ nodesBelowAll above ts → above <:+ place.1
  | [], h => by simp [nodesBelowAll] at h
  | t :: later, h => by
    rw [nodesBelowAll, List.mem_append] at h
    rcases h with hhere | hlater
    · exact suffix_of_mem_nodesBelow hhere
    · exact suffix_of_mem_nodesBelowAll hlater

end

variable {language : Language} {text : Text} {above outer : List Node} {n : Node}

/-- The walk goes on below some nodes exactly if none of them is empty or a comment, a string or
an attribute, each judged from the nodes above it. -/
theorem isOpen_iff : isOpen language text above = true ↔
    (∀ n ∈ above, n.range.start < n.range.stop) ∧
      ∀ n outer, n :: outer <:+ above → ∀ kind, n.classify language text outer = some kind →
        kind ∉ [Kind.comment, .string, .attributeItem] := by
  induction above with
  | nil => simp [isOpen]
  | cons n above ih =>
    have hleaf : ∀ kind : Kind, kind.isLeaf = false ↔
        kind ∉ [Kind.comment, .string, .attributeItem] := by
      intro kind
      cases kind <;> decide
    simp only [isOpen, Bool.and_eq_true, ih, Node.isEmpty, Bool.not_eq_true',
      decide_eq_false_iff_not, Nat.not_le, Option.all_eq_true, hleaf, List.forall_mem_cons,
      List.suffix_cons_iff]
    constructor
    · rintro ⟨⟨hfull, hkind⟩, hfullAbove, hkindAbove⟩
      refine ⟨⟨hfull, hfullAbove⟩, fun n' outer hsuffix => ?_⟩
      rcases hsuffix with heq | hsuffix
      · obtain ⟨rfl, rfl⟩ := List.cons.inj heq
        exact hkind
      · exact hkindAbove n' outer hsuffix
    · rintro ⟨⟨hfull, hfullAbove⟩, hkinds⟩
      exact ⟨⟨hfull, hkinds n above (.inl rfl)⟩, hfullAbove,
        fun n' outer hsuffix => hkinds n' outer (.inr hsuffix)⟩

/-- If the walk goes on below some nodes, it went on below the outer ones. -/
theorem isOpen_of_suffix (hsuffix : outer <:+ above) (h : isOpen language text above = true) :
    isOpen language text outer = true := by
  obtain ⟨hfull, hkinds⟩ := isOpen_iff.mp h
  refine isOpen_iff.mpr ⟨fun n hn => hfull n (hsuffix.mem hn), fun n below hbelow => ?_⟩
  exact hkinds n below (hbelow.trans hsuffix)

end SyntaxTree

/-- A highlight is to be seen at a node with the nodes above it: the node covers something and is
classified, and the highlight is its range with the tag of its kind. Every node above covers
something as well, and none of them is classified as a comment, a string or an attribute. -/
structure Highlight.IsShownAt (h : Highlight) (language : Language) (text : Text)
    (place : List Node × Node) : Prop where
  full : place.2.range.start < place.2.range.stop
  kind : ∃ kind, place.2.classify language text place.1 = some kind ∧
    h = ⟨place.2.range.start, place.2.range.stop, kind.toTag⟩
  fullAbove : ∀ n ∈ place.1, n.range.start < n.range.stop
  openAbove : ∀ n outer, n :: outer <:+ place.1 → ∀ kind,
    n.classify language text outer = some kind → kind ∉ [Kind.comment, .string, .attributeItem]

variable {language : Language} {text : Text} {h : Highlight} {place : List Node × Node}

/-- What a node shows is what is to be seen there. -/
theorem SyntaxTree.visible_eq_some_iff :
    visible language text place = some h ↔ h.IsShownAt language text place := by
  obtain ⟨above, n⟩ := place
  have hvisible : visible language text (above, n) = some h ↔
      (isOpen language text above = true ∧ n.range.start < n.range.stop) ∧
        ∃ kind, n.classify language text above = some kind ∧
          ⟨n.range.start, n.range.stop, kind.toTag⟩ = h := by
    simp [visible, Node.isEmpty]
  rw [hvisible, isOpen_iff]
  constructor
  · rintro ⟨⟨⟨hfullAbove, hopen⟩, hfull⟩, kind, hkind, rfl⟩
    exact ⟨hfull, ⟨kind, hkind, rfl⟩, hfullAbove, hopen⟩
  · rintro ⟨hfull, ⟨kind, hkind, rfl⟩, hfullAbove, hopen⟩
    exact ⟨⟨⟨hfullAbove, hopen⟩, hfull⟩, kind, hkind, rfl⟩

namespace Placed

/-- Below a node where the walk does not go on, nothing is shown. -/
theorem filterMap_visible_children (p : Placed)
    (hclosed : SyntaxTree.isOpen language text (p.tree.info :: p.above) = false) :
    (p.children.flatMap nodes).filterMap (SyntaxTree.visible language text) = [] := by
  rw [List.filterMap_eq_nil_iff]
  intro place hplace
  obtain ⟨child, hchild, hmem⟩ := List.mem_flatMap.mp hplace
  obtain ⟨t, _, rfl⟩ := List.mem_map.mp hchild
  have hsuffix := SyntaxTree.suffix_of_mem_nodesBelow hmem
  cases hopen : SyntaxTree.isOpen language text place.1 with
  | false => simp [SyntaxTree.visible, hopen]
  | true =>
    have hbelow := SyntaxTree.isOpen_of_suffix hsuffix hopen
    rw [hclosed] at hbelow
    contradiction

/-- The children of a tree where the walk goes on join those that are still to be seen. -/
theorem isOpen_children {p : Placed} {later : List Placed}
    (hroot : SyntaxTree.isOpen language text (p.tree.info :: p.above) = true)
    (hlater : ∀ q ∈ later, SyntaxTree.isOpen language text q.above = true) :
    ∀ q ∈ p.children ++ later, SyntaxTree.isOpen language text q.above = true := by
  intro q hq
  rcases List.mem_append.mp hq with hchild | hq
  · obtain ⟨t, _, rfl⟩ := List.mem_map.mp hchild
    exact hroot
  · exact hlater q hq

end Placed

/-- What the walk emits for the trees that are still to be seen is what their nodes show. -/
theorem Walk.emit_eq_filterMap_nodes {pending : List Placed}
    (hopen : ∀ p ∈ pending, SyntaxTree.isOpen language text p.above = true) :
    emit language text pending =
      (pending.flatMap Placed.nodes).filterMap (SyntaxTree.visible language text) := by
  fun_induction emit language text pending with
  | case1 => rfl
  | case2 p later n hempty ih =>
    obtain ⟨habove, hlater⟩ := List.forall_mem_cons.mp hopen
    have hclosed : SyntaxTree.isOpen language text (p.tree.info :: p.above) = false := by
      simp [SyntaxTree.isOpen, n, hempty]
    have hhidden : SyntaxTree.visible language text (p.above, p.tree.info) = none := by
      simp [SyntaxTree.visible, n, hempty]
    rw [ih hlater, List.flatMap_cons, List.filterMap_append, Placed.nodes_eq_cons,
      List.filterMap_cons_none hhidden, p.filterMap_visible_children hclosed, List.nil_append]
  | case3 p later n hfull hkind ih =>
    obtain ⟨habove, hlater⟩ := List.forall_mem_cons.mp hopen
    have hroot : SyntaxTree.isOpen language text (p.tree.info :: p.above) = true := by
      simp [SyntaxTree.isOpen, n, hfull, hkind, habove]
    have hhidden : SyntaxTree.visible language text (p.above, p.tree.info) = none := by
      simp [SyntaxTree.visible, n, hkind]
    rw [ih (Placed.isOpen_children hroot hlater), List.flatMap_append, List.flatMap_cons,
      Placed.nodes_eq_cons, List.cons_append, List.filterMap_cons_none hhidden]
  | case4 p later n hfull kind hkind ih =>
    obtain ⟨habove, hlater⟩ := List.forall_mem_cons.mp hopen
    have hshown : SyntaxTree.visible language text (p.above, p.tree.info) =
        some ⟨n.range.start, n.range.stop, kind.toTag⟩ := by
      simp [SyntaxTree.visible, n, hfull, hkind, habove]
    have hroot : SyntaxTree.isOpen language text (p.tree.info :: p.above) = !kind.isLeaf := by
      simp [SyntaxTree.isOpen, n, hfull, hkind, habove]
    rw [List.flatMap_cons, Placed.nodes_eq_cons, List.cons_append, List.filterMap_cons_some hshown]
    congr 1
    by_cases hleaf : kind.isLeaf = true
    · rw [dif_pos hleaf] at ih
      rw [if_pos hleaf]
      rw [hleaf] at hroot
      rw [ih hlater, List.filterMap_append, p.filterMap_visible_children hroot, List.nil_append]
    · rw [dif_neg hleaf] at ih
      rw [if_neg hleaf]
      rw [Bool.not_eq_true] at hleaf
      rw [hleaf] at hroot
      rw [ih (Placed.isOpen_children hroot hlater), List.flatMap_append]

namespace SyntaxTree

/-- What is shown at each position of a tree, in preorder. -/
def shown (language : Language) (text : Text) (tree : SyntaxTree) : List (List Nat × Highlight) :=
  (located [] tree).filterMap fun (position, place) =>
    (visible language text place).map fun h => (position, h)

variable {tree : SyntaxTree} {position : List Nat}

theorem mem_shown_iff : (position, h) ∈ tree.shown language text ↔
    ∃ place, tree.nodeAt? [] position = some place ∧ h.IsShownAt language text place := by
  simp only [shown, List.mem_filterMap, Option.map_eq_some_iff, visible_eq_some_iff]
  constructor
  · rintro ⟨⟨position', place⟩, hmem, h', hshown, heq⟩
    obtain ⟨rfl, rfl⟩ := Prod.mk.inj heq
    exact ⟨place, mem_located_iff.mp hmem, hshown⟩
  · rintro ⟨place, hplace, hshown⟩
    exact ⟨(position, place), mem_located_iff.mpr hplace, h, hshown, rfl⟩

theorem pairwise_shown : ((tree.shown language text).map Prod.fst).Pairwise (· < ·) := by
  rw [List.pairwise_map]
  refine (pairwise_located [] tree).filterMap _ ?_
  rintro ⟨a, placeA⟩ ⟨b, placeB⟩ hlt a' ha b' hb
  obtain ⟨_, _, rfl⟩ := Option.map_eq_some_iff.mp ha
  obtain ⟨_, _, rfl⟩ := Option.map_eq_some_iff.mp hb
  exact hlt

/-- The walk emits what is shown, in preorder. -/
theorem map_snd_shown :
    (tree.shown language text).map Prod.snd = Walk.emit language text [⟨[], tree⟩] := by
  have hemit : Walk.emit language text [⟨[], tree⟩] =
      tree.nodes.filterMap (visible language text) := by
    rw [Walk.emit_eq_filterMap_nodes (by simp [isOpen]), List.flatMap_singleton]
    rfl
  rw [hemit, nodes, ← map_snd_located, List.filterMap_map, shown, List.map_filterMap]
  congr 1
  funext entry
  obtain ⟨position, place⟩ := entry
  simp [Option.map_map, Function.comp_def]

end SyntaxTree

/-- **The highlights of a tree are what its nodes show, sorted by start.** There is one highlight
for each position of the tree whose node shows one, and none for any other position. They are in
preorder before the sort, and those that start together are still so after it. -/
theorem highlights_are_shown_in_preorder (language : Language) (text : Text) (tree : SyntaxTree) :
    ∃ shown : List (List Nat × Highlight),
      (shown.map Prod.fst).Pairwise (· < ·) ∧
      (∀ position h, (position, h) ∈ shown ↔
        ∃ place, tree.nodeAt? [] position = some place ∧ h.IsShownAt language text place) ∧
      IsStablySorted Highlight.start (shown.map Prod.snd) (tree.highlights language text) := by
  refine ⟨tree.shown language text, SyntaxTree.pairwise_shown, fun position h =>
    SyntaxTree.mem_shown_iff, ?_⟩
  rw [SyntaxTree.map_snd_shown]
  exact isStablySorted_mergeSort Highlight.start _

end Retint
