import Mathlib.Data.List.Chain
import Retint.Proofs.Tree.Preorder

/-!
# The highlights of a well-formed tree

In a well-formed tree the children of a node lie within it, one after the other. The trees that the
walk has still to see are then lined up in the text: they begin as the children of one node, and a
tree that is replaced by its children leaves them in its own place. So each highlight that the walk
emits lies within the one before it, or begins where that one has ended.
-/

namespace Retint

namespace SyntaxTree

/-- No node ends before it starts, each child lies within its parent, and each child ends before
the next one starts. -/
inductive WellFormed : SyntaxTree → Prop where
  | node {info : Node} {children : List SyntaxTree}
      (ordered : info.range.start ≤ info.range.stop)
      (inside : ∀ c ∈ children, info.range.start ≤ c.info.range.start ∧
        c.info.range.stop ≤ info.range.stop)
      (apart : children.IsChain fun a b => a.info.range.stop ≤ b.info.range.start)
      (below : ∀ c ∈ children, WellFormed c) : WellFormed (node info children)

variable {tree : SyntaxTree}

/-- A tree is well-formed if its root is in order with its children and these are well-formed. -/
theorem wellFormed_iff {info : Node} {children : List SyntaxTree} :
    WellFormed (node info children) ↔ info.range.start ≤ info.range.stop ∧
      (∀ c ∈ children, info.range.start ≤ c.info.range.start ∧
        c.info.range.stop ≤ info.range.stop) ∧
      children.IsChain (fun a b => a.info.range.stop ≤ b.info.range.start) ∧
      ∀ c ∈ children, WellFormed c := by
  constructor
  · rintro ⟨ordered, inside, apart, below⟩
    exact ⟨ordered, inside, apart, below⟩
  · rintro ⟨ordered, inside, apart, below⟩
    exact .node ordered inside apart below

theorem WellFormed.range_le (h : tree.WellFormed) :
    tree.info.range.start ≤ tree.info.range.stop := by
  cases h with
  | node ordered => exact ordered

theorem WellFormed.children (h : tree.WellFormed) {c : SyntaxTree} (hc : c ∈ tree.children) :
    c.WellFormed ∧ tree.info.range.start ≤ c.info.range.start ∧
      c.info.range.stop ≤ tree.info.range.stop := by
  cases h with
  | node _ inside _ below => exact ⟨below c hc, inside c hc⟩

/-- Trees each of which ends before the next one starts do so for any two of them, since none ends
before it starts. -/
theorem pairwise_of_isChain {ts : List SyntaxTree}
    (hchain : ts.IsChain fun a b => a.info.range.stop ≤ b.info.range.start)
    (hordered : ∀ t ∈ ts, t.info.range.start ≤ t.info.range.stop) :
    ts.Pairwise fun a b => a.info.range.stop ≤ b.info.range.start := by
  induction ts with
  | nil => exact .nil
  | cons first later ih =>
    obtain ⟨_, hlater⟩ := List.forall_mem_cons.mp hordered
    cases later with
    | nil => exact List.pairwise_singleton _ _
    | cons second rest =>
      rw [List.isChain_cons_cons] at hchain
      have hrest := ih hchain.2 hlater
      refine List.pairwise_cons.mpr ⟨fun t ht => ?_, hrest⟩
      rcases List.mem_cons.mp ht with rfl | ht
      · exact hchain.1
      · have hsecond := hlater second List.mem_cons_self
        have hafter := (List.pairwise_cons.mp hrest).1 t ht
        omega

theorem WellFormed.pairwise (h : tree.WellFormed) :
    tree.children.Pairwise fun a b => a.info.range.stop ≤ b.info.range.start := by
  cases h with
  | node _ _ apart below => exact pairwise_of_isChain apart fun c hc => (below c hc).range_le

/-- Every node of a well-formed tree lies within its root. -/
theorem WellFormed.inside_of_mem_nodesBelow (h : tree.WellFormed) {above : List Node}
    {place : List Node × Node} (hplace : place ∈ nodesBelow above tree) :
    tree.info.range.start ≤ place.2.range.start ∧ place.2.range.stop ≤ tree.info.range.stop := by
  induction h generalizing above with
  | @node info children ordered inside apart below ih =>
    rw [nodesBelow, nodesBelowAll_eq_flatMap, List.mem_cons, List.mem_flatMap] at hplace
    rcases hplace with rfl | ⟨c, hc, hplace⟩
    · exact ⟨Nat.le_refl _, Nat.le_refl _⟩
    · have hchild := inside c hc
      have hbelow := ih c hc hplace
      show info.range.start ≤ _ ∧ _ ≤ info.range.stop
      omega

end SyntaxTree

namespace Highlight

/-- Whether a highlight is one of a comment, a string or an attribute. -/
def IsLeaf (h : Highlight) : Prop :=
  ∃ kind ∈ [Kind.comment, .string, .attributeItem], h.kind = kind.toTag

/-- A highlight covers no byte that another one does not cover. -/
def Within (inner outer : Highlight) : Prop :=
  outer.start ≤ inner.start ∧ inner.stop ≤ outer.stop

/-- No byte is covered by both of two highlights. -/
def Apart (a b : Highlight) : Prop := a.stop ≤ b.start ∨ b.stop ≤ a.start

/-- What may come after a highlight: what starts where it has ended, and what lies within it if it
is no leaf. -/
def Precedes (a b : Highlight) : Prop := a.stop ≤ b.start ∨ ¬ a.IsLeaf ∧ b.Within a

theorem isLeaf_iff {kind : Kind} {start stop : Nat} :
    IsLeaf ⟨start, stop, kind.toTag⟩ ↔ kind.isLeaf = true := by
  cases kind <;> simp [IsLeaf, Kind.toTag, Kind.isLeaf]

end Highlight

namespace Walk

/-- The trees that are still to be seen are well-formed, and each of them ends before any later one
starts. -/
structure Lined (pending : List Placed) : Prop where
  wellFormed : ∀ p ∈ pending, p.tree.WellFormed
  pairwise : pending.Pairwise fun p q => p.tree.info.range.stop ≤ q.tree.info.range.start

variable {language : Language} {text : Text} {p : Placed} {pending later : List Placed}
  {h : Highlight}

theorem Lined.tail (hlined : Lined (p :: later)) : Lined later :=
  ⟨fun q hq => hlined.wellFormed q (List.mem_cons_of_mem p hq),
    (List.pairwise_cons.mp hlined.pairwise).2⟩

/-- A tree can be replaced by its children. -/
theorem Lined.children (hlined : Lined (p :: later)) : Lined (p.children ++ later) := by
  have hroot := hlined.wellFormed p List.mem_cons_self
  have hafter := (List.pairwise_cons.mp hlined.pairwise).1
  refine ⟨fun q hq => ?_, List.pairwise_append.mpr ⟨?_, hlined.tail.pairwise, ?_⟩⟩
  · rcases List.mem_append.mp hq with hchild | hlater
    · obtain ⟨c, hc, rfl⟩ := List.mem_map.mp hchild
      exact (hroot.children hc).1
    · exact hlined.tail.wellFormed q hlater
  · exact List.pairwise_map.mpr hroot.pairwise
  · intro q hq r hr
    obtain ⟨c, hc, rfl⟩ := List.mem_map.mp hq
    have hinside := (hroot.children hc).2.2
    have hstart := hafter r hr
    exact Nat.le_trans hinside hstart

/-- What the walk emits covers something and lies within one of the trees that are still to be
seen. -/
theorem Lined.inside_of_mem_emit (hlined : Lined pending) (hmem : h ∈ emit language text pending) :
    h.start < h.stop ∧ ∃ p ∈ pending,
      p.tree.info.range.start ≤ h.start ∧ h.stop ≤ p.tree.info.range.stop := by
  obtain ⟨place, hplace, hfull, kind, _, rfl⟩ := exists_place_of_mem_emit hmem
  obtain ⟨p, hp, hbelow⟩ := List.mem_flatMap.mp hplace
  have hinside := (hlined.wellFormed p hp).inside_of_mem_nodesBelow hbelow
  exact ⟨Node.isEmpty_eq_false_iff.mp hfull, p, hp, hinside⟩

/-- Of the highlights that the walk emits, each one precedes any later one. -/
theorem Lined.pairwise_precedes (hlined : Lined pending) :
    (emit language text pending).Pairwise Highlight.Precedes := by
  fun_induction emit language text pending with
  | case1 => exact .nil
  | case2 p later n hempty ih => exact ih hlined.tail
  | case3 p later n hfull hkind ih => exact ih hlined.children
  | case4 p later n hfull kind hkind ih =>
    have hafter := (List.pairwise_cons.mp hlined.pairwise).1
    by_cases hleaf : kind.isLeaf = true
    · rw [dif_pos hleaf] at ih
      rw [if_pos hleaf]
      refine List.pairwise_cons.mpr ⟨fun b hb => .inl ?_, ih hlined.tail⟩
      obtain ⟨_, q, hq, hstart, _⟩ := hlined.tail.inside_of_mem_emit hb
      exact Nat.le_trans (hafter q hq) hstart
    · rw [dif_neg hleaf] at ih
      rw [if_neg hleaf]
      refine List.pairwise_cons.mpr ⟨fun b hb => ?_, ih hlined.children⟩
      obtain ⟨_, q, hq, hstart, hstop⟩ := hlined.children.inside_of_mem_emit hb
      rcases List.mem_append.mp hq with hchild | hlater
      · obtain ⟨c, hc, rfl⟩ := List.mem_map.mp hchild
        have hroot := hlined.wellFormed p List.mem_cons_self
        obtain ⟨_, hchildStart, hchildStop⟩ := hroot.children hc
        refine .inr ⟨fun hisLeaf => hleaf (Highlight.isLeaf_iff.mp hisLeaf), ?_, ?_⟩
        · exact Nat.le_trans hchildStart hstart
        · exact Nat.le_trans hstop hchildStop
      · exact .inl (Nat.le_trans (hafter q hlater) hstart)

end Walk

/-- **The highlights of a well-formed tree are painted from the outside in.** The walk emits them in
the order of their starts, so the sort changes nothing. Each of them covers something within the
root, any two of them are nested or apart, none lies strictly within a later one, and whatever comes
after a comment, a string or an attribute starts where that has ended. -/
theorem highlights_are_nested {tree : SyntaxTree} (htree : tree.WellFormed) (language : Language)
    (text : Text) :
    tree.highlights language text = Walk.emit language text [⟨[], tree⟩] ∧
      (Walk.emit language text [⟨[], tree⟩]).Pairwise (fun a b => a.start ≤ b.start) ∧
      (∀ h ∈ tree.highlights language text, h.start < h.stop ∧
        tree.info.range.start ≤ h.start ∧ h.stop ≤ tree.info.range.stop) ∧
      (tree.highlights language text).Pairwise fun a b =>
        (a.Within b ∨ b.Within a ∨ a.Apart b) ∧ (a.Within b → b.Within a) ∧
          (a.IsLeaf → a.stop ≤ b.start) := by
  have hlined : Walk.Lined [⟨[], tree⟩] := ⟨by simpa using htree, List.pairwise_singleton _ _⟩
  have hinside : ∀ h ∈ Walk.emit language text [⟨[], tree⟩], h.start < h.stop ∧
      tree.info.range.start ≤ h.start ∧ h.stop ≤ tree.info.range.stop := by
    intro h hmem
    simpa using hlined.inside_of_mem_emit hmem
  have hprecedes : (Walk.emit language text [⟨[], tree⟩]).Pairwise fun a b =>
      a.start < a.stop ∧ b.start < b.stop ∧ a.Precedes b :=
    hlined.pairwise_precedes.imp_of_mem fun ha hb hab => ⟨(hinside _ ha).1, (hinside _ hb).1, hab⟩
  have hsorted : (Walk.emit language text [⟨[], tree⟩]).Pairwise fun a b => a.start ≤ b.start := by
    refine hprecedes.imp fun ⟨hfull, _, hab⟩ => ?_
    rcases hab with hafter | ⟨_, hwithin, _⟩
    · omega
    · exact hwithin
  have hsame : tree.highlights language text = Walk.emit language text [⟨[], tree⟩] :=
    List.mergeSort_of_pairwise (by simpa using hsorted)
  rw [hsame]
  refine ⟨rfl, hsorted, hinside, hprecedes.imp ?_⟩
  rintro a b ⟨hfullA, hfullB, hafter | ⟨hopen, hwithin⟩⟩
  · refine ⟨.inr (.inr (.inl hafter)), fun ⟨hstart, hstop⟩ => ?_, fun _ => hafter⟩
    omega
  · exact ⟨.inr (.inl hwithin), fun _ => hwithin, fun hleaf => absurd hleaf hopen⟩

/-- A macro call with a string among its arguments. The statement covers the call and its semicolon,
the content of the string is not highlighted on its own, and a number that is missing covers
nothing. -/
theorem highlights_are_nested_of_macro :
    let text := "m!(\"a\");".toList
    let tree : SyntaxTree :=
      .node ⟨"source_file", true, ⟨0, 8⟩, []⟩ [
        .node ⟨"expression_statement", true, ⟨0, 8⟩, []⟩ [
          .node ⟨"macro_invocation", true, ⟨0, 7⟩, []⟩ [
            .node ⟨"identifier", true, ⟨0, 1⟩, []⟩ [],
            .node ⟨"!", false, ⟨1, 2⟩, []⟩ [],
            .node ⟨"token_tree", true, ⟨2, 7⟩, []⟩ [
              .node ⟨"string_literal", true, ⟨3, 6⟩, []⟩ [
                .node ⟨"string_content", true, ⟨4, 5⟩, []⟩ []],
              .node ⟨"integer_literal", true, ⟨6, 6⟩, []⟩ []]],
          .node ⟨";", false, ⟨7, 8⟩, []⟩ []]]
    tree.WellFormed ∧ tree.highlights .rust text = [⟨0, 7, 8⟩, ⟨1, 2, 13⟩, ⟨3, 6, 1⟩] ∧
      (∀ h ∈ tree.highlights .rust text, h.start < h.stop ∧ 0 ≤ h.start ∧ h.stop ≤ 8) ∧
      (tree.highlights .rust text).Pairwise fun a b =>
        (a.Within b ∨ b.Within a ∨ a.Apart b) ∧ (a.Within b → b.Within a) ∧
          (a.IsLeaf → a.stop ≤ b.start) := by
  intro text tree
  have htree : tree.WellFormed := by simp [tree, SyntaxTree.wellFormed_iff, SyntaxTree.info]
  obtain ⟨hsame, _, hinside, hpairwise⟩ := highlights_are_nested htree .rust text
  have hemitted : Walk.emit .rust text [⟨[], tree⟩] = [⟨0, 7, 8⟩, ⟨1, 2, 13⟩, ⟨3, 6, 1⟩] := by
    rw [Walk.emit_eq_filterMap_nodes (by simp [SyntaxTree.isOpen])]
    decide +kernel
  exact ⟨htree, hsame.trans hemitted, hinside, hpairwise⟩

end Retint
