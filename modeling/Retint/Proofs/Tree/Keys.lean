import Retint.Proofs.Tree.Precedence
import Retint.Proofs.Tree.Preorder

/-!
# Keys of JSON

The key of a pair is highlighted as a property. A property is no leaf, so the walk goes on below the
key, and there each node is judged by its own kind unless it is the key of another pair. The content
of a key that is a string is therefore highlighted as a string, on top of the property.
-/

namespace Retint

/-- Different kinds have different tags. -/
theorem Kind.toTag_inj {a b : Kind} : a.toTag = b.toTag ↔ a = b := by
  constructor
  · intro h
    have ha := Kind.ofTag?_eq_some_iff.mpr h
    have hb := Kind.ofTag?_eq_some_iff.mpr (rfl : b.toTag = b.toTag)
    rw [Kind.ofTag?_eq_some_iff.mpr rfl] at ha
    exact Option.some.inj ha
  · rintro rfl
    rfl

namespace Node

/-- What a node is by its own kind, wherever it stands. -/
def ownKind (n : Node) : Option Kind := if n.named then n.generalKind else tokenKind n.kind

/-- A node is the key of the pair right above it. -/
structure IsPairKey (above : List Node) (n : Node) : Prop where
  named : n.named = true
  pair : n.pairKeyKind above = some .property

variable {text : Text} {above : List Node} {n : Node}

theorem isPairKey_of_cons {pair : Node} (hnamed : n.named = true) (hpair : pair.kind = "pair")
    (hkey : pair.isField .key n = true) : n.IsPairKey (pair :: above) :=
  ⟨hnamed, by simp [pairKeyKind, hpair, hkey]⟩

theorem classify_of_isPairKey (h : n.IsPairKey above) :
    n.classify .json text above = some .property := by
  simp [classify, contextKind, h.named, h.pair]

/-- In JSON a node that is no key is what it is by its own kind. -/
theorem classify_of_not_isPairKey (h : ¬ n.IsPairKey above) :
    n.classify .json text above = n.ownKind := by
  unfold classify ownKind
  split
  · rename_i hnamed
    have hnone : n.pairKeyKind above = none := by
      cases hkind : n.pairKeyKind above with
      | none => rfl
      | some kind =>
        have hproperty : kind = .property := by
          unfold pairKeyKind at hkind
          split at hkind
          · contradiction
          · split at hkind
            · exact (Option.some.inj hkind).symm
            · contradiction
        exact absurd ⟨hnamed, hproperty ▸ hkind⟩ h
    simp [contextKind, hnone]
  · rfl

/-- The general rules make nothing a property. -/
theorem generalKind_ne_property : n.generalKind ≠ some .property := by
  unfold generalKind
  repeat' split
  all_goals simp

/-- A token is a keyword or an operator, if it is anything. -/
theorem tokenKind_ne_property {kind : String} : tokenKind kind ≠ some .property := by
  unfold tokenKind
  dsimp only
  repeat' split
  all_goals simp

/-- No kind of its own makes a node a property. -/
theorem ownKind_ne_property : n.ownKind ≠ some .property := by
  unfold ownKind
  split
  · exact generalKind_ne_property
  · exact tokenKind_ne_property

/-- In JSON only keys are properties. -/
theorem classify_eq_property_iff :
    n.classify .json text above = some .property ↔ n.IsPairKey above := by
  constructor
  · intro hkind
    by_cases hkey : n.IsPairKey above
    · exact hkey
    · rw [classify_of_not_isPairKey hkey] at hkind
      exact absurd hkind ownKind_ne_property
  · exact classify_of_isPairKey

end Node

namespace SyntaxTree

variable {language : Language} {text : Text} {tree : SyntaxTree} {position : List Nat}
  {place : List Node × Node} {h : Highlight}

/-- The walk comes to a node that covers something: it went on below all nodes above. -/
structure IsReached (language : Language) (text : Text) (place : List Node × Node) : Prop where
  isOpen : isOpen language text place.1 = true
  full : place.2.isEmpty = false

/-- A node is shown if it is reached and classified. -/
theorem mem_shown_iff_of_nodeAt? (hplace : tree.nodeAt? [] position = some place) :
    (position, h) ∈ tree.shown language text ↔ IsReached language text place ∧
      ∃ kind, place.2.classify language text place.1 = some kind ∧
        h = ⟨place.2.range.start, place.2.range.stop, kind.toTag⟩ := by
  rw [mem_shown_iff]
  simp only [hplace, Option.some.injEq, exists_eq_left', ← visible_eq_some_iff]
  obtain ⟨above, n⟩ := place
  constructor
  · intro hvisible
    simp only [visible] at hvisible
    split at hvisible
    · rename_i hreached
      obtain ⟨kind, hkind, rfl⟩ := Option.map_eq_some_iff.mp hvisible
      simp only [Bool.and_eq_true, Bool.not_eq_true'] at hreached
      exact ⟨⟨hreached.1, hreached.2⟩, kind, hkind, rfl⟩
    · contradiction
  · rintro ⟨⟨hopen, hfull⟩, kind, hkind, rfl⟩
    simp only at hopen hfull hkind
    simp [visible, hopen, hfull, hkind]

/-- A node shows nothing but a property exactly if it is not reached, or is a key, or is nothing by
its own kind. -/
theorem shown_is_property_iff (hplace : tree.nodeAt? [] position = some place) :
    (∀ h, (position, h) ∈ tree.shown .json text → h.kind = Kind.property.toTag) ↔
      (IsReached .json text place → place.2.IsPairKey place.1 ∨ place.2.ownKind = none) := by
  simp only [mem_shown_iff_of_nodeAt? hplace]
  by_cases hkey : place.2.IsPairKey place.1
  · have hkind : place.2.classify .json text place.1 = some .property :=
      Node.classify_of_isPairKey hkey
    simp [hkey, hkind]
  · have hkind : place.2.classify .json text place.1 = place.2.ownKind :=
      Node.classify_of_not_isPairKey hkey
    rw [hkind]
    constructor
    · intro hshown hreached
      cases hown : place.2.ownKind with
      | none => exact .inr rfl
      | some kind =>
        have htag := hshown _ ⟨hreached, kind, hown, rfl⟩
        rw [Kind.toTag_inj.mp htag] at hown
        exact absurd hown Node.ownKind_ne_property
    · rintro hnone h ⟨hreached, kind, hown, rfl⟩
      rcases hnone hreached with h | hnone
      · exact absurd h hkey
      · rw [hnone] at hown
        contradiction

/-- The walk goes on below a key. -/
theorem IsReached.below_key {above : List Node} {key : Node} (hkey : key.IsPairKey above)
    (hreached : IsReached .json text (above, key)) :
    SyntaxTree.isOpen .json text (key :: above) = true := by
  have hopen := hreached.isOpen
  have hfull := hreached.full
  simp only at hopen hfull
  simp [SyntaxTree.isOpen, hopen, hfull, Node.classify_of_isPairKey hkey, Kind.isLeaf]

/-- The content of a string is a string by its own kind. -/
theorem ownKind_of_string_content {n : Node} (hnamed : n.named = true)
    (hkind : n.kind = "string_content") : n.ownKind = some .string := by
  have hsame : n.generalKind = Node.generalKind ⟨"string_content", true, ⟨0, 0⟩, []⟩ :=
    Node.generalKind_congr hkind
  rw [Node.ownKind, if_pos hnamed, hsame]
  decide +kernel

/-- The content right below a key is shown as a string. -/
theorem content_shown {pair key content : Node} {outer : List Node} {child : Nat}
    (hkey : key.IsPairKey (pair :: outer)) (hstring : key.kind = "string")
    (hreached : IsReached .json text (pair :: outer, key))
    (hcontent : tree.nodeAt? [] (position ++ [child]) = some (key :: pair :: outer, content))
    (hnamed : content.named = true) (hkind : content.kind = "string_content")
    (hfull : content.isEmpty = false) :
    (position ++ [child], ⟨content.range.start, content.range.stop, Kind.string.toTag⟩) ∈
      tree.shown .json text := by
  have hno : ¬ content.IsPairKey (key :: pair :: outer) := by
    rintro ⟨_, hpair⟩
    simp [Node.pairKeyKind, hstring] at hpair
  refine (mem_shown_iff_of_nodeAt? hcontent).mpr
    ⟨⟨hreached.below_key hkey, hfull⟩, .string, ?_, rfl⟩
  rw [Node.classify_of_not_isPairKey hno, ownKind_of_string_content hnamed hkind]

end SyntaxTree

/-- The highlights of a tree are what is shown in it. -/
theorem SyntaxTree.highlights_perm_shown (language : Language) (text : Text) (tree : SyntaxTree) :
    (tree.highlights language text).Perm ((tree.shown language text).map Prod.snd) := by
  rw [map_snd_shown]
  exact List.mergeSort_perm _ _

/-- **What is highlighted in a key of JSON.** The keys of the grammar are strings and numbers, so
they stand for rules of it and are named; a node that is not named is a token, which is classified
by its text alone, whatever field it occupies. The key of a pair shows a property exactly if the
walk comes to it, and nothing else. All that is shown in the key is a property exactly if each node
below it that the walk comes to is again a key or is nothing by its own kind. So it is not if the
key is a string with a content: the content is shown as a string. -/
theorem key_is_property_throughout_iff (text : Text) {tree : SyntaxTree} {position : List Nat}
    {pair key : Node} {outer : List Node}
    (hplace : tree.nodeAt? [] position = some (pair :: outer, key)) (hpair : pair.kind = "pair")
    (hkey : pair.isField .key key = true) (hnamed : key.named = true) :
    (tree.highlights .json text).Perm ((tree.shown .json text).map Prod.snd) ∧
      (∀ h, (position, h) ∈ tree.shown .json text ↔
        SyntaxTree.IsReached .json text (pair :: outer, key) ∧
          h = ⟨key.range.start, key.range.stop, Kind.property.toTag⟩) ∧
      ((∀ below h, (position ++ below, h) ∈ tree.shown .json text →
          h.kind = Kind.property.toTag) ↔
        ∀ below place, below ≠ [] → tree.nodeAt? [] (position ++ below) = some place →
          SyntaxTree.IsReached .json text place →
            place.2.IsPairKey place.1 ∨ place.2.ownKind = none) ∧
      (key.kind = "string" → SyntaxTree.IsReached .json text (pair :: outer, key) →
        ∀ child content,
          tree.nodeAt? [] (position ++ [child]) = some (key :: pair :: outer, content) →
          content.named = true → content.kind = "string_content" → content.isEmpty = false →
          (position ++ [child], ⟨content.range.start, content.range.stop, Kind.string.toTag⟩) ∈
            tree.shown .json text) := by
  have hisKey : key.IsPairKey (pair :: outer) := Node.isPairKey_of_cons hnamed hpair hkey
  refine ⟨tree.highlights_perm_shown .json text, fun h => ?_, ⟨fun hshown => ?_, fun hown => ?_⟩,
    fun hstring hreached child content hcontent hnamed hkind hfull => ?_⟩
  · rw [SyntaxTree.mem_shown_iff_of_nodeAt? hplace]
    simp [Node.classify_of_isPairKey hisKey]
  · intro below place _ hbelow
    exact (SyntaxTree.shown_is_property_iff hbelow).mp (hshown below)
  · intro below h hshown
    obtain ⟨place, hbelow, _⟩ := SyntaxTree.mem_shown_iff.mp hshown
    refine (SyntaxTree.shown_is_property_iff hbelow).mpr (fun hreached => ?_) h hshown
    by_cases hnil : below = []
    · subst hnil
      rw [List.append_nil, hplace] at hbelow
      obtain rfl := Option.some.inj hbelow
      exact .inl hisKey
    · exact hown below place hnil hbelow hreached
  · exact SyntaxTree.content_shown hisKey hstring hreached hcontent hnamed hkind hfull

/-- An object with two keys. The empty one is a property throughout, and in the other one the
content is shown as a string. -/
theorem key_is_property_throughout_iff_of_object :
    let text := "\x7b\"a\": 1, \"\": 2\x7d".toList
    let key : Node := ⟨"string", true, ⟨1, 4⟩, []⟩
    let content : Node := ⟨"string_content", true, ⟨2, 3⟩, []⟩
    let pair : Node := ⟨"pair", true, ⟨1, 7⟩, [(.key, ⟨1, 4⟩)]⟩
    let emptyKey : Node := ⟨"string", true, ⟨9, 11⟩, []⟩
    let emptyPair : Node := ⟨"pair", true, ⟨9, 14⟩, [(.key, ⟨9, 11⟩)]⟩
    let object : Node := ⟨"object", true, ⟨0, 15⟩, []⟩
    let document : Node := ⟨"document", true, ⟨0, 15⟩, []⟩
    let tree : SyntaxTree :=
      .node document [
        .node object [
          .node ⟨"\x7b", false, ⟨0, 1⟩, []⟩ [],
          .node pair [
            .node key [
              .node ⟨"\"", false, ⟨1, 2⟩, []⟩ [], .node content [],
              .node ⟨"\"", false, ⟨3, 4⟩, []⟩ []],
            .node ⟨":", false, ⟨4, 5⟩, []⟩ [],
            .node ⟨"number", true, ⟨6, 7⟩, []⟩ []],
          .node ⟨",", false, ⟨7, 8⟩, []⟩ [],
          .node emptyPair [
            .node emptyKey [
              .node ⟨"\"", false, ⟨9, 10⟩, []⟩ [], .node ⟨"\"", false, ⟨10, 11⟩, []⟩ []],
            .node ⟨":", false, ⟨11, 12⟩, []⟩ [],
            .node ⟨"number", true, ⟨13, 14⟩, []⟩ []],
          .node ⟨"\x7d", false, ⟨14, 15⟩, []⟩ []]]
    tree.nodeAt? [] [0, 1, 0] = some ([pair, object, document], key) ∧
      tree.nodeAt? [] [0, 3, 0] = some ([emptyPair, object, document], emptyKey) ∧
      pair.isField .key key = true ∧ emptyPair.isField .key emptyKey = true ∧
      ([0, 1, 0, 1], ⟨2, 3, Kind.string.toTag⟩) ∈ tree.shown .json text ∧
      (∀ below h, ([0, 3, 0] ++ below, h) ∈ tree.shown .json text →
        h.kind = Kind.property.toTag) := by
  intro text key content pair emptyKey emptyPair object document tree
  have hplace : tree.nodeAt? [] [0, 1, 0] = some ([pair, object, document], key) := by rfl
  have hemptyPlace : tree.nodeAt? [] [0, 3, 0] =
      some ([emptyPair, object, document], emptyKey) := by
    rfl
  have hkey : pair.isField .key key = true := by decide
  have hemptyKey : emptyPair.isField .key emptyKey = true := by decide
  obtain ⟨_, _, _, hcontent⟩ := key_is_property_throughout_iff text hplace rfl hkey rfl
  obtain ⟨_, _, hthroughout, _⟩ :=
    key_is_property_throughout_iff text hemptyPlace rfl hemptyKey rfl
  have hreached : SyntaxTree.IsReached .json text ([pair, object, document], key) :=
    ⟨by decide +kernel, by decide⟩
  refine ⟨hplace, hemptyPlace, hkey, hemptyKey, ?_, ?_⟩
  · exact hcontent rfl hreached 1 content rfl rfl rfl (by decide)
  · refine hthroughout.mpr fun below place hbelow hat _ => .inr ?_
    -- Below the empty key there are its two quotes, and nothing below these.
    match below with
    | [] => contradiction
    | [0] | [1] =>
      obtain rfl := Option.some.inj hat
      decide +kernel
    | (child + 2) :: _ | 0 :: _ :: _ | 1 :: _ :: _ => simp [tree, SyntaxTree.nodeAt?] at hat

/-- What is highlighted in a key of JSON is not always a property: of the key of a number, the
letter between the quotes is a string. -/
theorem key_content_is_string :
    ¬ ∀ (text : Text) (tree : SyntaxTree) (position : List Nat) (pair key : Node)
      (outer : List Node), tree.nodeAt? [] position = some (pair :: outer, key) →
      pair.kind = "pair" → pair.isField .key key = true → key.named = true →
      ∀ below h, (position ++ below, h) ∈ tree.shown .json text →
        h.kind = Kind.property.toTag := by
  intro h
  let key : Node := ⟨"string", true, ⟨1, 4⟩, []⟩
  let content : Node := ⟨"string_content", true, ⟨2, 3⟩, []⟩
  let pair : Node := ⟨"pair", true, ⟨1, 7⟩, [(.key, ⟨1, 4⟩)]⟩
  let object : Node := ⟨"object", true, ⟨0, 8⟩, []⟩
  let document : Node := ⟨"document", true, ⟨0, 8⟩, []⟩
  let tree : SyntaxTree :=
    .node document [
      .node object [
        .node ⟨"\x7b", false, ⟨0, 1⟩, []⟩ [],
        .node pair [
          .node key [
            .node ⟨"\"", false, ⟨1, 2⟩, []⟩ [], .node content [],
            .node ⟨"\"", false, ⟨3, 4⟩, []⟩ []],
          .node ⟨":", false, ⟨4, 5⟩, []⟩ [],
          .node ⟨"number", true, ⟨6, 7⟩, []⟩ []],
        .node ⟨"\x7d", false, ⟨7, 8⟩, []⟩ []]]
  have hshown : ([0, 1, 0] ++ [1], ⟨2, 3, Kind.string.toTag⟩) ∈
      tree.shown .json "\x7b\"a\": 1\x7d".toList := by
    decide +kernel
  have htag : Kind.string.toTag = Kind.property.toTag :=
    h _ tree [0, 1, 0] pair key [object, document] rfl rfl (by decide) rfl [1] _ hshown
  exact absurd (Kind.toTag_inj.mp htag) (by decide)

end Retint
