import Retint.Proofs.Session.Acceptance
import Retint.Proofs.Tree.Places

/-!
# Parsing an edit and parsing the whole text

A session that accepts an edit ends up where a new session ends up that is given the edited text as
a whole, if the grammar grows the same tree for both. So a session that is led through any number
of texts by the edits between them rejects none of them, and at each of them it is as good as new.
-/

namespace Retint.Session

/-- What a new session answers for a whole text, and what it is afterwards. -/
def fresh (grow : Grow Id) (language : Language) (text : Text) :
    Except ParserError (List Highlight) × Session :=
  (start.setLanguage language).parseFull grow text

/-- A grammar that grows the same tree whether or not it starts from an older one. -/
def IsSteady (grow : Grow Id) (language : Language) : Prop :=
  ∀ text old, grow language text (some old) = grow language text none

/-- A session that retains a text and its tree. With a steady grammar it is what a new session is
that was given the whole text, and this one answered the highlights of the tree. -/
structure Retains (grow : Grow Id) (s : Session) (language : Language) (text : Text)
    (tree : SyntaxTree) : Prop where
  state : s = ⟨some language, some tree, text⟩
  as_new : IsSteady grow language →
    fresh grow language text = (.ok (tree.highlights language text), s)

/-! ### Chains of texts -/

/-- What a session did with one text of a chain. -/
structure Visit where
  /-- The text. -/
  text : Text
  /-- The session's answer; none if the text was the one before, so that nothing was asked. -/
  answer : Option (Except ParserError (List Highlight))
  /-- The session afterwards. -/
  after : Session

/-- A session is told how a text differs from the one before. -/
def visit (grow : Grow Id) (s : Session) (old new : Text) : Visit :=
  match Edit.between? old new with
  | none => ⟨new, none, s⟩
  | some e =>
    let (answer, after) := s.parseIncremental grow ((e.insertedText? new).getD []) e
    ⟨new, some answer, after⟩

/-- A session is led through texts by the edits between them, from a text before them on. -/
def visitAll (grow : Grow Id) (s : Session) (old : Text) : List Text → List Visit
  | [] => []
  | new :: later => s.visit grow old new :: (s.visit grow old new).after.visitAll grow new later

/-- A session is given one text as a whole and is led through others by the edits between them. -/
def chain (grow : Grow Id) (s : Session) (first : Text) (later : List Text) : List Visit :=
  let (answer, after) := s.parseFull grow first
  ⟨first, some answer, after⟩ :: after.visitAll grow first later

/-- A text that the session did not reject: it retains the text and answered its highlights, if it
was asked. -/
def Visit.IsRight (grow : Grow Id) (language : Language) (v : Visit) : Prop :=
  ∃ tree, v.after.Retains grow language v.text tree ∧
    ∀ answer, v.answer = some answer → answer = .ok (tree.highlights language v.text)

variable {grow : Grow Id} {s : Session} {language : Language} {text old new : Text}
  {tree : SyntaxTree}

/-- A new session for whose text a tree is grown. -/
theorem fresh_of_grow (hgrow : grow language text none = some tree) :
    fresh grow language text =
      (.ok (tree.highlights language text), ⟨some language, some tree, text⟩) :=
  parseFull_of_grow rfl hgrow

/-- A session that keeps the tree that was grown for a text retains both. -/
theorem retains_of_grow {from? : Option (SyntaxTree × TreeEdit)}
    (hgrow : grow language text from? = some tree) :
    Retains grow ⟨some language, some tree, text⟩ language text tree := by
  refine ⟨rfl, fun hsteady => fresh_of_grow ?_⟩
  cases from? with
  | none => exact hgrow
  | some old =>
    rw [← hsteady text old]
    exact hgrow

/-- A session that retains a text is led on to another one. -/
theorem Retains.visit (h : Retains grow s language old tree)
    (hgrows : ∀ text from?, (grow language text from?).isSome) (new : Text) :
    (s.visit grow old new).text = new ∧ (s.visit grow old new).IsRight grow language := by
  obtain ⟨rfl⟩ := h.state
  unfold Session.visit
  cases hedit : Edit.between? old new with
  | none =>
    have hsame : old = new := Edit.between?_eq_none_iff.mp hedit
    subst hsame
    exact ⟨rfl, tree, h, by simp⟩
  | some e =>
    obtain ⟨front, removed, inserted, back, hparts⟩ := Edit.exists_parts_of_between? hedit
    obtain ⟨next, hgrow⟩ :=
      Option.isSome_iff_exists.mp (hgrows new (some (tree, treeEdit _ e new)))
    have hparse := parseIncremental_of_grow (s := ⟨some language, some tree, old⟩) rfl rfl hparts
      hgrow
    simp only [hparts.insertedText?_eq, Option.getD_some, hparse]
    refine ⟨trivial, next, retains_of_grow hgrow, ?_⟩
    rintro answer ⟨⟩
    rfl

/-- A session that retains a text is led on through any others. -/
theorem Retains.visitAll (h : Retains grow s language old tree)
    (hgrows : ∀ text from?, (grow language text from?).isSome) (later : List Text) :
    (s.visitAll grow old later).map Visit.text = later ∧
      ∀ v ∈ s.visitAll grow old later, v.IsRight grow language := by
  induction later generalizing s old tree with
  | nil => simp [Session.visitAll]
  | cons new later ih =>
    obtain ⟨htext, hright⟩ := h.visit hgrows new
    obtain ⟨next, hnext, _⟩ := hright
    obtain ⟨htexts, hlater⟩ := ih (htext ▸ hnext)
    constructor
    · simp only [Session.visitAll, List.map_cons, htext, htexts]
    · intro v hv
      rcases List.mem_cons.mp hv with hv | hv
      · rw [hv]
        exact (h.visit hgrows new).2
      · exact hlater v hv

/-- A session with a language is led through any texts, the first of which it is given as a
whole. -/
theorem chain_isRight (hlanguage : s.language = some language)
    (hgrows : ∀ text from?, (grow language text from?).isSome) (first : Text) (later : List Text) :
    (s.chain grow first later).map Visit.text = first :: later ∧
      ∀ v ∈ s.chain grow first later, v.IsRight grow language := by
  obtain ⟨tree, hgrow⟩ := Option.isSome_iff_exists.mp (hgrows first none)
  have hretains := retains_of_grow hgrow
  obtain ⟨htexts, hlater⟩ := hretains.visitAll hgrows later
  simp only [chain, parseFull_of_grow hlanguage hgrow]
  constructor
  · rw [List.map_cons, htexts]
  · intro v hv
    rcases List.mem_cons.mp hv with hv | hv
    · subst hv
      refine ⟨tree, hretains, ?_⟩
      rintro answer ⟨⟩
      rfl
    · exact hlater v hv

/-- A session accepts an edit: the edited text is what stands before the region, what is inserted
and what stands after the region. If the same tree is grown for it from the old tree and from
nothing, the session answers and becomes what a new one does that is given the whole text. -/
theorem parseIncremental_eq_fresh {changed : Text} {e : Edit} {oldTree : SyntaxTree}
    (hlanguage : s.language = some language) (htree : s.tree = some oldTree)
    (haccepted : refusal? s.text changed e = none) :
    ∃ front back, s.text.slice? 0 e.start = some front ∧
      s.text.slice? e.oldEnd s.text.byteSize = some back ∧
      ∀ tree, grow language (front ++ changed ++ back)
          (some (oldTree, s.treeEdit e (front ++ changed ++ back))) = some tree →
        grow language (front ++ changed ++ back) none = some tree →
        s.parseIncremental grow changed e = fresh grow language (front ++ changed ++ back) ∧
          (s.parseIncremental grow changed e).2 =
            ⟨some language, some tree, front ++ changed ++ back⟩ := by
  obtain ⟨front, removed, back, hparts⟩ := (refusal?_eq_none_iff.mp haccepted).exists_parts
  refine ⟨front, back, hparts.slice?_front, hparts.slice?_back, fun tree hedited hwhole => ?_⟩
  have hparse := parseIncremental_of_grow hlanguage htree hparts hedited
  rw [hparse, fresh_of_grow hwhole]
  exact ⟨rfl, rfl⟩

/-- **Parsing an edit is as good as parsing the whole text.** Whatever a session did before, for
every edit that it accepts it answers and becomes what a new session does that is given the edited
text, if the same tree is grown for both. And with a grammar that always grows a tree, a session
that is given a text as a whole and is led through any others by the edits between them rejects
none of them and retains each of them in turn. -/
theorem incremental_agrees_with_whole (grow : Grow Id) (language : Language) :
    (∀ (s : Session) (changed : Text) (e : Edit) (oldTree : SyntaxTree),
      s.language = some language → s.tree = some oldTree → refusal? s.text changed e = none →
      ∃ front back, s.text.slice? 0 e.start = some front ∧
        s.text.slice? e.oldEnd s.text.byteSize = some back ∧
        ∀ tree, grow language (front ++ changed ++ back)
            (some (oldTree, s.treeEdit e (front ++ changed ++ back))) = some tree →
          grow language (front ++ changed ++ back) none = some tree →
          s.parseIncremental grow changed e = fresh grow language (front ++ changed ++ back) ∧
            (s.parseIncremental grow changed e).2 =
              ⟨some language, some tree, front ++ changed ++ back⟩) ∧
    ((∀ text from?, (grow language text from?).isSome) →
      ∀ (s : Session) (first : Text) (later : List Text), s.language = some language →
        (s.chain grow first later).map Visit.text = first :: later ∧
          ∀ v ∈ s.chain grow first later, v.IsRight grow language) := by
  constructor
  · intro s changed e oldTree hlanguage htree haccepted
    exact parseIncremental_eq_fresh hlanguage htree haccepted
  · intro hgrows s first later hlanguage
    exact chain_isRight hlanguage hgrows first later

/-- An edit of a statement that replaces more than it has to, and a chain in which a text comes
twice. -/
theorem incremental_agrees_with_whole_of_wide_edit :
    let grow : Grow Id := fun _ text _ => some (.ofStatement text)
    let s : Session := ⟨some .rust, some (.ofStatement ['A', 'B', ';']), ['A', 'B', ';']⟩
    let new := ['é', 'A', 'B', ';']
    let later := [['a', ';'], ['a', ';'], ['é', 'a', ';']]
    refusal? s.text ['é', 'A'] ⟨0, 1, 3⟩ = none ∧
      Edit.between? s.text new ≠ some ⟨0, 1, 3⟩ ∧
      s.parseIncremental grow ['é', 'A'] ⟨0, 1, 3⟩ = fresh grow .rust new ∧
      (s.parseIncremental grow ['é', 'A'] ⟨0, 1, 3⟩).2 =
        ⟨some .rust, some (.ofStatement new), new⟩ ∧
      (∀ text from?, (grow .rust text from?).isSome) ∧ IsSteady grow .rust ∧
      (s.chain grow [] later).map Visit.text = [] :: later ∧
      ∀ v ∈ s.chain grow [] later, v.IsRight grow .rust := by
  intro grow s new later
  have haccepted : refusal? s.text ['é', 'A'] ⟨0, 1, 3⟩ = none := by decide
  have hother : Edit.between? s.text new ≠ some ⟨0, 1, 3⟩ := by decide
  have hgrows : ∀ text from?, (grow .rust text from?).isSome := fun _ _ => rfl
  obtain ⟨hedit, hchain⟩ := incremental_agrees_with_whole grow .rust
  obtain ⟨front, back, hfront, hback, hagrees⟩ := hedit s ['é', 'A'] ⟨0, 1, 3⟩ _ rfl rfl haccepted
  have hnil : [] = front := Option.some.inj hfront
  have hrest : ['B', ';'] = back := Option.some.inj hback
  subst hnil hrest
  obtain ⟨hanswer, hstate⟩ := hagrees (.ofStatement new) rfl rfl
  obtain ⟨htexts, hright⟩ := hchain hgrows s [] later rfl
  exact ⟨haccepted, hother, hanswer, hstate, hgrows, fun _ _ => rfl, htexts, hright⟩

end Retint.Session
