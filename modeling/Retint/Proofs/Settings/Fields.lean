import Mathlib.Logic.Relation
import Retint.Proofs.Files.Following
import Retint.Proofs.Json.Printing
import Retint.Proofs.Settings.Records
import Retint.Settings.File

/-!
# The fields of a settings file

A settings file that is an object is decoded field by field: each field has the value under its own
key, or its default if there is no such key, whatever else is in the file. So the order of the
members does not matter, and members that name no field change nothing. A key that names a field
must not stand twice, and a key must have a text.
-/

namespace Retint

open Json (Value IsRecord IsField IsStrange Extends)

variable {members members' inner inner' front back : List (Option Text × Value)} {v v' : Value}
  {k : Option Text} {key : String}

/-! ### Sections by their fields -/

theorem HighlightSettings.ofValue?_object_eq_some_iff {s : HighlightSettings} :
    ofValue? (.object members) = some s ↔ IsRecord keys members ∧
      IsField members "scroll_debounce_ms" Value.toUInt64? 50 s.scrollDebounce ∧
      IsField members "default_language" Value.toLanguage? .rust s.defaultLanguage ∧
      IsField members "line_height" Value.toFloat32? 16 s.lineHeight := by
  unfold ofValue?
  obtain ⟨hrecord, h⟩ | ⟨hrecord, h⟩ := Json.record?_object keys members
  · rw [hrecord, ← Json.field?_eq_some_iff h (by decide), ← Json.field?_eq_some_iff h (by decide),
      ← Json.field?_eq_some_iff h (by decide)]
    simp only [Option.bind_eq_bind, Option.bind_some, Option.bind_eq_some_iff]
    constructor
    · rintro ⟨debounce, hdebounce, language, hlanguage, height, hheight, hs⟩
      obtain rfl := Option.some.inj hs
      exact ⟨h, hdebounce, hlanguage, hheight⟩
    · rintro ⟨_, hdebounce, hlanguage, hheight⟩
      exact ⟨_, hdebounce, _, hlanguage, _, hheight, rfl⟩
  · rw [hrecord]
    exact ⟨nofun, fun hs => absurd hs.1 h⟩

theorem Theme.mem_keys (k : Kind) : k.name ∈ Theme.keys :=
  List.mem_cons_of_mem _ (List.mem_map_of_mem k.mem_all)

theorem Theme.ofValue?_object_eq_some_iff {theme : Theme} :
    ofValue? (.object members) = some theme ↔ IsRecord keys members ∧
      IsField members plainKey Value.toColor? none theme.plain ∧
      ∀ k : Kind, IsField members k.name Value.toColor? none (theme.color k) := by
  unfold ofValue?
  obtain ⟨hrecord, h⟩ | ⟨hrecord, h⟩ := Json.record?_object keys members
  · have hfield : ∀ (k : Kind) x,
        Value.field? (Json.valueUnder? members) k.name Value.toColor? none = some x ↔
          IsField members k.name Value.toColor? none x :=
      fun k x => Json.field?_eq_some_iff h (mem_keys k)
    rw [hrecord, ← Json.field?_eq_some_iff h List.mem_cons_self]
    simp only [← hfield, Option.bind_eq_bind, Option.bind_some, Option.bind_eq_some_iff]
    constructor
    · rintro ⟨plain, hplain, htheme⟩
      rw [Option.ite_none_right_eq_some] at htheme
      obtain ⟨hall, htheme⟩ := htheme
      obtain rfl := Option.some.inj htheme
      refine ⟨h, hplain, fun k => ?_⟩
      obtain ⟨color, hcolor⟩ := Option.isSome_iff_exists.mp (List.all_eq_true.mp hall k k.mem_all)
      simp only [hcolor, Option.getD_some]
    · rintro ⟨_, hplain, hcolor⟩
      refine ⟨_, hplain, ?_⟩
      rw [if_pos (List.all_eq_true.mpr fun k _ => by rw [hcolor k]; rfl)]
      simp only [hcolor, Option.getD_some]
  · rw [hrecord]
    exact ⟨nofun, fun hs => absurd hs.1 h⟩

theorem Settings.ofValue?_object_eq_some_iff {s : Settings} :
    ofValue? (.object members) = some s ↔ IsRecord keys members ∧
      IsField members "highlight" HighlightSettings.ofValue? {} s.highlight ∧
      IsField members "theme" Theme.ofValue? .empty s.theme := by
  unfold ofValue?
  obtain ⟨hrecord, h⟩ | ⟨hrecord, h⟩ := Json.record?_object keys members
  · rw [hrecord, ← Json.field?_eq_some_iff h (by decide), ← Json.field?_eq_some_iff h (by decide)]
    simp only [Option.bind_eq_bind, Option.bind_some, Option.bind_eq_some_iff]
    constructor
    · rintro ⟨highlight, hhighlight, theme, htheme, hs⟩
      obtain rfl := Option.some.inj hs
      exact ⟨h, hhighlight, htheme⟩
    · rintro ⟨_, hhighlight, htheme⟩
      exact ⟨_, hhighlight, _, htheme, rfl⟩
  · rw [hrecord]
    exact ⟨nofun, fun hs => absurd hs.1 h⟩

/-! ### Files with the same fields -/

/-- A file has the fields of another one: its members, or those of one of its sections, stand in
another order, or there are more of them, which name no field. -/
inductive IsRearranged :
    List (Option Text × Value) → List (Option Text × Value) → Prop
  | file {members members' : List (Option Text × Value)}
      (h : Extends Settings.keys members members') : IsRearranged members members'
  | highlight {front inner inner' back : List (Option Text × Value)}
      (h : Extends HighlightSettings.keys inner inner') :
      IsRearranged (front ++ (some "highlight".toList, .object inner) :: back)
        (front ++ (some "highlight".toList, .object inner') :: back)
  | theme {front inner inner' back : List (Option Text × Value)}
      (h : Extends Theme.keys inner inner') :
      IsRearranged (front ++ (some "theme".toList, .object inner) :: back)
        (front ++ (some "theme".toList, .object inner') :: back)

theorem HighlightSettings.ofValue?_of_extends (h : Extends keys inner inner') :
    ofValue? (.object inner') = ofValue? (.object inner) := by
  ext s
  simp only [ofValue?_object_eq_some_iff]
  rw [h.isRecord_iff, h.isField_iff (by decide), h.isField_iff (by decide),
    h.isField_iff (by decide)]

theorem Theme.ofValue?_of_extends (h : Extends keys inner inner') :
    ofValue? (.object inner') = ofValue? (.object inner) := by
  apply Option.ext
  intro theme
  have hcolor : ∀ k : Kind, IsField inner' k.name Value.toColor? none (theme.color k) ↔
      IsField inner k.name Value.toColor? none (theme.color k) :=
    fun k => h.isField_iff (mem_keys k)
  simp only [ofValue?_object_eq_some_iff, hcolor]
  rw [h.isRecord_iff, h.isField_iff List.mem_cons_self]

/-- A value that writes the same in its field may stand in for another one. -/
theorem Json.IsField.replace {α : Type} {form? : Value → Option α} {default x : α}
    (hform : k = some key.toList → form? v = form? v')
    (h : IsField (front ++ (k, v) :: back) key form? default x) :
    IsField (front ++ (k, v') :: back) key form? default x := by
  have hmem : ∀ w u, (some key.toList, w) ∈ front ++ (k, u) :: back ↔
      (some key.toList, w) ∈ front ∨ (some key.toList = k ∧ w = u) ∨
        (some key.toList, w) ∈ back := by
    intro w u
    simp only [List.mem_append, List.mem_cons, Prod.mk.injEq]
  obtain ⟨hpresent, habsent⟩ := h
  simp only [hmem] at hpresent habsent
  refine ⟨fun w hw => ?_, fun hnone => habsent fun w hw => ?_⟩
  · rw [hmem] at hw
    rcases hw with hw | ⟨hk, rfl⟩ | hw
    · exact hpresent w (.inl hw)
    · rw [← hform hk.symm]
      exact hpresent v (.inr (.inl ⟨hk, rfl⟩))
    · exact hpresent w (.inr (.inr hw))
  · simp only [hmem] at hnone
    rcases hw with hw | ⟨hk, rfl⟩ | hw
    · exact hnone w (.inl hw)
    · exact hnone v' (.inr (.inl ⟨hk, rfl⟩))
    · exact hnone w (.inr (.inr hw))

/-- Settings are the same if the value of one section is replaced by one that writes the same. -/
theorem Settings.ofValue?_replace
    (hhighlight : k = some "highlight".toList →
      HighlightSettings.ofValue? v = HighlightSettings.ofValue? v')
    (htheme : k = some "theme".toList → Theme.ofValue? v = Theme.ofValue? v') :
    ofValue? (.object (front ++ (k, v) :: back)) =
      ofValue? (.object (front ++ (k, v') :: back)) := by
  have hrecord : ∀ v v', IsRecord keys (front ++ (k, v) :: back) →
      IsRecord keys (front ++ (k, v') :: back) := by
    rintro v v' ⟨htext, honce⟩
    rw [List.map_append, List.map_cons] at htext honce
    constructor <;> rwa [List.map_append, List.map_cons]
  apply Option.ext
  intro s
  simp only [ofValue?_object_eq_some_iff]
  constructor
  · rintro ⟨h, hfirst, hsecond⟩
    exact ⟨hrecord v v' h, hfirst.replace hhighlight, hsecond.replace htheme⟩
  · rintro ⟨h, hfirst, hsecond⟩
    exact ⟨hrecord v' v h, hfirst.replace fun hk => (hhighlight hk).symm,
      hsecond.replace fun hk => (htheme hk).symm⟩

/-- Files with the same fields write the same settings. -/
theorem Settings.ofValue?_of_isRearranged (h : IsRearranged members members') :
    ofValue? (.object members') = ofValue? (.object members) := by
  cases h with
  | file h =>
    apply Option.ext
    intro s
    simp only [ofValue?_object_eq_some_iff]
    rw [h.isRecord_iff, h.isField_iff (by decide), h.isField_iff (by decide)]
  | highlight h =>
    exact ofValue?_replace (fun _ => HighlightSettings.ofValue?_of_extends h)
      (fun hk => absurd hk (by decide))
  | theme h =>
    exact ofValue?_replace (fun hk => absurd hk (by decide))
      (fun _ => Theme.ofValue?_of_extends h)

theorem Settings.ofValue?_of_reflTransGen
    (h : Relation.ReflTransGen IsRearranged members members') :
    ofValue? (.object members') = ofValue? (.object members) := by
  induction h with
  | refl => rfl
  | tail _ hlast ih => rw [ofValue?_of_isRearranged hlast, ih]

/-! ### Sections -/

/-- The members of a section, which has none if it is missing. -/
def IsSection (members : List (Option Text × Value)) (key : String)
    (inner : List (Option Text × Value)) : Prop :=
  (some key.toList, .object inner) ∈ members ∨ inner = [] ∧ ∀ v, (some key.toList, v) ∉ members

/-- What a section is can be told from its members, be it there or not. -/
theorem Json.IsField.ofSection {α : Type} {form? : Value → Option α} {default x : α}
    (h : IsField members key form? default x) (hempty : form? (.object []) = some default)
    (hsection : IsSection members key inner) : form? (.object inner) = some x := by
  rcases hsection with hmem | ⟨rfl, habsent⟩
  · exact h.present _ hmem
  · rw [h.absent habsent, hempty]

/-- A file system with nothing but one file, which holds a text. -/
def FileSystem.holding (t : Text) : FileSystem :=
  ⟨[(["f".toList], .file (String.ofList t).toUTF8)], []⟩

theorem FileSystem.readText_holding (t : Text) : (holding t).readText "f".toList = .ok t :=
  readText_of_stat rfl

/-- A key stands twice among some members, whatever stands between. -/
def IsTwice (members : List (Option Text × Value)) (key : String) : Prop :=
  ∃ v w, [(some key.toList, v), (some key.toList, w)].Sublist members

namespace Settings

/-- A file that holds a value is loaded as the settings that the value writes. -/
theorem load_of_read {fs : FileSystem} {path t : Text} (hread : fs.readText path = .ok t)
    (hvalue : Value.read? t = some v) :
    load fs path = match ofValue? v with
      | none => .error .malformed
      | some s => .ok s := by
  have hread? : read? t = ofValue? v := by rw [read?, hvalue, Option.bind_some]
  rw [load, hread]
  dsimp only
  cases hs : ofValue? v with
  | none => rw [hread?, hs]
  | some s => rw [hread?, hs]

theorem ofValue?_of_load {fs : FileSystem} {path t : Text} {s : Settings}
    (hread : fs.readText path = .ok t) (hvalue : Value.read? t = some v)
    (hload : load fs path = .ok s) : ofValue? v = some s := by
  rw [load_of_read hread hvalue] at hload
  split at hload
  · contradiction
  · rename_i s' hs
    rw [hs, Except.ok.inj hload]

/-- An object that is no record, or has a section that is none, writes no settings. -/
theorem ofValue?_eq_none_of_section
    (h : ¬ IsRecord keys members ∨
      (∃ inner, (some "highlight".toList, .object inner) ∈ members ∧
        ¬ IsRecord HighlightSettings.keys inner) ∨
      ∃ inner, (some "theme".toList, .object inner) ∈ members ∧ ¬ IsRecord Theme.keys inner) :
    ofValue? (.object members) = none := by
  rw [Option.eq_none_iff_forall_ne_some]
  intro s hs
  obtain ⟨hrecord, hhighlight, htheme⟩ := ofValue?_object_eq_some_iff.mp hs
  rcases h with h | ⟨inner, hmem, h⟩ | ⟨inner, hmem, h⟩
  · exact h hrecord
  · exact h (HighlightSettings.ofValue?_object_eq_some_iff.mp (hhighlight.present _ hmem)).1
  · exact h (Theme.ofValue?_object_eq_some_iff.mp (htheme.present _ hmem)).1

/-- **Settings files are decoded field by field.** Take a file that holds a JSON object. If settings
are loaded from it and its sections are objects as far as they are there, then each field has the
value under its own key in its section, in the form that the field asks for, or else its default,
whatever other members there are. The keys of the colours are the names of the kinds, `type` the one
of type names and `macro` the one of macro names. Any file with the same members in another order,
of the object or of its sections, or with more members under keys that name no field, loads the
same. A file with a key of a field twice in one object is malformed as a whole, and so is one with a
key that has no text, which is the only kind of unknown key that does any harm. -/
theorem fields_are_decoded_by_key {fs : FileSystem} {path t : Text}
    (hread : fs.readText path = .ok t) (hvalue : Value.read? t = some (.object members)) :
    (∀ s, load fs path = .ok s →
      (∀ inner, IsSection members "highlight" inner →
        IsField inner "scroll_debounce_ms" Value.toUInt64? 50 s.highlight.scrollDebounce ∧
        IsField inner "default_language" Value.toLanguage? .rust s.highlight.defaultLanguage ∧
        IsField inner "line_height" Value.toFloat32? 16 s.highlight.lineHeight) ∧
      ∀ inner, IsSection members "theme" inner →
        IsField inner "default_fg" Value.toColor? none s.theme.plain ∧
        IsField inner "type" Value.toColor? none (s.theme.color .typeName) ∧
        IsField inner "macro" Value.toColor? none (s.theme.color .macroName) ∧
        ∀ k : Kind, IsField inner k.name Value.toColor? none (s.theme.color k)) ∧
    (∀ (fs' : FileSystem) (path' t' : Text) (members' : List (Option Text × Value)),
      Relation.ReflTransGen IsRearranged members members' →
      fs'.readText path' = .ok t' → Value.read? t' = some (.object members') →
      load fs' path' = load fs path) ∧
    ((∃ key ∈ keys, IsTwice members key) ∨
      (∃ inner, (some "highlight".toList, .object inner) ∈ members ∧
        ∃ key ∈ HighlightSettings.keys, IsTwice inner key) ∨
      (∃ inner, (some "theme".toList, .object inner) ∈ members ∧
        ∃ key ∈ Theme.keys, IsTwice inner key) →
      load fs path = .error .malformed) ∧
    ((∃ v, (none, v) ∈ members) ∨
      (∃ inner, (some "highlight".toList, .object inner) ∈ members ∧ ∃ v, (none, v) ∈ inner) ∨
      (∃ inner, (some "theme".toList, .object inner) ∈ members ∧ ∃ v, (none, v) ∈ inner) →
      load fs path = .error .malformed) := by
  have hmalformed : ofValue? (.object members) = none → load fs path = .error .malformed := by
    intro h
    rw [load_of_read hread hvalue, h]
  have htwice : ∀ {keys members}, (∃ key ∈ keys, IsTwice members key) →
      ¬ IsRecord keys members := by
    rintro keys members ⟨key, hkey, v, w, htwice⟩
    exact Json.not_isRecord_of_twice hkey htwice
  have htext : ∀ {keys members}, (∃ v : Value, (none, v) ∈ members) →
      ¬ IsRecord keys members := by
    rintro keys members ⟨v, hv⟩ h
    exact h.hasText none (List.mem_map_of_mem hv) rfl
  refine ⟨fun s hload => ?_, ?_, fun h => ?_, fun h => ?_⟩
  · obtain ⟨_, hhighlight, htheme⟩ :=
      ofValue?_object_eq_some_iff.mp (ofValue?_of_load hread hvalue hload)
    refine ⟨fun inner hsection => ?_, fun inner hsection => ?_⟩
    · have hinner := hhighlight.ofSection (by decide +kernel) hsection
      exact (HighlightSettings.ofValue?_object_eq_some_iff.mp hinner).2
    · have hinner := htheme.ofSection (by decide) hsection
      obtain ⟨_, hplain, hcolor⟩ := Theme.ofValue?_object_eq_some_iff.mp hinner
      exact ⟨hplain, hcolor .typeName, hcolor .macroName, hcolor⟩
  · intro fs' path' t' members' hrearranged hread' hvalue'
    rw [load_of_read hread' hvalue', load_of_read hread hvalue,
      ofValue?_of_reflTransGen hrearranged]
  · apply hmalformed
    apply ofValue?_eq_none_of_section
    rcases h with h | ⟨inner, hmem, h⟩ | ⟨inner, hmem, h⟩
    · exact .inl (htwice h)
    · exact .inr (.inl ⟨inner, hmem, htwice h⟩)
    · exact .inr (.inr ⟨inner, hmem, htwice h⟩)
  · apply hmalformed
    apply ofValue?_eq_none_of_section
    rcases h with h | ⟨inner, hmem, h⟩ | ⟨inner, hmem, h⟩
    · exact .inl (htext h)
    · exact .inr (.inl ⟨inner, hmem, htext h⟩)
    · exact .inr (.inr ⟨inner, hmem, htext h⟩)

/-- The members of a file with a colour for macros. -/
def macroMembers : List (Option Text × Value) :=
  [(some "theme".toList, .object [(some "macro".toList, .text "#445566".toList)])]

/-- The same members with some that name no field in front of the section, in it and behind it. -/
def strangeMembers : List (Option Text × Value) :=
  [(some "?".toList, .null),
    (some "theme".toList, .object
      [(some "?".toList, .array []), (some "macro".toList, .text "#445566".toList)]),
    (some "?".toList, .bool true)]

theorem isPrintable_macroMembers : (Value.object macroMembers).IsPrintable := by
  refine .object (by simp [macroMembers]) (List.forall_mem_singleton.mpr ?_)
  exact .object (by simp) (List.forall_mem_singleton.mpr (.text _))

theorem isPrintable_strangeMembers : (Value.object strangeMembers).IsPrintable := by
  refine .object (by simp [strangeMembers]) (List.forall_mem_cons.mpr
    ⟨.null, List.forall_mem_cons.mpr ⟨?_, List.forall_mem_singleton.mpr (.bool true)⟩⟩)
  exact .object (by simp) (List.forall_mem_cons.mpr
    ⟨.array nofun, List.forall_mem_singleton.mpr (.text _)⟩)

theorem reflTransGen_strangeMembers :
    Relation.ReflTransGen IsRearranged macroMembers strangeMembers := by
  have hstrange : ∀ keys : List String, (∀ field ∈ keys, "?".toList ≠ field.toList) → ∀ v,
      IsStrange keys (some "?".toList, v) := fun keys hkeys v => ⟨_, rfl, hkeys⟩
  have hsection : IsRearranged macroMembers [(some "theme".toList, .object
      [(some "?".toList, .array []), (some "macro".toList, .text "#445566".toList)])] :=
    @IsRearranged.theme [] _ _ [] ⟨[(some "?".toList, .array [])],
      List.forall_mem_singleton.mpr (hstrange _ (by decide) _), .swap _ _ _⟩
  refine (Relation.ReflTransGen.single hsection).tail (.file
    ⟨[(some "?".toList, .null), (some "?".toList, .bool true)], ?_, .swap _ _ _⟩)
  exact List.forall_mem_cons.mpr
    ⟨hstrange _ (by decide) _, List.forall_mem_singleton.mpr (hstrange _ (by decide) _)⟩

theorem load_macroMembers :
    ∃ s, load (.holding (Value.object macroMembers).compact) "f".toList = .ok s := by
  have hok : (load (.holding (Value.object macroMembers).compact) "f".toList).isOk = true := by
    decide +kernel
  generalize load (.holding (Value.object macroMembers).compact) "f".toList = result at hok ⊢
  cases result with
  | ok s => exact ⟨s, rfl⟩
  | error e => exact absurd hok Bool.false_ne_true

theorem fields_are_decoded_by_key_of_strangers :
    ∃ s, load (.holding (Value.object macroMembers).compact) "f".toList = .ok s ∧
      s.theme.color .macroName = some "#445566".toList ∧ s.theme.color .comment = none ∧
      s.highlight.scrollDebounce = 50 ∧
      load (.holding (Value.object strangeMembers).compact) "f".toList = .ok s := by
  obtain ⟨hfields, hsame, _, _⟩ := fields_are_decoded_by_key
    (FileSystem.readText_holding _) isPrintable_macroMembers.read?_compact
  have hload := hsame _ _ _ _ reflTransGen_strangeMembers
    (FileSystem.readText_holding _) isPrintable_strangeMembers.read?_compact
  obtain ⟨s, hs⟩ := load_macroMembers
  obtain ⟨hhighlight, htheme⟩ := hfields s hs
  obtain ⟨_, _, hmacro, hcolor⟩ := htheme [(some "macro".toList, .text "#445566".toList)]
    (.inl (by simp [macroMembers]))
  refine ⟨s, hs, ?_, (hcolor .comment).absent (by simp [Kind.name]),
    (hhighlight [] (.inr ⟨rfl, by simp [macroMembers]⟩)).1.absent (by simp), ?_⟩
  · have hcolor := hmacro.present (.text "#445566".toList) (by simp)
    exact (Option.some.inj hcolor).symm
  · rw [hload, hs]

/-- A file with one member, whose key is half of a surrogate pair. -/
def brokenKeyFile : Text := "\x7b\"\\ud800\": null\x7d".toList

theorem read?_brokenKeyFile : Value.read? brokenKeyFile = some (.object [(none, .null)]) := by
  have hkey : Json.WritesPieces ['\\', 'u', 'd', '8', '0', '0'] [.unit 0xD800] :=
    @Json.WritesPieces.unit 'd' '8' '0' '0' 13 8 0 0 [] [] rfl rfl rfl rfl .nil
  have hjoin : Json.joinPieces? [.unit 0xD800] = none := by simp [Json.joinPieces?]
  have hspace : Json.IsBlankRun [' '] := by simp [Json.IsBlankRun, Json.isBlank]
  have hmember := Json.WritesMember.mk Json.isBlankRun_nil hkey Json.isBlankRun_nil
    (Json.Writes.null.padded.blanks_append hspace)
  rw [hjoin] at hmember
  have htext : brokenKeyFile = '{' :: ([] ++ '"' :: (['\\', 'u', 'd', '8', '0', '0'] ++
      '"' :: ([] ++ ':' :: ([' '] ++ "null".toList)))) ++ ['}'] := by decide +kernel
  rw [htext]
  exact Value.read?_eq_some_iff.mpr (Json.Writes.object (.one hmember)).padded

/-- An unknown key that has no text is refused, though it names no field: the file without it is
loaded as the default settings. -/
theorem key_without_text_is_refused :
    Value.read? (Value.object []).compact = some (.object []) ∧
    load (.holding (Value.object []).compact) "f".toList = .ok {} ∧
    Value.read? brokenKeyFile = some (.object [(none, .null)]) ∧
    load (.holding brokenKeyFile) "f".toList = .error .malformed := by
  refine ⟨?_, by decide +kernel, read?_brokenKeyFile, by decide +kernel⟩
  exact Value.IsPrintable.read?_compact (.object nofun nofun)

end Settings

end Retint
