import Mathlib.Data.List.Nodup
import Retint.Proofs.Json.Printing
import Retint.Proofs.Settings.Fields

/-!
# Themes that are written and read

A theme is written with one member for each colour that is set, and every one of them is read by the
field it was written for. So a theme comes back from a settings file whose section for themes it
was written into, whatever else the file says, and what was written tells themes apart.
-/

namespace Retint

open Json (Value IsRecord IsField objectText arrayText)

variable {members : List (Option Text × Value)} {v : Value} {theme : Theme}

namespace Theme

/-! ### The members of a theme -/

/-- The colours of a theme, set or not, with their keys. -/
def colors (theme : Theme) : List (String × Option Text) :=
  (plainKey, theme.plain) :: Kind.all.map fun k => (k.name, theme.color k)

theorem map_fst_colors (theme : Theme) : theme.colors.map Prod.fst = keys := rfl

theorem nodup_keys : keys.Nodup := by decide

theorem mem_colors_plain (theme : Theme) : (plainKey, theme.plain) ∈ theme.colors :=
  List.mem_cons_self

theorem mem_colors (theme : Theme) (k : Kind) : (k.name, theme.color k) ∈ theme.colors :=
  List.mem_cons_of_mem _ (List.mem_map_of_mem (f := fun k => (k.name, theme.color k)) k.mem_all)

/-- There is one member for each colour that is set, under the key of this colour. -/
theorem members_eq_filterMap (theme : Theme) : theme.members =
    theme.colors.filterMap fun m => m.2.map fun written => (some m.1.toList, .text written) := by
  rw [members, colors, List.filterMap_cons, List.filterMap_map]
  cases theme.plain <;> rfl

theorem mem_members_iff {key : Option Text} : (key, v) ∈ theme.members ↔
    ∃ name written, (name, some written) ∈ theme.colors ∧ key = some name.toList ∧
      v = .text written := by
  rw [members_eq_filterMap, List.mem_filterMap]
  constructor
  · rintro ⟨⟨name, color⟩, hmem, h⟩
    obtain ⟨written, rfl, h⟩ := Option.map_eq_some_iff.mp h
    obtain ⟨rfl, rfl⟩ := Prod.mk.inj h
    exact ⟨name, written, hmem, rfl, rfl⟩
  · rintro ⟨name, written, hmem, rfl, rfl⟩
    exact ⟨(name, some written), hmem, rfl⟩

/-- The keys of the members are keys of colours, each once at most and in the order of the keys. -/
theorem sublist_members (theme : Theme) :
    (theme.members.map Prod.fst).Sublist (keys.map fun key => some key.toList) := by
  rw [members_eq_filterMap, ← map_fst_colors theme, List.map_map]
  induction theme.colors with
  | nil => exact .slnil
  | cons m later ih =>
    obtain ⟨name, _ | written⟩ := m
    · exact ih.cons _
    · exact ih.cons_cons _

theorem isRecord_members (theme : Theme) : IsRecord keys theme.members := by
  have hnodup : (keys.map fun key => some key.toList).Nodup := by decide
  refine ⟨fun key hkey => ?_, fun key _ => ?_⟩
  · obtain ⟨name, _, rfl⟩ := List.mem_map.mp (theme.sublist_members.subset hkey)
    exact Option.some_ne_none _
  · exact List.nodup_iff_count_le_one.mp (hnodup.sublist theme.sublist_members) _

/-- There is a member under the key of a colour exactly if the colour is set. -/
theorem exists_mem_members_iff {name : String} {color : Option Text}
    (h : (name, color) ∈ theme.colors) :
    (∃ v, (some name.toList, v) ∈ theme.members) ↔ color ≠ none := by
  constructor
  · rintro ⟨v, hv⟩
    obtain ⟨name', written, hmem, hname, _⟩ := mem_members_iff.mp hv
    obtain rfl : name = name' := String.toList_inj.mp (Option.some.inj hname)
    have heq := List.inj_on_of_nodup_map (theme.map_fst_colors ▸ nodup_keys) h hmem rfl
    rw [(Prod.mk.inj heq).2]
    exact Option.some_ne_none written
  · intro hcolor
    obtain ⟨written, rfl⟩ := Option.ne_none_iff_exists'.mp hcolor
    exact ⟨.text written, mem_members_iff.mpr ⟨name, written, h, rfl, rfl⟩⟩

/-- Each colour is a field of the members. -/
theorem isField_members {name : String} {color : Option Text} (h : (name, color) ∈ theme.colors) :
    IsField theme.members name Value.toColor? none color := by
  refine ⟨fun v hv => ?_, fun habsent => ?_⟩
  · obtain ⟨name', written, hmem, hname, rfl⟩ := mem_members_iff.mp hv
    obtain rfl : name = name' := String.toList_inj.mp (Option.some.inj hname)
    have heq := List.inj_on_of_nodup_map (theme.map_fst_colors ▸ nodup_keys) h hmem rfl
    rw [(Prod.mk.inj heq).2]
    rfl
  · by_contra hcolor
    obtain ⟨v, hv⟩ := (exists_mem_members_iff h).mpr hcolor
    exact habsent v hv

/-- The value that writes a theme is read as that theme. -/
theorem ofValue?_toValue (theme : Theme) : ofValue? theme.toValue = some theme :=
  ofValue?_object_eq_some_iff.mpr ⟨theme.isRecord_members, isField_members theme.mem_colors_plain,
    fun k => isField_members (theme.mem_colors k)⟩

theorem isPrintable_toValue (theme : Theme) : theme.toValue.IsPrintable := by
  refine .object (fun m hm => ?_) (fun m hm => ?_)
  · exact theme.isRecord_members.hasText _ (List.mem_map_of_mem hm)
  · obtain ⟨_, written, _, _, hv⟩ := mem_members_iff.mp hm
    rw [hv]
    exact .text written

/-- A text is one of the printed forms of a theme. -/
def IsSerialization (theme : Theme) (S : Text) : Prop :=
  S = theme.toValue.compact ∨ ∃ depth, S = theme.toValue.indented depth

theorem IsSerialization.read? {S : Text} (h : theme.IsSerialization S) :
    Value.read? S = some theme.toValue := by
  rcases h with rfl | ⟨depth, rfl⟩
  · exact theme.isPrintable_toValue.read?_compact
  · exact theme.isPrintable_toValue.read?_indented depth

theorem IsSerialization.isSome_read? {S : Text} (h : theme.IsSerialization S) :
    (Value.read? S).isSome = true := by
  rw [h.read?]
  rfl

theorem IsSerialization.ofValue?_ofText {S : Text} (h : theme.IsSerialization S) :
    ofValue? (.ofText S) = some theme := by
  rw [Value.ofText, h.read?, Option.getD_some, ofValue?_toValue]

/-- What was written tells themes apart. -/
theorem IsSerialization.unique {S : Text} {theme' : Theme} (h : theme.IsSerialization S)
    (h' : theme'.IsSerialization S) : theme' = theme := by
  have hread := h'.ofValue?_ofText
  rw [h.ofValue?_ofText, Option.some.injEq] at hread
  exact hread.symm

end Theme

namespace Settings

/-! ### A section for themes -/

/-- A section for themes sets the theme and leaves all other settings alone. -/
theorem ofValue?_cons_theme (habsent : ∀ w, (some "theme".toList, w) ∉ members)
    (htheme : Theme.ofValue? v = some theme) :
    ofValue? (.object ((some "theme".toList, v) :: members)) =
      (ofValue? (.object members)).map fun s => { s with theme := theme } := by
  apply Option.ext
  intro s
  rw [ofValue?_object_eq_some_iff, Json.isRecord_cons_iff habsent,
    Json.isField_cons_iff_of_ne (by decide), Json.isField_cons_iff habsent, htheme,
    Option.map_eq_some_iff]
  constructor
  · rintro ⟨hrecord, hhighlight, hs⟩
    refine ⟨{ s with theme := .empty }, ofValue?_object_eq_some_iff.mpr ⟨hrecord, hhighlight, ?_⟩,
      ?_⟩
    · exact ⟨fun w hw => absurd hw (habsent w), fun _ => rfl⟩
    · rw [Option.some.inj hs]
  · rintro ⟨t, ht, rfl⟩
    obtain ⟨hrecord, hhighlight, _⟩ := ofValue?_object_eq_some_iff.mp ht
    exact ⟨hrecord, hhighlight, rfl⟩

/-- The section may stand anywhere among the members. -/
theorem ofValue?_insert_theme {front back : List (Option Text × Value)}
    (habsent : ∀ w, (some "theme".toList, w) ∉ front ++ back)
    (htheme : Theme.ofValue? v = some theme) :
    ofValue? (.object (front ++ (some "theme".toList, v) :: back)) =
      (ofValue? (.object (front ++ back))).map fun s => { s with theme := theme } := by
  rw [← ofValue?_cons_theme habsent htheme]
  refine ofValue?_of_isRearranged (.file ⟨[], nofun, ?_⟩)
  rw [List.append_nil]
  exact List.perm_middle

/-- In an array of two sections the second one sets the theme. -/
theorem ofValue?_array_theme {highlight : Value} (htheme : Theme.ofValue? v = some theme) :
    ofValue? (.array [highlight, v]) =
      (ofValue? (.array [highlight])).map fun s => { s with theme := theme } := by
  have hfields : ofValue? (.array [highlight, v]) =
      (HighlightSettings.ofValue? highlight).bind fun h =>
        (Theme.ofValue? v).bind fun t => some ⟨h, t⟩ := rfl
  have hfield : ofValue? (.array [highlight]) =
      (HighlightSettings.ofValue? highlight).bind fun h => some ⟨h, .empty⟩ := rfl
  rw [hfields, hfield, htheme]
  cases HighlightSettings.ofValue? highlight <;> rfl

variable {S path path' : Text} {fs fs' : FileSystem}

/-- Files load alike up to the theme if their values are settings that agree up to the theme. -/
theorem load_map_of_ofValue? {t t' : Text} {v' : Value}
    (hread : fs.readText path = .ok t) (hread' : fs'.readText path' = .ok t')
    (hvalue : Value.read? t = some v) (hvalue' : Value.read? t' = some v')
    (h : ofValue? v = (ofValue? v').map fun s => { s with theme := theme }) :
    load fs path = (load fs' path').map fun s => { s with theme := theme } := by
  rw [load_of_read hread hvalue, load_of_read hread' hvalue', h]
  cases ofValue? v' <;> rfl

theorem load_objectText_theme (hS : theme.IsSerialization S) {before after : List (Text × Text)}
    (htexts : ∀ m ∈ before ++ after, m.1 ≠ "theme".toList ∧ (Value.read? m.2).isSome)
    (hread : fs.readText path = .ok (objectText (before ++ ("theme".toList, S) :: after)))
    (hread' : fs'.readText path' = .ok (objectText (before ++ after))) :
    load fs path = (load fs' path').map fun s => { s with theme := theme } := by
  have hall : ∀ m ∈ before ++ ("theme".toList, S) :: after, (Value.read? m.2).isSome = true := by
    intro m hm
    rcases List.mem_append.mp hm with hm | hm
    · exact (htexts m (List.mem_append_left _ hm)).2
    · rcases List.mem_cons.mp hm with rfl | hm
      · exact hS.isSome_read?
      · exact (htexts m (List.mem_append_right _ hm)).2
  have hfile := Json.read?_objectText hall
  have hfile' := Json.read?_objectText fun m hm => (htexts m hm).2
  rw [List.map_append, List.map_cons] at hfile
  rw [List.map_append] at hfile'
  refine load_map_of_ofValue? hread hread' hfile hfile'
    (ofValue?_insert_theme ?_ hS.ofValue?_ofText)
  intro w hw
  rw [← List.map_append] at hw
  obtain ⟨m, hm, heq⟩ := List.mem_map.mp hw
  exact (htexts m hm).1 (Option.some.inj (Prod.mk.inj heq).1)

theorem load_theme_alone (hS : theme.IsSerialization S)
    (hread : fs.readText path = .ok (objectText [("theme".toList, S)])) :
    load fs path = .ok { theme := theme } := by
  have hfile := Json.read?_objectText (List.forall_mem_singleton.mpr hS.isSome_read? :
    ∀ m ∈ [("theme".toList, S)], (Value.read? m.2).isSome = true)
  have hempty : ofValue? (.object []) = some {} := by decide +kernel
  rw [load_of_read hread hfile, List.map_cons, List.map_nil,
    ofValue?_cons_theme (by simp) hS.ofValue?_ofText, hempty]
  rfl

theorem load_arrayText_theme (hS : theme.IsSerialization S) {highlight : Text}
    (hhighlight : (Value.read? highlight).isSome)
    (hread : fs.readText path = .ok (arrayText [highlight, S]))
    (hread' : fs'.readText path' = .ok (arrayText [highlight])) :
    load fs path = (load fs' path').map fun s => { s with theme := theme } := by
  have hfile := Json.read?_arrayText (List.forall_mem_cons.mpr
    ⟨hhighlight, List.forall_mem_singleton.mpr hS.isSome_read?⟩)
  have hfile' := Json.read?_arrayText (List.forall_mem_singleton.mpr hhighlight)
  exact load_map_of_ofValue? hread hread' hfile hfile' (ofValue?_array_theme hS.ofValue?_ofText)

/-- **Themes survive round trips.** Let a text be a printed form of a theme, on one line or on many.
It is an object with a member for each colour that is set, and no others. A file with an object, or
an array, in which it is the section for themes is loaded with this theme and otherwise like the
same file without the section, be it settings or an error; with nothing but the section in it, the
file has the theme and default settings. And the text is no printed form of any other theme. -/
theorem themes_survive_round_trips {S : Text} (hS : theme.IsSerialization S) :
    (∃ members, Value.read? S = some (.object members) ∧
      ((∃ v, (some "default_fg".toList, v) ∈ members) ↔ theme.plain ≠ none) ∧
      (∀ k : Kind, (∃ v, (some k.name.toList, v) ∈ members) ↔ theme.color k ≠ none) ∧
      ∀ m ∈ members, ∃ key ∈ Theme.keys, m.1 = some key.toList) ∧
    (∀ before after : List (Text × Text),
      (∀ m ∈ before ++ after, m.1 ≠ "theme".toList ∧ (Value.read? m.2).isSome) →
      ∀ (fs fs' : FileSystem) (path path' : Text),
        fs.readText path = .ok (objectText (before ++ ("theme".toList, S) :: after)) →
        fs'.readText path' = .ok (objectText (before ++ after)) →
        load fs path = (load fs' path').map fun s => { s with theme := theme }) ∧
    (∀ (fs : FileSystem) (path : Text),
      fs.readText path = .ok (objectText [("theme".toList, S)]) →
      load fs path = .ok { theme := theme }) ∧
    (∀ (highlight : Text), (Value.read? highlight).isSome →
      ∀ (fs fs' : FileSystem) (path path' : Text),
        fs.readText path = .ok (arrayText [highlight, S]) →
        fs'.readText path' = .ok (arrayText [highlight]) →
        load fs path = (load fs' path').map fun s => { s with theme := theme }) ∧
    ∀ theme' : Theme, theme'.IsSerialization S → theme' = theme := by
  refine ⟨⟨theme.members, hS.read?, ?_, fun k => ?_, fun m hm => ?_⟩, ?_, ?_, ?_, ?_⟩
  · exact Theme.exists_mem_members_iff theme.mem_colors_plain
  · exact Theme.exists_mem_members_iff (theme.mem_colors k)
  · obtain ⟨key, hkey, heq⟩ :=
      List.mem_map.mp (theme.sublist_members.subset (List.mem_map_of_mem hm))
    exact ⟨key, hkey, heq.symm⟩
  · intro before after htexts fs fs' path path' hread hread'
    exact load_objectText_theme hS htexts hread hread'
  · intro fs path hread
    exact load_theme_alone hS hread
  · intro highlight hhighlight fs fs' path path' hread hread'
    exact load_arrayText_theme hS hhighlight hread hread'
  · exact fun theme' hS' => hS.unique hS'

/-- A theme with a quote, a backslash, a control character and a character of many bytes in its
colours, and with an empty one. -/
def oddTheme : Theme where
  plain := some "\"\\\x01".toList
  color
    | .typeName => some "😀".toList
    | .macroName => some []
    | _ => none

theorem themes_survive_round_trips_of_odd_characters :
    load (.holding (objectText [("theme".toList, oddTheme.toValue.compact)])) "f".toList =
      .ok { theme := oddTheme } := by
  obtain ⟨_, _, hsection, _, _⟩ :=
    themes_survive_round_trips (.inl rfl : oddTheme.IsSerialization oddTheme.toValue.compact)
  exact hsection _ _ (FileSystem.readText_holding _)

example :
    (Theme.mk none fun k => if k = .macroName then some "a\"b".toList else none).toValue.compact =
    "\x7b\"macro\":\"a\\\"b\"\x7d".toList := by decide +kernel

end Settings

end Retint
