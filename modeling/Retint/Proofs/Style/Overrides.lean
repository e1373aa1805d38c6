import Retint.Style.Palette

/-!
# Themes and the styles they lead to

Of a theme, the style of a kind depends on the colour for that kind alone, and the style of what has
no kind on the colour for that alone. A colour that cannot be read is as good as none: the kind then
looks as it does without a theme. Whether it is bold or italic is never up to the theme.
-/

namespace Retint

namespace Theme

/-- The colour that a theme gives to a kind; none if it is unset or cannot be read. -/
def given? (theme : Theme) (k : Kind) : Option Rgb := (theme.color k).bind Rgb.ofHex?

/-- The theme without a colour for a kind. -/
def unset (theme : Theme) (k : Kind) : Theme :=
  { theme with color := fun l => if l = k then none else theme.color l }

@[simp] theorem plain_unset (theme : Theme) (k : Kind) : (theme.unset k).plain = theme.plain := rfl

@[simp] theorem given?_unset_self (theme : Theme) (k : Kind) : (theme.unset k).given? k = none := by
  simp only [given?, unset, if_pos, Option.bind_none]

theorem given?_unset_of_ne {k l : Kind} (theme : Theme) (h : l ≠ k) :
    (theme.unset k).given? l = theme.given? l := by
  simp only [given?, unset, if_neg h]

end Theme

namespace Palette

variable {theme theme' : Theme} {k : Kind} {tag : UInt16}

/-- The styles stand in a table, in the order of the kinds, and a tag is the place of its style;
behind the end of the table there is the base style. -/
theorem style_eq_table (p : Palette) (tag : UInt16) :
    p.style tag = ((Kind.all.map p.styles)[tag.toNat]?).getD p.base := by
  unfold style Kind.ofTag?
  rw [List.getElem?_map]
  cases Kind.all[tag.toNat]? <;> rfl

/-- The tag of a kind has the style of that kind. -/
theorem style_toTag (p : Palette) (k : Kind) : p.style k.toTag = p.styles k := by
  have hkind : Kind.all[k.toTag.toNat]? = some k := Kind.ofTag?_eq_some_iff.mpr rfl
  rw [style_eq_table, List.getElem?_map, hkind, Option.map_some, Option.getD_some]

/-- A tag that stands for no kind has the base style. -/
theorem style_of_forall_ne (p : Palette) (h : ∀ k : Kind, tag ≠ k.toTag) :
    p.style tag = p.base := by
  have hnone : Kind.all[tag.toNat]? = none :=
    Option.eq_none_iff_forall_ne_some.mpr fun k hk => h k (Kind.ofTag?_eq_some_iff.mp hk)
  rw [style_eq_table, List.getElem?_map, hnone, Option.map_none, Option.getD_none]

/-- The style of a kind is told by the colour that the theme gives to it. -/
theorem styles_ofTheme (theme : Theme) (k : Kind) : (ofTheme theme).styles k =
    { (ofTheme .empty).styles k with foreground := (theme.given? k).getD k.defaultColor } := rfl

/-- Without a theme, kinds have their default colours. -/
theorem foreground_of_empty (k : Kind) :
    ((ofTheme .empty).styles k).foreground = k.defaultColor := rfl

/-- Themes that give the same colour to a kind, or none, agree on its style. -/
theorem styles_congr (h : theme.given? k = theme'.given? k) :
    (ofTheme theme).styles k = (ofTheme theme').styles k := by
  rw [styles_ofTheme, styles_ofTheme theme', h]

/-- A kind to which a theme gives no colour looks as it does without a theme. -/
theorem styles_of_given?_eq_none (h : theme.given? k = none) :
    (ofTheme theme).styles k = (ofTheme .empty).styles k := by
  rw [styles_ofTheme, h, Option.getD_none, ← foreground_of_empty]

/-- Themes that agree on what has no kind, and give the same colours to all kinds, lead to the same
styles. -/
theorem style_congr (hplain : theme.plain = theme'.plain)
    (hgiven : ∀ k, theme.given? k = theme'.given? k) (tag : UInt16) :
    (ofTheme theme).style tag = (ofTheme theme').style tag := by
  have hbase : (ofTheme theme).base = (ofTheme theme').base := by simp only [ofTheme, hplain]
  have hstyles : (ofTheme theme).styles = (ofTheme theme').styles :=
    funext fun k => styles_congr (hgiven k)
  rw [style_eq_table, style_eq_table, hbase, hstyles]

/-- **The colours of a theme do not interfere with each other.** The tag of a kind has the style of
the default palette, with the colour that the theme gives to this kind, if it gives one that can be
read. Every other tag, the one for no kind in particular among them, has the base style, which comes
from the colour for what has no kind alone. So themes that agree on one kind give it the same style
whatever else is in them, be it the same colour or none that can be read, and a colour that cannot
be read may as well be missing. -/
theorem overrides_do_not_interfere :
    (∀ (theme : Theme) (k : Kind),
      (∀ c, theme.given? k = some c → (ofTheme theme).style k.toTag =
        { (ofTheme .empty).style k.toTag with foreground := c }) ∧
      (theme.given? k = none →
        (ofTheme theme).style k.toTag = (ofTheme .empty).style k.toTag)) ∧
    (∀ (theme : Theme) (tag : UInt16), (∀ k : Kind, tag ≠ k.toTag) →
      (ofTheme theme).style tag = .plain (resolve theme.plain defaultForeground)) ∧
    (∀ k : Kind, Highlight.noKind ≠ k.toTag) ∧
    (∀ (theme theme' : Theme) (k : Kind),
      theme.color k = theme'.color k ∨ theme.given? k = none ∧ theme'.given? k = none →
      (ofTheme theme).style k.toTag = (ofTheme theme').style k.toTag) ∧
    ∀ (theme : Theme) (k : Kind) (written : Text),
      theme.color k = some written → Rgb.ofHex? written = none →
      ∀ tag, (ofTheme theme).style tag = (ofTheme (theme.unset k)).style tag := by
  refine ⟨fun theme k => ⟨fun c hgiven => ?_, fun hnone => ?_⟩, fun theme tag hkind => ?_,
    fun k => ?_, fun theme theme' k hagree => ?_, fun theme k written hwritten hunread tag => ?_⟩
  · rw [style_toTag, style_toTag, styles_ofTheme, hgiven, Option.getD_some]
  · rw [style_toTag, style_toTag, styles_of_given?_eq_none hnone]
  · rw [style_of_forall_ne _ hkind]
    rfl
  · cases k <;> decide
  · rw [style_toTag, style_toTag]
    apply styles_congr
    rcases hagree with hcolor | ⟨hnone, hnone'⟩
    · rw [Theme.given?, Theme.given?, hcolor]
    · rw [hnone, hnone']
  · apply style_congr (theme.plain_unset k).symm
    intro l
    by_cases hl : l = k
    · subst hl
      rw [Theme.given?_unset_self, Theme.given?, hwritten, Option.bind_some, hunread]
    · rw [Theme.given?_unset_of_ne theme hl]

/-- A theme with a colour for comments that can be read, one for keywords that cannot, and one for
what has no kind, against the theme with the same colour for comments only. -/
theorem overrides_do_not_interfere_of_misspelling :
    let comments : Theme := ⟨none, fun k => if k = .comment then some "#112233".toList else none⟩
    let theme : Theme := ⟨some "010203".toList, fun k =>
      if k = .keyword then some "not-a-colour".toList else comments.color k⟩
    (ofTheme theme).style Kind.comment.toTag = ⟨⟨0x11, 0x22, 0x33⟩, false, true⟩ ∧
      (ofTheme theme).style Kind.comment.toTag = (ofTheme comments).style Kind.comment.toTag ∧
      (ofTheme theme).style Kind.keyword.toTag = ⟨⟨0x56, 0x9C, 0xD6⟩, true, false⟩ ∧
      (ofTheme theme).style 14 = .plain ⟨1, 2, 3⟩ ∧
      ∀ tag, (ofTheme theme).style tag = (ofTheme (theme.unset .keyword)).style tag := by
  intro comments theme
  obtain ⟨hkind, hother, _, hagree, hunread⟩ := overrides_do_not_interfere
  refine ⟨?_, hagree theme comments .comment (.inl (by decide)), ?_, ?_,
    hunread theme .keyword "not-a-colour".toList (by decide) (by decide)⟩
  · rw [(hkind theme .comment).1 ⟨0x11, 0x22, 0x33⟩ (by decide)]
    decide
  · rw [(hkind theme .keyword).2 (by decide)]
    decide
  · rw [hother theme 14 fun k => by cases k <;> decide]
    decide

end Palette

end Retint
