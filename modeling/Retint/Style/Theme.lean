import Retint.Kind
import Retint.Text.Basic

/-!
# Themes

A theme may give a colour of its own to each kind, and one to all that has no kind. A colour stays
as it was written: whether it is one is decided when the theme is used.
-/

namespace Retint

/-- The colours that replace those of the default palette. -/
structure Theme where
  /-- The colour for what has no kind. -/
  plain : Option Text
  /-- The colour for a kind. -/
  color : Kind → Option Text

namespace Theme

/-- The theme that replaces nothing. -/
def empty : Theme := ⟨none, fun _ => none⟩

instance : Inhabited Theme := ⟨empty⟩

@[ext] theorem ext {s t : Theme} (hplain : s.plain = t.plain)
    (hcolor : ∀ k, s.color k = t.color k) : s = t := by
  cases s
  cases t
  simp only [mk.injEq]
  exact ⟨hplain, funext hcolor⟩

instance : DecidableEq Theme := fun s t =>
  decidable_of_iff (s.plain = t.plain ∧ ∀ k ∈ Kind.all, s.color k = t.color k)
    ⟨fun ⟨hplain, hcolor⟩ => ext hplain fun k => hcolor k k.mem_all, by rintro rfl; simp⟩

end Theme

end Retint
