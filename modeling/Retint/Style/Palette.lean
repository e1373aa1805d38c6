import Retint.Style.Color
import Retint.Style.Theme

/-!
# Palettes and style spans

A palette answers a style for every tag of a highlight. It is made from a theme: a kind has the
theme's colour if the theme gives one that can be read, and its default colour otherwise. Keywords
are bold and comments italic, whatever the theme.
-/

namespace Retint

/-- How a piece of text is drawn. -/
structure Style where
  /-- The colour of the characters. -/
  foreground : Rgb
  /-- Whether they are bold. -/
  bold : Bool
  /-- Whether they are italic. -/
  italic : Bool
  deriving DecidableEq, Repr

/-- A half-open range of bytes with the style in which it is drawn. -/
structure Span where
  /-- How it is drawn. -/
  style : Style
  /-- The offset of its first byte. -/
  start : Nat
  /-- The offset after its last byte. -/
  stop : Nat
  deriving DecidableEq, Repr

namespace Style

/-- A style with a colour and nothing else. -/
def plain (c : Rgb) : Style := ⟨c, false, false⟩

end Style

/-- The colour of a kind for which a theme gives none. -/
def Kind.defaultColor : Kind → Rgb
  | .comment => .ofCode 0x6A9955
  | .string => .ofCode 0xCE9178
  | .keyword => .ofCode 0x569CD6
  | .typeName => .ofCode 0x4EC9B0
  | .number => .ofCode 0xB5CEA8
  | .attributeItem => .ofCode 0x4EC9B0
  | .lifetime => .ofCode 0x569CD6
  | .function => .ofCode 0xDCDCAA
  | .macroName => .ofCode 0x569CD6
  | .variableName => .ofCode 0x9CDCFE
  | .constantName => .ofCode 0x4FC1FF
  | .tag => .ofCode 0x569CD6
  | .property => .ofCode 0x9CDCFE
  | .operator => .ofCode 0xD4D4D4

/-- The style of each kind, and the style of what has none. -/
structure Palette where
  /-- The style of what has no kind. -/
  base : Style
  /-- The style of a kind. -/
  styles : Kind → Style

namespace Palette

/-- The colour for what has no kind, if a theme gives none. -/
def defaultForeground : Rgb := .ofCode 0xD4D4D4

/-- The colour that was written, or another one where none was or it cannot be read. -/
def resolve (written : Option Text) (fallback : Rgb) : Rgb :=
  (written.bind Rgb.ofHex?).getD fallback

/-- The palette of a theme. -/
def ofTheme (theme : Theme) : Palette where
  base := .plain (resolve theme.plain defaultForeground)
  styles k := {
    foreground := resolve (theme.color k) k.defaultColor
    bold := k = .keyword
    italic := k = .comment }

/-- The style of a tag; one that stands for no kind has the base style. -/
def style (p : Palette) (tag : UInt16) : Style :=
  match Kind.ofTag? tag with
  | some k => p.styles k
  | none => p.base

/-- The span of a highlight. -/
def span (p : Palette) (h : Highlight) : Span := ⟨p.style h.kind, h.start, h.stop⟩

/-- The spans of highlights, one for each and in the same order. -/
def spans (p : Palette) (hs : List Highlight) : List Span := hs.map p.span

end Palette

end Retint
