/-!
# Highlight kinds

A highlight is a half-open range of bytes with the tag of the kind of thing that stands there. The
tags number the kinds from zero in the order of `Kind.all`; every other tag means no kind in
particular.
-/

namespace Retint

/-- What a piece of source text is. -/
inductive Kind where
  | comment
  | string
  | keyword
  | typeName
  | number
  | attributeItem
  | lifetime
  | function
  | macroName
  | variableName
  | constantName
  | tag
  | property
  | operator
  deriving DecidableEq, Repr

namespace Kind

/-- Every kind once, in the order of the tags. -/
def all : List Kind :=
  [.comment, .string, .keyword, .typeName, .number, .attributeItem, .lifetime, .function,
    .macroName, .variableName, .constantName, .tag, .property, .operator]

/-- The number that stands for a kind in a highlight. -/
def toTag : Kind → UInt16
  | .comment => 0
  | .string => 1
  | .keyword => 2
  | .typeName => 3
  | .number => 4
  | .attributeItem => 5
  | .lifetime => 6
  | .function => 7
  | .macroName => 8
  | .variableName => 9
  | .constantName => 10
  | .tag => 11
  | .property => 12
  | .operator => 13

/-- The kind that a number stands for. -/
def ofTag? (tag : UInt16) : Option Kind := all[tag.toNat]?

/-- Whether nothing inside such a piece is highlighted on its own. -/
def isLeaf : Kind → Bool
  | .comment | .string | .attributeItem => true
  | _ => false

/-- The name of a kind, which is also its key in a theme. -/
def name : Kind → String
  | .comment => "comment"
  | .string => "string"
  | .keyword => "keyword"
  | .typeName => "type"
  | .number => "number"
  | .attributeItem => "attribute"
  | .lifetime => "lifetime"
  | .function => "function"
  | .macroName => "macro"
  | .variableName => "variable"
  | .constantName => "constant"
  | .tag => "tag"
  | .property => "property"
  | .operator => "operator"

theorem mem_all (k : Kind) : k ∈ all := by cases k <;> decide

/-- The tags number the kinds: each tag below their count stands for one kind, the one that has
this tag. -/
theorem ofTag?_eq_some_iff {tag : UInt16} {k : Kind} : ofTag? tag = some k ↔ tag = k.toTag := by
  constructor
  · intro h
    obtain ⟨hlt, hk⟩ := List.getElem?_eq_some_iff.mp h
    have hcount : tag.toNat < 14 := hlt
    apply UInt16.toNat_inj.mp
    have hall : ∀ m : Fin 14, m.val = (all.get m).toTag.toNat := by decide
    exact hk ▸ hall ⟨tag.toNat, hcount⟩
  · rintro rfl
    cases k <;> rfl

end Kind

/-- A half-open range of bytes with the tag of a kind. -/
structure Highlight where
  /-- The offset of its first byte. -/
  start : Nat
  /-- The offset after its last byte. -/
  stop : Nat
  /-- The tag of its kind. -/
  kind : UInt16
  deriving DecidableEq, Repr

namespace Highlight

/-- The tag for no kind in particular. -/
def noKind : UInt16 := 65535

/-- Whether the range is one of a text with that many bytes. -/
def fits (h : Highlight) (size : Nat) : Bool := h.start ≤ h.stop && h.stop ≤ size

/-- Whether every range is one of a text with that many bytes. -/
def allFit (hs : List Highlight) (size : Nat) : Bool := hs.all (·.fits size)

end Highlight

end Retint
