import Retint.Tree.Classify

/-!
# Kinds that are listed by name

The general rules are tried in order. The first ones ask whether a kind has some word in it, the
later ones whether it is on a list. A kind on a list is classified as the list says unless an
earlier rule finds its word there, and this happens to one of them: `floating_point_type` is on the
list of types, and has the word `float` of the numbers in it.
-/

namespace Retint.Node

/-- The kinds that the general rules list by name, each with what a node of it is meant to be. -/
def listedKinds : List (String × Kind) :=
  stringKinds.map (·, .string) ++ typeKinds.map (·, .typeName) ++
    attributeKinds.map (·, .attributeItem) ++ [("lifetime", .lifetime)] ++
    wordKinds.map (·, .keyword)

/-- The kinds that the rules of the languages name. The rules for keys of JSON and for elements
inside a script are not among them: these ask for the node above. -/
def ruledKinds : List String :=
  ["macro_invocation", "field_identifier", "identifier", "property_identifier",
    "shorthand_property_identifier", "tag_name", "attribute_name", "attribute_value",
    "quoted_attribute_value", "AttValue", "PseudoAttValue", "Name", "class_name", "id_name",
    "pseudo_class_selector", "pseudo_element_selector", "property_name", "feature_name",
    "color_value", "integer_value", "float_value", "at_keyword", "important", "function_name",
    "command_name", "variable_name", "heredoc_body", "bare_key", "quoted_key", "dotted_key"]

variable {language : Language} {text : Text} {above : List Node} {n m : Node} {expected : Kind}

/-! ### The rules of the languages -/

theorem identifierKind_eq_none (hkind : n.kind ∉ ruledKinds) :
    n.identifierKind text above = none := by
  unfold identifierKind
  split <;> simp_all [ruledKinds]

theorem rustKind_eq_none (hkind : n.kind ∉ ruledKinds) : n.rustKind text above = none := by
  unfold rustKind
  split <;> simp_all [ruledKinds]

theorem markupKind_eq_none (hkind : n.kind ∉ ruledKinds) : n.markupKind above = none := by
  unfold markupKind
  split <;> simp_all [ruledKinds]

theorem styleSheetKind_eq_none (hkind : n.kind ∉ ruledKinds) : n.styleSheetKind = none := by
  unfold styleSheetKind
  split <;> simp_all [ruledKinds]

theorem shellKind_eq_none (hkind : n.kind ∉ ruledKinds) : n.shellKind = none := by
  unfold shellKind
  split <;> simp_all [ruledKinds]

theorem tableKeyKind_eq_none (hkind : n.kind ∉ ruledKinds) : n.tableKeyKind = none := by
  unfold tableKeyKind
  split <;> simp_all [ruledKinds]

theorem cKind_eq_none (hkind : n.kind ∉ ruledKinds)
    (hdirective : "preproc_".toList.isPrefixOf n.kind.toList = false) :
    n.cKind text above = none := by
  unfold cKind
  rw [hdirective, Bool.false_and, if_neg Bool.false_ne_true]
  split <;> simp_all [ruledKinds]

/-- Outside JSON and the scripts with elements, no rule of a language takes a kind that it does
not name and that is no directive of the preprocessor. -/
theorem contextKind_eq_none (hlanguage : language ∉ [.json, .jsx, .tsx])
    (hkind : n.kind ∉ ruledKinds)
    (hdirective : "preproc_".toList.isPrefixOf n.kind.toList = false) :
    n.contextKind language text above = none := by
  cases language with
  | rust => exact rustKind_eq_none hkind
  | html | xml => exact markupKind_eq_none hkind
  | css => exact styleSheetKind_eq_none hkind
  | bash => exact shellKind_eq_none hkind
  | toml => exact tableKeyKind_eq_none hkind
  | c | cpp => exact cKind_eq_none hkind hdirective
  | json | jsx | tsx => exact absurd hlanguage (by decide)
  | go | python | java | javaScript | typeScript | yaml | sql => exact identifierKind_eq_none hkind

/-! ### The general rules -/

/-- The general rules look at nothing but the kind. -/
theorem generalKind_congr (hkind : n.kind = m.kind) : n.generalKind = m.generalKind := by
  obtain ⟨kind, _, _, _⟩ := n
  obtain ⟨_, _, _, _⟩ := m
  obtain rfl : kind = _ := hkind
  rfl

/-- No rule of a language looks at the listed kinds. -/
theorem listedKinds_disjoint : ∀ entry ∈ listedKinds,
    entry.1 ∉ ruledKinds ∧ "preproc_".toList.isPrefixOf entry.1.toList = false := by
  decide +kernel

/-- What the general rules make of the listed kinds. -/
theorem generalKind_of_listed : ∀ entry ∈ listedKinds,
    generalKind ⟨entry.1, true, ⟨0, 0⟩, []⟩ =
      some (if entry.1 = "floating_point_type" then .number else entry.2) := by
  decide +kernel

/-- The one exception is on the list of types. -/
theorem expected_of_floating_point : ∀ entry ∈ listedKinds,
    entry.1 = "floating_point_type" → entry.2 = .typeName := by
  decide +kernel

/-- A named node that the rules of its language leave alone is classified by the general rules. -/
theorem classify_of_contextKind_eq_none (hnamed : n.named = true)
    (hcontext : n.contextKind language text above = none) :
    n.classify language text above = n.generalKind := by
  rw [classify, if_pos hnamed, hcontext, Option.none_or]

/-- **A listed kind is classified as its list says, except for `floating_point_type`.** It is so for
every named node that the rules of its language leave alone, and they leave all of them alone unless
the language is JSON or a script with elements. A node of the kind `floating_point_type` becomes a
number. -/
theorem listed_kind_is_kept_iff (hnamed : n.named = true)
    (hlisted : (n.kind, expected) ∈ listedKinds) (language : Language) (text : Text)
    (above : List Node) :
    (language ∉ [.json, .jsx, .tsx] → n.contextKind language text above = none) ∧
      (n.contextKind language text above = none →
        (n.classify language text above = some expected ↔ n.kind ≠ "floating_point_type") ∧
          (n.kind = "floating_point_type" → n.classify language text above = some .number)) := by
  constructor
  · intro hlanguage
    obtain ⟨hkind, hdirective⟩ := listedKinds_disjoint _ hlisted
    exact contextKind_eq_none hlanguage hkind hdirective
  · intro hcontext
    have hkind : n.generalKind = generalKind ⟨n.kind, true, ⟨0, 0⟩, []⟩ := generalKind_congr rfl
    rw [classify_of_contextKind_eq_none hnamed hcontext, hkind, generalKind_of_listed _ hlisted]
    by_cases hfloat : n.kind = "floating_point_type"
    · have htype : expected = .typeName := expected_of_floating_point _ hlisted hfloat
      simp [hfloat, htype]
    · simp [hfloat]

/-- The types of two fields of a class in Java. -/
theorem listed_kind_is_kept_iff_of_fields :
    let declaration : Node := ⟨"field_declaration", true, ⟨0, 8⟩, [(.declarator, ⟨6, 7⟩)]⟩
    let int : Node := ⟨"integral_type", true, ⟨0, 5⟩, []⟩
    let float : Node := ⟨"floating_point_type", true, ⟨0, 5⟩, []⟩
    int.named = true ∧ (int.kind, .typeName) ∈ listedKinds ∧
      float.named = true ∧ (float.kind, .typeName) ∈ listedKinds ∧
      int.contextKind .java "short s;".toList [declaration] = none ∧
      int.classify .java "short s;".toList [declaration] = some .typeName ∧
      float.contextKind .java "float f;".toList [declaration] = none ∧
      float.classify .java "float f;".toList [declaration] = some .number := by
  intro declaration int float
  have hint : (int.kind, .typeName) ∈ listedKinds := by decide
  have hfloat : (float.kind, .typeName) ∈ listedKinds := by decide
  obtain ⟨hintContext, hintKind⟩ :=
    listed_kind_is_kept_iff rfl hint .java "short s;".toList [declaration]
  obtain ⟨hfloatContext, hfloatKind⟩ :=
    listed_kind_is_kept_iff rfl hfloat .java "float f;".toList [declaration]
  refine ⟨rfl, hint, rfl, hfloat, hintContext (by decide), ?_, hfloatContext (by decide), ?_⟩
  · exact (hintKind (hintContext (by decide))).1.mpr (by decide)
  · exact (hfloatKind (hfloatContext (by decide))).2 rfl

/-- A listed kind is not always classified as its list says, even if the rules of the language leave
it alone: the type of a field of Java that holds a number with a point becomes a number. -/
theorem listed_kind_is_overruled :
    ¬ ∀ (language : Language) (text : Text) (above : List Node) (n : Node) (expected : Kind),
      n.named = true → n.contextKind language text above = none →
        (n.kind, expected) ∈ listedKinds → n.classify language text above = some expected := by
  intro h
  have hkept := h .java "float f;".toList
    [⟨"field_declaration", true, ⟨0, 8⟩, [(.declarator, ⟨6, 7⟩)]⟩]
    ⟨"floating_point_type", true, ⟨0, 5⟩, []⟩ .typeName rfl (by decide +kernel) (by decide)
  revert hkept
  decide +kernel

end Retint.Node
