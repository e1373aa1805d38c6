import Retint.Kind
import Retint.Language
import Retint.Tree.Basic

/-!
# The kind of a node

Which kind of highlight a node gets, if any, follows from its own kind, from the fields that it
occupies in the nodes above it, and, for names of constants, from the text it covers. The rules of
the language come first, then those that hold for every grammar. A token made of letters is a
keyword, one made of operator characters an operator.
-/

namespace Retint.Node

/-- Whether the kind of a node has some text in it. -/
def kindHas (n : Node) (part : String) : Bool := Text.occurs part.toList n.kind.toList

/-- Whether a child covers the range that its parent records for a field. -/
def isField (parent : Node) (f : Field) (child : Node) : Bool :=
  parent.field? f = some child.range

/-- Whether a node is what is called by the call expression right above it. -/
def isCallee (n : Node) (above : List Node) : Bool :=
  match above with
  | [] => false
  | caller :: _ => caller.kind == "call_expression" && caller.isField .function n

/-- Whether a node covers at least two characters, all capitals, digits or underscores, with a
capital among them. -/
def isConstantName (text : Text) (n : Node) : Bool :=
  2 ≤ n.range.stop - n.range.start &&
    match text.slice? n.range.start n.range.stop with
    | none => false
    | some covered =>
      covered.any (·.isUpper) && covered.all fun c => c.isUpper || c.isDigit || c == '_'

/-- The kind of a token. -/
def tokenKind (kind : String) : Option Kind :=
  let text := kind.toList
  if text.isEmpty then none
  else if text.all fun c => c.isAlpha || c == '_' then some .keyword
  else if text.all fun c => "+-*/%=!<>&|^~?".toList.contains c then some .operator
  else none

/-- The rules for identifiers that most languages share; `above` are the nodes above, nearest
first. -/
def identifierKind (text : Text) (above : List Node) (n : Node) : Option Kind :=
  match n.kind with
  | "property_identifier" | "shorthand_property_identifier" | "field_identifier" =>
    match above with
    | [] => none
    | parent :: outer =>
      if parent.kind == "member_expression" && parent.isCallee outer then some .function
      else some .property
  | "identifier" =>
    match above with
    | [] => none
    | parent :: _ =>
      let otherwise := if n.isConstantName text then some Kind.constantName else none
      match parent.kind with
      | "function_item" | "function_signature_item" | "function_declaration"
      | "function_definition" | "generator_function_declaration" | "method_declaration"
      | "method_definition" => if parent.isField .name n then some .function else otherwise
      | "call_expression" | "call" | "method_invocation" =>
        if parent.isField .function n || parent.isField .name n then some .function
        else otherwise
      | "class_declaration" | "class_definition" | "class" =>
        if parent.isField .name n then some .typeName else otherwise
      | "variable_declarator" => if parent.isField .name n then some .variableName else otherwise
      | "formal_parameters" | "parameters" | "parameter_declaration" => some .variableName
      | _ => otherwise
  | _ => none

/-- The rules of Rust. In a path that is called, only the last name is the function. -/
def rustKind (text : Text) (above : List Node) (n : Node) : Option Kind :=
  match n.kind with
  | "macro_invocation" => some .macroName
  | "field_identifier" =>
    match above with
    | [] => none
    | parent :: outer =>
      if parent.kind == "field_expression" && parent.isCallee outer then some .function
      else some .property
  | "identifier" =>
    match above with
    | [] => none
    | parent :: outer =>
      let otherwise := n.identifierKind text above
      match parent.kind with
      | "const_item" | "static_item" =>
        if parent.isField .name n then some .constantName else otherwise
      | "let_declaration" => if parent.isField .pattern n then some .variableName else otherwise
      | "parameter" | "closure_parameters" => some .variableName
      | "scoped_identifier" =>
        if parent.isField .name n && parent.isCallee outer then some .function else otherwise
      | _ => otherwise
  | _ => none

/-- The rules of C and C++. Every directive of the preprocessor but its argument is a macro. -/
def cKind (text : Text) (above : List Node) (n : Node) : Option Kind :=
  if "preproc_".toList.isPrefixOf n.kind.toList && n.kind != "preproc_arg" then some .macroName
  else
    match n.kind with
    | "field_identifier" => some .property
    | "identifier" =>
      match above with
      | [] => none
      | parent :: _ =>
        if parent.kind == "function_declarator" && parent.isField .declarator n then
          some .function
        else n.identifierKind text above
    | _ => none

/-- The rules for elements that are written inside a script. -/
def elementKind (above : List Node) (n : Node) : Option Kind :=
  match above with
  | [] => none
  | parent :: _ =>
    match parent.kind with
    | "jsx_opening_element" | "jsx_closing_element" | "jsx_self_closing_element" =>
      if parent.isField .name n then some .tag else none
    | "jsx_attribute" => if n.kind == "property_identifier" then some .property else none
    | _ => none

/-- The rules of HTML and XML. -/
def markupKind (above : List Node) (n : Node) : Option Kind :=
  match n.kind with
  | "tag_name" => some .tag
  | "attribute_name" => some .property
  | "attribute_value" | "quoted_attribute_value" | "AttValue" | "PseudoAttValue" => some .string
  | "Name" =>
    match above with
    | [] => none
    | parent :: _ =>
      match parent.kind with
      | "STag" | "ETag" | "EmptyElemTag" => some .tag
      | "Attribute" | "AttDef" | "PseudoAtt" => some .property
      | _ => none
  | _ => none

/-- The rules of CSS. -/
def styleSheetKind (n : Node) : Option Kind :=
  match n.kind with
  | "tag_name" => some .tag
  | "class_name" | "id_name" | "pseudo_class_selector" | "pseudo_element_selector" =>
    some .typeName
  | "property_name" | "feature_name" => some .property
  | "color_value" | "integer_value" | "float_value" => some .number
  | "at_keyword" | "important" => some .keyword
  | "function_name" => some .function
  | _ => none

/-- The rules of the shell. -/
def shellKind (n : Node) : Option Kind :=
  match n.kind with
  | "command_name" => some .function
  | "variable_name" => some .variableName
  | "heredoc_body" => some .string
  | _ => none

/-- The rules of JSON. -/
def pairKeyKind (above : List Node) (n : Node) : Option Kind :=
  match above with
  | [] => none
  | parent :: _ =>
    if parent.kind == "pair" && parent.isField .key n then some .property else none

/-- The rules of TOML. -/
def tableKeyKind (n : Node) : Option Kind :=
  match n.kind with
  | "bare_key" | "quoted_key" | "dotted_key" => some .property
  | _ => none

/-- The rules that depend on the language or on the nodes above. -/
def contextKind (language : Language) (text : Text) (above : List Node) (n : Node) :
    Option Kind :=
  match language with
  | .rust => n.rustKind text above
  | .html | .xml => n.markupKind above
  | .css => n.styleSheetKind
  | .bash => n.shellKind
  | .json => n.pairKeyKind above
  | .toml => n.tableKeyKind
  | .c | .cpp => n.cKind text above
  | .jsx | .tsx => (n.elementKind above).or (n.identifierKind text above)
  | _ => n.identifierKind text above

/-- The literals that are strings though their kind does not say so. -/
def stringKinds : List String := ["char_literal", "byte_literal", "character_literal"]

/-- The kinds of types. -/
def typeKinds : List String :=
  ["type_identifier", "primitive_type", "predefined_type", "builtin_type", "integral_type",
    "floating_point_type", "boolean_type", "void_type", "sized_type_specifier"]

/-- The kinds of what is attached to an item. -/
def attributeKinds : List String :=
  ["attribute_item", "inner_attribute_item", "decorator", "annotation", "marker_annotation"]

/-- The kinds of words that stand for a value or a scope. -/
def wordKinds : List String :=
  ["true", "false", "null", "nil", "none", "self", "this", "super", "crate"]

/-- Whether a kind ends in a text. -/
def kindEndsIn (n : Node) (ending : String) : Bool :=
  ending.toList.reverse.isPrefixOf n.kind.toList.reverse

/-- The rules for named nodes that hold in every language, by the node's own kind. -/
def generalKind (n : Node) : Option Kind :=
  if n.kindHas "comment" then some .comment
  else if n.kindHas "string" || stringKinds.contains n.kind then some .string
  else if n.kindHas "integer" || n.kindHas "float" || n.kindHas "number" then some .number
  else if n.kindEndsIn "_literal" && (n.kindHas "int" || n.kindHas "imaginary") then
    some .number
  else if typeKinds.contains n.kind then some .typeName
  else if attributeKinds.contains n.kind then some .attributeItem
  else if n.kind == "lifetime" then some .lifetime
  else if wordKinds.contains n.kind then some .keyword
  else none

/-- The kind of a node in a text, given the nodes above it, nearest first. -/
def classify (language : Language) (text : Text) (above : List Node) (n : Node) : Option Kind :=
  if n.named then (n.contextKind language text above).or n.generalKind
  else tokenKind n.kind

end Retint.Node
