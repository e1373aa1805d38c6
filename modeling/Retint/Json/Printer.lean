import Retint.Json.Value
import Retint.Text.Digits

/-!
# Printing JSON

The compact form has no blanks at all. The indented form puts each item and each member on a line
of its own, two spaces deeper than what it belongs to, and a space behind the colon.
-/

namespace Retint.Json

/-- A character inside a string: quotes, backslashes and controls are escaped, all others stand for
themselves. -/
def printChar (c : Char) : Text :=
  match c with
  | '"' => ['\\', '"']
  | '\\' => ['\\', '\\']
  | '\x08' => ['\\', 'b']
  | '\x0c' => ['\\', 'f']
  | '\n' => ['\\', 'n']
  | '\r' => ['\\', 'r']
  | '\t' => ['\\', 't']
  | c =>
    if c.toNat < 0x20 then
      ['\\', 'u', '0', '0', Nat.digitChar (c.toNat / 16), Nat.digitChar (c.toNat % 16)]
    else [c]

/-- A string with its quotes. -/
def printString (t : Text) : Text := '"' :: t.flatMap printChar ++ ['"']

/-- A number. -/
def Numeral.print (n : Numeral) : Text :=
  let sign : Text := if n.negative then ['-'] else []
  let fraction : Text := match n.fraction with
    | some digits => '.' :: digits
    | none => []
  let exponent : Text := match n.exponent with
    | some (negative, digits) => 'e' :: (if negative then '-' :: digits else digits)
    | none => []
  sign ++ n.whole ++ fraction ++ exponent

/-- Texts with a separator between each two. -/
def separate (separator : Text) : List Text → Text
  | [] => []
  | [t] => t
  | t :: u :: later => t ++ separator ++ separate separator (u :: later)

mutual

/-- A value in the compact form. A string without a text is printed as an empty one. -/
def Value.compact : Value → Text
  | .null => "null".toList
  | .bool true => "true".toList
  | .bool false => "false".toList
  | .number n => n.print
  | .string text => printString (text.getD [])
  | .array items => '[' :: separate [','] (compactItems items) ++ [']']
  | .object members => '{' :: separate [','] (compactMembers members) ++ ['}']

/-- The items of an array in the compact form. -/
def compactItems : List Value → List Text
  | [] => []
  | v :: later => v.compact :: compactItems later

/-- The members of an object in the compact form. -/
def compactMembers : List (Option Text × Value) → List Text
  | [] => []
  | (key, v) :: later => (printString (key.getD []) ++ ':' :: v.compact) :: compactMembers later

end

/-- The beginning of a line at some depth. -/
def newLine (depth : Nat) : Text := '\n' :: List.replicate (2 * depth) ' '

mutual

/-- A value in the indented form, at some depth. -/
def Value.indented (depth : Nat) : Value → Text
  | .array (item :: items) =>
    '[' :: newLine (depth + 1) ++
      separate (',' :: newLine (depth + 1)) (indentedItems (depth + 1) (item :: items)) ++
      newLine depth ++ [']']
  | .object (member :: members) =>
    '{' :: newLine (depth + 1) ++
      separate (',' :: newLine (depth + 1)) (indentedMembers (depth + 1) (member :: members)) ++
      newLine depth ++ ['}']
  | v => v.compact

/-- The items of an array in the indented form. -/
def indentedItems (depth : Nat) : List Value → List Text
  | [] => []
  | v :: later => v.indented depth :: indentedItems depth later

/-- The members of an object in the indented form. -/
def indentedMembers (depth : Nat) : List (Option Text × Value) → List Text
  | [] => []
  | (key, v) :: later =>
    (printString (key.getD []) ++ ':' :: ' ' :: v.indented depth) :: indentedMembers depth later

end

end Retint.Json
