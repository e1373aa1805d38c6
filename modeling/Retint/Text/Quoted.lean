import Retint.Text.Digits
import Retint.Text.Unshown

/-!
# Quoted text

A text is quoted by putting it between double quotes. Inside, a quote and a backslash get a
backslash, a few controls have a letter of their own, and every other character that would not be
shown is written as its code point.
-/

namespace Retint.Text

/-- A character between quotes. -/
def quotedChar (c : Char) : Text :=
  match c with
  | '"' => ['\\', '"']
  | '\\' => ['\\', '\\']
  | '\n' => ['\\', 'n']
  | '\r' => ['\\', 'r']
  | '\t' => ['\\', 't']
  | '\x00' => ['\\', '0']
  | c => if isShown c then [c] else ['\\', 'u', '{'] ++ hexOfNat c.toNat ++ ['}']

/-- A text between quotes. -/
def quoted (t : Text) : Text := '"' :: t.flatMap quotedChar ++ ['"']

end Retint.Text
