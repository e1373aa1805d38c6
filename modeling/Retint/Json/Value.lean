import Retint.Text.Basic

/-!
# JSON values

A value as it is written: members keep their order and may repeat, and a number is kept as its
digits, so that whoever uses it decides how it is rounded and which numbers are too large. A string
may name half of a surrogate pair, and then has no text.
-/

namespace Retint.Json

/-- A number as it is written. -/
structure Numeral where
  /-- Whether a minus sign stands in front. -/
  negative : Bool
  /-- The digits before the point. -/
  whole : Text
  /-- The digits behind the point, if there is one. -/
  fraction : Option Text
  /-- The power of ten, if there is one: whether it has a minus sign, and its digits. -/
  exponent : Option (Bool × Text)
  deriving DecidableEq, Repr

/-- A value. -/
inductive Value where
  | null
  | bool (b : Bool)
  | number (n : Numeral)
  | string (text : Option Text)
  | array (items : List Value)
  | object (members : List (Option Text × Value))

instance : Inhabited Value := ⟨.null⟩

/-- A string with a text. -/
def Value.text (t : Text) : Value := .string (some t)

end Retint.Json
