import Retint.Text.Digits

/-!
# Decimal numbers

A decimal number is written with digits before or behind a point, or both, and may have a sign in
front and a power of ten behind an `e`. Its value is rounded once, to the nearest number of single
precision.
-/

namespace Retint

/-- A sign, some digits, and the power of ten of the last one. -/
structure Decimal where
  /-- Whether a minus sign stands in front. -/
  negative : Bool
  /-- The digits as one number. -/
  digits : Nat
  /-- The power of ten by which the digits count. -/
  exponent : Int
  deriving DecidableEq, Repr

namespace Decimal

/-- A text without the sign in front, and whether that was a minus sign. -/
def takeSign : Text → Bool × Text
  | '-' :: rest => (true, rest)
  | '+' :: rest => (false, rest)
  | t => (false, t)

/-- The power of ten behind the digits: none at all, or `e` with at least one digit. -/
def readExponent? : Text → Option Int
  | [] => some 0
  | c :: rest =>
    if c = 'e' ∨ c = 'E' then
      let (negative, digits) := takeSign rest
      if digits ≠ [] ∧ digits.all Char.isDigit then
        some (if negative then -(Text.digitsValue digits) else Text.digitsValue digits)
      else none
    else none

/-- The decimal number that a text writes. -/
def read? (t : Text) : Option Decimal := do
  let (negative, rest) := takeSign t
  let whole := rest.takeWhile Char.isDigit
  let rest := rest.dropWhile Char.isDigit
  let (fraction, rest) := match rest with
    | '.' :: rest => (rest.takeWhile Char.isDigit, rest.dropWhile Char.isDigit)
    | _ => ([], rest)
  if whole = [] ∧ fraction = [] then none
  else
    let exponent ← readExponent? rest
    return ⟨negative, Text.digitsValue (whole ++ fraction), exponent - fraction.length⟩

/-- The nearest number of single precision; of two that are equally near, the one with the even
significand. A number with more than forty digits before the point is beyond the largest, and one
with more than sixty zeros behind it is nearest to zero. -/
def toFloat32 (d : Decimal) : Float32 :=
  let leading : Int := (Nat.toDigits 10 d.digits).length + d.exponent
  let size : Float32 :=
    if d.digits = 0 ∨ leading < -60 then 0
    else if 40 < leading then 1 / 0
    else Float32.ofScientific d.digits (d.exponent < 0) d.exponent.natAbs
  if d.negative then -size else size

end Decimal

end Retint
