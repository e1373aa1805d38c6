import Retint.Json.Value
import Retint.Number.Narrow
import Retint.Text.Digits

/-!
# The values of JSON numbers

A number without point and power of ten is an integer where sixty-four bits hold it. Every other
number is read in double precision: as many digits as sixty-four bits hold make the significand,
and it is then multiplied or divided by a power of ten. The result of that is narrowed to single
precision, which may give infinity; but a number beyond double precision has no value at all.
-/

namespace Retint.Json.Numeral

/-- A significand of sixty-four bits and the power of ten by which it counts. -/
structure Scaled where
  /-- The significand. -/
  significand : Nat
  /-- The power of ten. -/
  exponent : Int
  deriving DecidableEq, Repr

/-- Whether a number takes more than sixty-four bits. -/
def isWide (n : Nat) : Bool := Nat.pow 2 64 ≤ n

/-- The significand after as many more digits as it has room for, and the digits that are left. -/
def takeDigits (significand : Nat) : Text → Nat × Text
  | [] => (significand, [])
  | d :: rest =>
    let next := 10 * significand + (d.toNat - '0'.toNat)
    if isWide next then (significand, d :: rest) else takeDigits next rest

/-- The number without its sign and its power of ten. Digits before the point for which there is no
room raise the power of ten, those behind the point that were taken lower it, and the others are
dropped. -/
def mantissa (n : Numeral) : Scaled :=
  let (significand, left) := takeDigits 0 n.whole
  let fraction := n.fraction.getD []
  let (significand, dropped) := takeDigits significand fraction
  ⟨significand, left.length - (fraction.length - dropped.length : Nat)⟩

/-- A positive number of double precision divided by a power of ten. -/
def divideByPower (x : Float) (power : Nat) : Float :=
  if power ≤ 308 then x / Float.ofScientific 1 false power
  else if x == 0 then x
  else divideByPower (x / Float.ofScientific 1 false 308) (power - 308)
termination_by power

/-- A significand times a power of ten in double precision, if it is not too large for that. -/
def scale? (s : Scaled) : Option Float :=
  let x := s.significand.toUInt64.toFloat
  if s.exponent < 0 then some (divideByPower x s.exponent.natAbs)
  else if s.exponent ≤ 308 then
    let x := x * Float.ofScientific 1 false s.exponent.natAbs
    if x.isInf then none else some x
  else if x == 0 then some x
  else none

/-- The magnitude of the number in double precision, if it is not too large for that. A power of
ten of more than thirty-one bits makes the number zero or too large. -/
def magnitude? (n : Numeral) : Option Float :=
  let s := n.mantissa
  match n.exponent with
  | none => scale? s
  | some (negative, digits) =>
    let power := Text.digitsValue digits
    if Nat.pow 2 31 ≤ power then
      if negative || s.significand = 0 then some 0 else none
    else scale? { s with exponent := if negative then s.exponent - power else s.exponent + power }

/-- The number as an integer, if it is written as one. -/
def integer? (n : Numeral) : Option Nat :=
  if n.fraction.isNone ∧ n.exponent.isNone then some (Text.digitsValue n.whole) else none

/-- The number as an integer of sixty-four bits without a sign. -/
def toUInt64? (n : Numeral) : Option Nat := do
  let value ← n.integer?
  if n.negative || isWide value then none else some value

/-- The number in single precision. An integer of sixty-four bits, with or without a sign, is
rounded once; minus zero is none of these. -/
def toFloat32? (n : Numeral) : Option Float32 :=
  let short : Option Nat := n.integer?.filter fun value =>
    if n.negative then 0 < value && value ≤ Nat.pow 2 63 else !isWide value
  let size : Option Float32 := match short with
    | some value => some (Float32.ofNat value)
    | none => n.magnitude?.map narrow
  size.map fun x => if n.negative then -x else x

end Retint.Json.Numeral
