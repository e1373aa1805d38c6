/-!
# Narrowing a number

A number of double precision becomes one of single precision by taking the nearest one; of two
that are equally near, the one with the even significand, and infinity beyond the largest.
-/

namespace Retint

/-- The nearest number of single precision. -/
def narrow (x : Float) : Float32 :=
  let bits := x.toBits.toNat
  let exponent := bits / Nat.pow 2 52 % Nat.pow 2 11
  let fraction := bits % Nat.pow 2 52
  let size : Float32 :=
    if exponent = Nat.pow 2 11 - 1 then if fraction = 0 then 1 / 0 else 0 / 0
    else
      let significand := if exponent = 0 then fraction else fraction + Nat.pow 2 52
      let scale := max exponent 1
      if 1075 ≤ scale then Float32.ofScientific (significand * Nat.pow 2 (scale - 1075)) false 0
      else Float32.ofScientific (significand * Nat.pow 5 (1075 - scale)) true (1075 - scale)
  if Nat.pow 2 63 ≤ bits then -size else size

end Retint
