/-!
# Whole numbers of single precision

Lines are counted by whole numbers and placed by numbers of single precision. A count becomes the
nearest such number, and a position is rounded down. From the twenty-fourth power of two on, all
numbers of single precision are whole.
-/

namespace Retint.Single

/-- The nearest number to a count of sixty-four bits. -/
def ofCount (n : Nat) : Float32 := n.toUInt64.toFloat32

/-- The largest whole number up to a number that is not negative. -/
def floor (x : Float32) : Float32 := if x < 16777216 then x.toUInt64.toFloat32 else x

end Retint.Single
