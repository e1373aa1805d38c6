import Retint.Text.Blank
import Retint.Text.Digits

/-!
# Colours

A colour is three bytes and is written as a number sign and six hexadecimal digits, in capitals.
When it is read, white space around it is ignored, the number sign may be missing, and small
letters will do.
-/

namespace Retint

/-- A colour by its parts of red, green and blue. -/
structure Rgb where
  /-- The part of red. -/
  red : UInt8
  /-- The part of green. -/
  green : UInt8
  /-- The part of blue. -/
  blue : UInt8
  deriving DecidableEq, Repr

namespace Rgb

/-- The colour in the three low bytes of a number, red first; the high byte is dropped. -/
def ofCode (code : UInt32) : Rgb :=
  ⟨(code >>> 16).toUInt8, (code >>> 8).toUInt8, code.toUInt8⟩

/-- The colour that six hexadecimal digits write, after trimming and at most one number sign. -/
def ofHex? (written : Text) : Option Rgb :=
  let trimmed := written.trim
  let digits := match trimmed with
    | '#' :: rest => rest
    | other => other
  match digits.mapM Text.hexValue? with
  | some [r, r', g, g', b, b'] =>
    some ⟨(16 * r + r').toUInt8, (16 * g + g').toUInt8, (16 * b + b').toUInt8⟩
  | _ => none

/-- The two hexadecimal digits of a byte, in capitals. -/
def hexPair (byte : UInt8) : Text :=
  let digit (n : UInt8) : Char := (Nat.digitChar n.toNat).toUpper
  [digit (byte / 16), digit (byte % 16)]

/-- The colour as it is written. -/
def toHex (c : Rgb) : Text := '#' :: hexPair c.red ++ hexPair c.green ++ hexPair c.blue

end Rgb

end Retint
