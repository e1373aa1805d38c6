import Retint.Json.Value
import Retint.Text.Digits

/-!
# Reading JSON

The reader takes JSON strictly: no comments, no comma before a closing bracket, no control
characters inside a string, and nothing but blanks before and after the value.
-/

namespace Retint.Json

/-- The blanks of JSON. -/
def isBlank (c : Char) : Bool := c == ' ' || c == '\n' || c == '\t' || c == '\r'

/-- A text without the blanks in front. -/
def skipBlanks (t : Text) : Text := t.dropWhile isBlank

/-- A piece of a string: a character, or the number of a unit of UTF-16. -/
inductive Piece where
  | char (c : Char)
  | unit (n : Nat)
  deriving DecidableEq, Repr

/-- The character that a letter after a backslash stands for. -/
def escaped? : Char → Option Char
  | '"' => some '"'
  | '\\' => some '\\'
  | '/' => some '/'
  | 'b' => some '\x08'
  | 'f' => some '\x0c'
  | 'n' => some '\n'
  | 'r' => some '\r'
  | 't' => some '\t'
  | _ => none

/-- The pieces of a string up to its closing quote, and what stands behind it. -/
def readPieces? : Text → Option (List Piece × Text)
  | [] => none
  | '"' :: rest => some ([], rest)
  | '\\' :: 'u' :: a :: b :: c :: d :: rest => do
    let a ← Text.hexValue? a
    let b ← Text.hexValue? b
    let c ← Text.hexValue? c
    let d ← Text.hexValue? d
    let (pieces, rest) ← readPieces? rest
    return (.unit (((a * 16 + b) * 16 + c) * 16 + d) :: pieces, rest)
  | '\\' :: c :: rest => do
    let c ← escaped? c
    let (pieces, rest) ← readPieces? rest
    return (.char c :: pieces, rest)
  | c :: rest =>
    if c.toNat < 0x20 || c == '\\' then none
    else do
      let (pieces, rest) ← readPieces? rest
      return (.char c :: pieces, rest)

/-- The text of the pieces of a string. A high surrogate and a low one behind it are one character;
any other surrogate has no text. -/
def joinPieces? : List Piece → Option Text
  | [] => some []
  | .char c :: rest => (joinPieces? rest).map (c :: ·)
  | .unit high :: .unit low :: rest =>
    if 0xD800 ≤ high ∧ high < 0xDC00 then
      if 0xDC00 ≤ low ∧ low < 0xE000 then
        (joinPieces? rest).map
          (Char.ofNat (0x10000 + (high - 0xD800) * 0x400 + (low - 0xDC00)) :: ·)
      else none
    else if 0xDC00 ≤ high ∧ high < 0xE000 then none
    else (joinPieces? (.unit low :: rest)).map (Char.ofNat high :: ·)
  | .unit n :: rest =>
    if 0xD800 ≤ n ∧ n < 0xE000 then none else (joinPieces? rest).map (Char.ofNat n :: ·)

/-- The text of a string whose opening quote was read, and what stands behind it. -/
def readString? (t : Text) : Option (Option Text × Text) :=
  (readPieces? t).map fun (pieces, rest) => (joinPieces? pieces, rest)

/-- A run of at least one digit, and what stands behind it. -/
def readDigits? (t : Text) : Option (Text × Text) :=
  match t.takeWhile Char.isDigit with
  | [] => none
  | digits => some (digits, t.dropWhile Char.isDigit)

/-- The digits before the point: a zero alone, or digits that do not begin with one. -/
def readWhole? : Text → Option (Text × Text)
  | '0' :: c :: rest => if c.isDigit then none else some (['0'], c :: rest)
  | t => readDigits? t

/-- The digits behind a point, if there is a point. -/
def readFraction? : Text → Option (Option Text × Text)
  | '.' :: rest => (readDigits? rest).map fun (digits, rest) => (some digits, rest)
  | t => some (none, t)

/-- The power of ten, if there is one. -/
def readExponent? : Text → Option (Option (Bool × Text) × Text)
  | [] => some (none, [])
  | c :: rest =>
    if c = 'e' ∨ c = 'E' then
      let (negative, rest) := match rest with
        | '-' :: rest => (true, rest)
        | '+' :: rest => (false, rest)
        | rest => (false, rest)
      (readDigits? rest).map fun (digits, rest) => (some (negative, digits), rest)
    else some (none, c :: rest)

/-- A number, and what stands behind it. -/
def readNumeral? (t : Text) : Option (Numeral × Text) := do
  let (negative, t) := match t with
    | '-' :: rest => (true, rest)
    | t => (false, t)
  let (whole, t) ← readWhole? t
  let (fraction, t) ← readFraction? t
  let (exponent, t) ← readExponent? t
  return (⟨negative, whole, fraction, exponent⟩, t)

/-- What stands behind a text that another one begins with. -/
def skipWord? (word : String) (t : Text) : Option Text :=
  if word.toList.isPrefixOf t then some (t.drop word.length) else none

mutual

/-- A value at the beginning of a text, and what stands behind it. The bound is on the depth and the
number of values and is never met where it is the length of the text. -/
def readValue? : Nat → Text → Option (Value × Text)
  | 0, _ => none
  | bound + 1, t =>
    match skipBlanks t with
    | '"' :: rest => (readString? rest).map fun (text, rest) => (.string text, rest)
    | '[' :: rest =>
      match skipBlanks rest with
      | ']' :: rest => some (.array [], rest)
      | rest => (readItems? bound rest).map fun (items, rest) => (.array items, rest)
    | '{' :: rest =>
      match skipBlanks rest with
      | '}' :: rest => some (.object [], rest)
      | rest => (readMembers? bound rest).map fun (members, rest) => (.object members, rest)
    | 'n' :: rest => (skipWord? "ull" rest).map fun rest => (.null, rest)
    | 't' :: rest => (skipWord? "rue" rest).map fun rest => (.bool true, rest)
    | 'f' :: rest => (skipWord? "alse" rest).map fun rest => (.bool false, rest)
    | t => (readNumeral? t).map fun (n, rest) => (.number n, rest)

/-- The items of an array up to its closing bracket, and what stands behind it. -/
def readItems? : Nat → Text → Option (List Value × Text)
  | 0, _ => none
  | bound + 1, t => do
    let (item, t) ← readValue? bound t
    match skipBlanks t with
    | ',' :: rest =>
      let (items, rest) ← readItems? bound rest
      return (item :: items, rest)
    | ']' :: rest => return ([item], rest)
    | _ => none

/-- The members of an object up to its closing bracket, and what stands behind it. -/
def readMembers? : Nat → Text → Option (List (Option Text × Value) × Text)
  | 0, _ => none
  | bound + 1, t => do
    let '"' :: t := skipBlanks t | none
    let (key, t) ← readString? t
    let ':' :: t := skipBlanks t | none
    let (value, t) ← readValue? bound t
    match skipBlanks t with
    | ',' :: rest =>
      let (members, rest) ← readMembers? bound rest
      return ((key, value) :: members, rest)
    | '}' :: rest => return ([(key, value)], rest)
    | _ => none

end

/-- The value that a text writes. -/
def Value.read? (t : Text) : Option Value := do
  let (value, rest) ← readValue? (t.length + 1) t
  if skipBlanks rest = [] then some value else none

end Retint.Json
