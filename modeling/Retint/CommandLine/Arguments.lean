import Retint.Language
import Retint.Number.Decimal

/-!
# Arguments

The arguments are one path and any number of options, in any order. Some options take the argument
behind them as their value, whatever it looks like; of an option that stands twice the last value
counts. The first fault from the left is the one that is told.
-/

namespace Retint

/-- What the program is asked to do. -/
structure Arguments where
  /-- The file to highlight. -/
  path : Text
  /-- The language, unless it is to be told from the path. -/
  language : Option Language
  /-- The vertical position of the window. -/
  scroll : Float32
  /-- The height of the window; without one the whole file is shown. -/
  height : Option Float32
  /-- Whether the kinds of nodes are asked for and no file is highlighted. -/
  listKinds : Bool
  deriving DecidableEq

/-- What is wrong with the arguments. -/
inductive UsageError where
  /-- There is no path. -/
  | missingPath
  /-- Nothing stands behind an option that takes a value. -/
  | missingValue (option : String)
  /-- A name is that of no language. -/
  | unknownLanguage (name : Text)
  /-- A value is no number of pixels. -/
  | notPixels (written : Text)
  /-- An option does not exist. -/
  | unknownOption (option : Text)
  /-- There is a second path. -/
  | unexpected (argument : Text)
  deriving DecidableEq, Repr

namespace UsageError

/-- How the program is called. -/
def usage : String :=
  "usage: rehighlight <path> [--lang NAME] [--scroll PX] [--height PX] [--list-kinds]"

/-- The error in words. -/
def message : UsageError → Text
  | missingPath => "missing <path>".toList
  | missingValue option => option.toList ++ " needs a value".toList
  | unknownLanguage name => "unknown language: ".toList ++ name
  | notPixels written => "not a pixel value: ".toList ++ written
  | unknownOption option => "unknown option: ".toList ++ option
  | unexpected argument => "unexpected argument: ".toList ++ argument

end UsageError

/-- The number of pixels that a text writes: a decimal number that is finite and not below zero
after rounding. -/
def pixels? (written : Text) : Option Float32 :=
  ((Decimal.read? written).map Decimal.toFloat32).filter fun px => px.isFinite && 0 ≤ px

namespace Arguments

/-- What was found in the arguments read so far. -/
structure Found where
  /-- The path, if there was one. -/
  path : Option Text := none
  /-- The language given last. -/
  language : Option Language := none
  /-- The position given last. -/
  scroll : Float32 := 0
  /-- The height given last. -/
  height : Option Float32 := none
  /-- Whether the kinds of nodes were asked for. -/
  listKinds : Bool := false
  deriving DecidableEq

/-- The value of an option in some form, and the arguments behind it. -/
def valueOf {α : Type} (option : String) (form? : Text → Option α) (fault : Text → UsageError) :
    List Text → Except UsageError (α × List Text)
  | [] => .error (.missingValue option)
  | value :: rest =>
    match form? value with
    | none => .error (fault value)
    | some a => .ok (a, rest)

theorem length_of_valueOf {α : Type} {option : String} {form? : Text → Option α}
    {fault : Text → UsageError} {args rest : List Text} {a : α}
    (h : valueOf option form? fault args = .ok (a, rest)) : rest.length ≤ args.length := by
  cases args with
  | nil => simp [valueOf] at h
  | cons value later =>
    simp only [valueOf] at h
    split at h <;> simp at h
    simp [← h.2]

/-- What is found in the arguments, going on from what was found before them. -/
def readFrom (found : Found) : List Text → Except UsageError Found
  | [] => .ok found
  | arg :: rest =>
    if arg = "--lang".toList then
      match _h : valueOf "--lang" Language.ofName? .unknownLanguage rest with
      | .error fault => .error fault
      | .ok (language, rest) => readFrom { found with language := some language } rest
    else if arg = "--scroll".toList then
      match _h : valueOf "--scroll" pixels? .notPixels rest with
      | .error fault => .error fault
      | .ok (scroll, rest) => readFrom { found with scroll := scroll } rest
    else if arg = "--height".toList then
      match _h : valueOf "--height" pixels? .notPixels rest with
      | .error fault => .error fault
      | .ok (height, rest) => readFrom { found with height := some height } rest
    else if arg = "--list-kinds".toList then readFrom { found with listKinds := true } rest
    else if "--".toList.isPrefixOf arg then .error (.unknownOption arg)
    else if found.path.isSome then .error (.unexpected arg)
    else readFrom { found with path := some arg } rest
termination_by args => args.length
decreasing_by
  all_goals
    try have := length_of_valueOf _h
    simp only [List.length_cons]
    omega

/-- What the arguments ask for. -/
def read (args : List Text) : Except UsageError Arguments := do
  let found ← readFrom {} args
  match found.path with
  | none => .error .missingPath
  | some path => .ok ⟨path, found.language, found.scroll, found.height, found.listKinds⟩

end Arguments

end Retint
