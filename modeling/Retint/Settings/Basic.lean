import Retint.Json.Numeral
import Retint.Json.Printer
import Retint.Json.Reader
import Retint.Language
import Retint.Style.Theme

/-!
# Settings

Settings are written as a JSON object with two sections, each an object. Whatever is left out has
its default, and keys that mean nothing are passed over; but a key that means something may stand
only once, and its value has to be of the right form. Instead of an object, the fields may be
written as an array in their order, from which the last ones may be missing.
-/

namespace Retint

/-- The settings of highlighting. -/
structure HighlightSettings where
  /-- For how many milliseconds the window has to rest before its position takes effect. -/
  scrollDebounce : Nat := 50
  /-- The language of a file that shows none. -/
  defaultLanguage : Language := .rust
  /-- The height of a line. -/
  lineHeight : Float32 := 16
  deriving DecidableEq

/-- All settings. -/
structure Settings where
  /-- The settings of highlighting. -/
  highlight : HighlightSettings := {}
  /-- The colours that replace those of the default palette. -/
  theme : Theme := .empty
  deriving DecidableEq

namespace Json.Value

/-- The values of some fields by their keys; none if this cannot be a record with these fields. -/
def record? (keys : List String) : Value → Option (String → Option Value)
  | .object members =>
    let once (key : String) : Bool :=
      (members.filter fun (written, _) => written = some key.toList).length ≤ 1
    if members.all (·.1.isSome) && keys.all once then
      some fun key => (members.find? fun (written, _) => written = some key.toList).map (·.2)
    else none
  | .array items =>
    if items.length ≤ keys.length then some fun key => (keys.zip items).lookup key else none
  | _ => none

/-- The value of a field in some form, or its default if it is missing. -/
def field? {α : Type} (fields : String → Option Value) (key : String) (form? : Value → Option α)
    (default : α) : Option α :=
  match fields key with
  | none => some default
  | some v => form? v

/-- An integer of sixty-four bits without a sign. -/
def toUInt64? : Value → Option Nat
  | .number n => n.toUInt64?
  | _ => none

/-- A number of single precision. -/
def toFloat32? : Value → Option Float32
  | .number n => n.toFloat32?
  | _ => none

/-- A language: its name, or an object with its name as the only key and null behind it. -/
def toLanguage? : Value → Option Language
  | .string (some name) => Language.ofSettingName? name
  | .object [(some name, .null)] => Language.ofSettingName? name
  | _ => none

/-- A colour, or none. -/
def toColor? : Value → Option (Option Text)
  | .null => some none
  | .string (some written) => some (some written)
  | _ => none

end Json.Value

open Json (Value)

namespace Theme

/-- The key of the colour for what has no kind. -/
def plainKey : String := "default_fg"

/-- All keys, in the order of an array. -/
def keys : List String := plainKey :: Kind.all.map Kind.name

/-- The theme that a value writes. -/
def ofValue? (v : Value) : Option Theme := do
  let fields ← v.record? keys
  let color (key : String) := Value.field? fields key Value.toColor? none
  let plain ← color plainKey
  if Kind.all.all fun k => (color k.name).isSome then
    some ⟨plain, fun k => (color k.name).getD none⟩
  else none

/-- The members of a theme: one for each colour that is set. -/
def members (theme : Theme) : List (Option Text × Value) :=
  let member (key : String) (color : Option Text) : Option (Option Text × Value) :=
    color.map fun written => (some key.toList, .text written)
  (member plainKey theme.plain).toList ++
    Kind.all.filterMap fun k => member k.name (theme.color k)

/-- The value that writes a theme. -/
def toValue (theme : Theme) : Value := .object theme.members

end Theme

namespace HighlightSettings

/-- All keys, in the order of an array. -/
def keys : List String := ["scroll_debounce_ms", "default_language", "line_height"]

/-- The settings that a value writes. -/
def ofValue? (v : Value) : Option HighlightSettings := do
  let fields ← v.record? keys
  let defaults : HighlightSettings := {}
  return {
    scrollDebounce :=
      ← Value.field? fields "scroll_debounce_ms" Value.toUInt64? defaults.scrollDebounce
    defaultLanguage :=
      ← Value.field? fields "default_language" Value.toLanguage? defaults.defaultLanguage
    lineHeight := ← Value.field? fields "line_height" Value.toFloat32? defaults.lineHeight }

end HighlightSettings

namespace Settings

/-- All keys, in the order of an array. -/
def keys : List String := ["highlight", "theme"]

/-- The settings that a value writes. -/
def ofValue? (v : Value) : Option Settings := do
  let fields ← v.record? keys
  return {
    highlight := ← Value.field? fields "highlight" HighlightSettings.ofValue? {}
    theme := ← Value.field? fields "theme" Theme.ofValue? .empty }

/-- The settings that a text writes. -/
def read? (t : Text) : Option Settings := (Value.read? t).bind ofValue?

/-- The value that writes the default settings. -/
def defaultValue : Value :=
  let member (key : String) (v : Value) : Option Text × Value := (some key.toList, v)
  .object [
    member "highlight" (.object [
      member "scroll_debounce_ms" (.number ⟨false, "50".toList, none, none⟩),
      member "default_language" (.text Language.rust.settingName.toList),
      member "line_height" (.number ⟨false, "16".toList, some "0".toList, none⟩)]),
    member "theme" Theme.empty.toValue]

/-- The text of a settings file that has just been made. -/
def defaultText : Text := defaultValue.indented 0

end Settings

end Retint
