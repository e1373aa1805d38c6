import Retint.Text.Quoted

/-!
# Quoted text is read back

Between quotes every character is written as itself or as an escape, and only an escape begins with
a backslash. So what stands between quotes tells which text was quoted: a reader goes over it from
the left, remembers whether it is in an escape, and needs to know nothing about which characters are
shown.
-/

namespace Retint.Text

/-- Where a reader of quoted text is: in front of a character, behind a backslash, or among the
digits of a code point, of which the ones before write a number. -/
inductive Reading where
  | plain
  | escape
  | code (value : Nat)

/-- The character that is written with a letter behind a backslash. -/
def unescaped? : Char → Option Char
  | '"' => some '"'
  | '\\' => some '\\'
  | 'n' => some '\n'
  | 'r' => some '\r'
  | 't' => some '\t'
  | '0' => some '\x00'
  | _ => none

/-- The text that is written up to a quote, which has to be the last character. -/
def unquote? : Reading → Text → Option Text
  | _, [] => none
  | .plain, '"' :: rest => if rest.isEmpty then some [] else none
  | .plain, '\\' :: rest => unquote? .escape rest
  | .plain, c :: rest => (unquote? .plain rest).map (c :: ·)
  | .escape, 'u' :: '{' :: rest => unquote? (.code 0) rest
  | .escape, letter :: rest =>
    (unescaped? letter).bind fun c => (unquote? .plain rest).map (c :: ·)
  | .code value, '}' :: rest => (unquote? .plain rest).map (Char.ofNat value :: ·)
  | .code value, digit :: rest =>
    (hexValue? digit).bind fun low => unquote? (.code (16 * value + low)) rest

/-! ### Code points -/

/-- A hexadecimal number is its digit, or the digits of its front and then its last digit. -/
theorem hexOfNat_eq (n : Nat) : hexOfNat n =
    if n < 16 then [Nat.digitChar n] else hexOfNat (n / 16) ++ [Nat.digitChar (n % 16)] :=
  Nat.toDigits_eq_if (by decide)

/-- One digit more of a code point. -/
theorem unquote?_digitChar {low : Nat} (h : low < 16) (value : Nat) (rest : Text) :
    unquote? (.code value) (Nat.digitChar low :: rest) =
      unquote? (.code (16 * value + low)) rest := by
  rw [unquote?, hexValue?_digitChar low h, Option.bind_some]
  simp

/-- The digits of a number are read as this number. -/
theorem unquote?_hexOfNat (n : Nat) (rest : Text) :
    unquote? (.code 0) (hexOfNat n ++ rest) = unquote? (.code n) rest := by
  induction n using Nat.strongRecOn generalizing rest with
  | ind n ih =>
    rw [hexOfNat_eq]
    split
    · rename_i hlow
      rw [List.singleton_append, unquote?_digitChar hlow, Nat.mul_zero, Nat.zero_add]
    · rw [List.append_assoc, ih (n / 16) (by omega), List.singleton_append,
        unquote?_digitChar (by omega)]
      congr 2
      omega

theorem lineFeed_notMem_hexOfNat (n : Nat) : '\n' ∉ hexOfNat n := by
  induction n using Nat.strongRecOn with
  | ind n ih =>
    rw [hexOfNat_eq]
    split
    · simp
    · have hfront := ih (n / 16) (by omega)
      simp [hfront]

/-! ### Characters and texts -/

/-- A character is read back from what is written for it between quotes, whatever follows. -/
theorem unquote?_quotedChar (c : Char) (rest : Text) :
    unquote? .plain (quotedChar c ++ rest) = (unquote? .plain rest).map (c :: ·) := by
  unfold quotedChar
  split
  -- The six characters with a letter of their own come first.
  any_goals rfl
  rename_i hquote hescape _ _ _ _
  split
  · rw [List.singleton_append, unquote?]
    · exact hquote
    · exact hescape
  · rw [List.append_assoc, List.append_assoc]
    calc unquote? .plain (['\\', 'u', '{'] ++ (hexOfNat c.toNat ++ (['}'] ++ rest)))
        = unquote? (.code 0) (hexOfNat c.toNat ++ (['}'] ++ rest)) := rfl
      _ = unquote? (.code c.toNat) (['}'] ++ rest) := unquote?_hexOfNat _ _
      _ = (unquote? .plain rest).map (Char.ofNat c.toNat :: ·) := rfl
      _ = (unquote? .plain rest).map (c :: ·) := by rw [Char.ofNat_toNat]

/-- A text is read back from what is written for it behind the first quote. -/
theorem unquote?_quoted (t : Text) : unquote? .plain (t.flatMap quotedChar ++ ['"']) = some t := by
  induction t with
  | nil => rfl
  | cons c t ih =>
    rw [List.flatMap_cons, List.append_assoc, unquote?_quotedChar, ih, Option.map_some]

/-- There is no line feed in a quoted text. -/
theorem lineFeed_notMem_quoted (t : Text) : '\n' ∉ quoted t := by
  have hchar : ∀ c, '\n' ∉ quotedChar c := by
    intro c
    unfold quotedChar
    split
    any_goals decide
    rename_i hfeed _ _ _
    split
    · simpa using Ne.symm hfeed
    · simp [lineFeed_notMem_hexOfNat]
  simp [quoted, hchar]

end Retint.Text
