import Mathlib.Data.String.Basic
import Retint.Text.Basic

/-!
# The order of texts and of their bytes

Texts are ordered by the codes of their characters, and names are ordered by the bytes of their
UTF-8 encoding. A character with a smaller code has smaller bytes, whatever follows: it has fewer
bytes and then a smaller first one, or as many, which are the digits of its code to the base 64. So
a name that is smaller as a text is smaller by its bytes.
-/

namespace Retint.Text

/-- The bytes behind the first one of a character: as many last digits of its code to the base
64. -/
def continued : Nat → Nat → List UInt8
  | 0, _ => []
  | n + 1, code => continued n (code / 64) ++ [UInt8.ofNat (code % 64 + 128)]

/-- How a code is encoded: so many bytes follow the first one, and an offset in that one says so. -/
inductive Encoded : Nat → Nat → Nat → Prop
  | alone {code : Nat} (stop : code < 0x80) : Encoded code 0 0
  | byOne {code : Nat} (start : 0x80 ≤ code) (stop : code < 0x800) : Encoded code 0xC0 1
  | byTwo {code : Nat} (start : 0x800 ≤ code) (stop : code < 0x10000) : Encoded code 0xE0 2
  | byThree {code : Nat} (start : 0x10000 ≤ code) (stop : code < 0x110000) : Encoded code 0xF0 3

variable {v w n m offset offset' : Nat} {c d : Char}

theorem utf8EncodeChar_eq (c : Char) : ∃ offset n, Encoded c.toNat offset n ∧
    String.utf8EncodeChar c =
      UInt8.ofNat (offset + c.toNat / 64 ^ n) :: continued n c.toNat := by
  have hmax : c.toNat < 0x110000 := by
    have hvalid := c.valid
    simp only [UInt32.isValidChar, Nat.isValidChar] at hvalid
    have hcode : c.toNat = c.val.toNat := rfl
    omega
  have hbytes : String.utf8EncodeChar c = _ := String.utf8EncodeChar.eq_1 c
  rw [show c.val.toNat = c.toNat from rfl] at hbytes
  generalize c.toNat = code at hbytes hmax
  rw [hbytes]
  split_ifs with hone htwo hthree
  · exact ⟨0, 0, .alone (by omega), by simp [continued]⟩
  · refine ⟨0xC0, 1, .byOne (by omega) (by omega), ?_⟩
    have hfront : code / 64 % 32 + 192 = 0xC0 + code / 64 ^ 1 := by omega
    rw [hfront]
    rfl
  · refine ⟨0xE0, 2, .byTwo (by omega) (by omega), ?_⟩
    have hfront : code / 4096 % 16 + 224 = 0xE0 + code / 64 ^ 2 := by omega
    rw [hfront]
    rfl
  · refine ⟨0xF0, 3, .byThree (by omega) (by omega), ?_⟩
    have hfront : code / 262144 % 8 + 240 = 0xF0 + code / 64 ^ 3 := by omega
    have hsecond : code / 4096 = code / 64 / 64 := by omega
    rw [hfront, hsecond]
    rfl

/-- The first byte is a byte. -/
theorem Encoded.first_lt (h : Encoded v offset n) : offset + v / 64 ^ n < 256 := by
  cases h <;> omega

/-- Of two codes the smaller one has a smaller first byte or as many bytes. -/
theorem Encoded.first_lt_or (h : Encoded v offset n) (h' : Encoded w offset' m) (hlt : v < w) :
    offset + v / 64 ^ n < offset' + w / 64 ^ m ∨ offset = offset' ∧ n = m := by
  cases h <;> cases h' <;> omega

theorem ofNat_lt_ofNat (h : v < w) (hbyte : w < 256) : UInt8.ofNat v < UInt8.ofNat w := by
  rw [UInt8.lt_iff_toNat_lt, UInt8.toNat_ofNat', UInt8.toNat_ofNat',
    Nat.mod_eq_of_lt (Nat.lt_trans h hbyte), Nat.mod_eq_of_lt hbyte]
  exact h

/-- Of two codes with the same front, the smaller one is continued by smaller bytes, whatever
follows. -/
theorem continued_append_lt (h : v < w) (hfront : v / 64 ^ n = w / 64 ^ n) (s t : List UInt8) :
    continued n v ++ s < continued n w ++ t := by
  induction n generalizing v w s t with
  | zero =>
    rw [Nat.pow_zero, Nat.div_one, Nat.div_one] at hfront
    omega
  | succ n ih =>
    rw [continued, continued, List.append_assoc, List.append_assoc]
    rw [Nat.pow_succ', ← Nat.div_div_eq_div_mul, ← Nat.div_div_eq_div_mul] at hfront
    rcases Nat.lt_or_ge (v / 64) (w / 64) with hlt | hge
    · exact ih hlt hfront _ _
    · have hsame : v / 64 = w / 64 := by omega
      rw [hsame]
      apply List.append_left_lt
      exact List.cons_lt_cons_iff.mpr (.inl (ofNat_lt_ofNat (by omega) (by omega)))

/-- Of two characters, the one with the smaller code has the smaller bytes, whatever follows. -/
theorem utf8EncodeChar_append_lt (h : c < d) (s t : List UInt8) :
    String.utf8EncodeChar c ++ s < String.utf8EncodeChar d ++ t := by
  have hcode : c.toNat < d.toNat := h
  obtain ⟨offset, n, hc, hcbytes⟩ := utf8EncodeChar_eq c
  obtain ⟨offset', m, hd, hdbytes⟩ := utf8EncodeChar_eq d
  rw [hcbytes, hdbytes, List.cons_append, List.cons_append, List.cons_lt_cons_iff]
  have hbyte := hd.first_lt
  rcases hc.first_lt_or hd hcode with hfirst | ⟨rfl, rfl⟩
  · exact .inl (ofNat_lt_ofNat hfirst hbyte)
  · have hle : c.toNat / 64 ^ n ≤ d.toNat / 64 ^ n := Nat.div_le_div_right (Nat.le_of_lt hcode)
    rcases Nat.lt_or_eq_of_le hle with hlt | hsame
    · exact .inl (ofNat_lt_ofNat (by omega) hbyte)
    · exact .inr ⟨by rw [hsame], continued_append_lt hcode hsame s t⟩

/-- A smaller text has smaller bytes. -/
theorem flatMap_utf8EncodeChar_lt {s t : Text} (h : s < t) :
    s.flatMap String.utf8EncodeChar < t.flatMap String.utf8EncodeChar := by
  induction s generalizing t with
  | nil =>
    cases t with
    | nil => exact absurd h (List.lt_irrefl _)
    | cons d t =>
      obtain ⟨_, _, _, hbytes⟩ := utf8EncodeChar_eq d
      rw [List.flatMap_cons, hbytes]
      exact List.nil_lt_cons _ _
  | cons c s ih =>
    cases t with
    | nil => exact absurd h (List.not_lt_nil _)
    | cons d t =>
      rw [List.flatMap_cons, List.flatMap_cons]
      rcases List.cons_lt_cons_iff.mp h with hchar | ⟨rfl, hrest⟩
      · exact utf8EncodeChar_append_lt hchar _ _
      · exact List.append_left_lt (ih hrest)

/-- The bytes of a name. -/
def bytesOf (name : String) : List UInt8 := name.toUTF8.data.toList

theorem bytesOf_eq (name : String) :
    bytesOf name = name.toList.flatMap String.utf8EncodeChar := by
  rw [bytesOf, String.toUTF8_eq_toByteArray, ← String.utf8Encode_toList, List.utf8Encode,
    List.data_toByteArray]

/-- Names in increasing order are in the order of their bytes. -/
theorem bytesOf_lt {a b : String} (h : a < b) : bytesOf a < bytesOf b := by
  rw [bytesOf_eq, bytesOf_eq]
  exact flatMap_utf8EncodeChar_lt (String.lt_iff_toList_lt.mp h)

end Retint.Text
