/-!
# Texts and byte offsets

A text is a list of characters, and every position in one is an offset in bytes of its UTF-8
encoding. An offset is usable only when it falls between two characters: `Text.splitAt?` cuts a
text there and answers `none` anywhere else. `splitAt?_eq_some_iff` says that the cuts are exactly
the ways of writing the text as two parts, the first of which has the given number of bytes.
-/

namespace Retint

/-- A snapshot of a document, as its characters. -/
abbrev Text := List Char

namespace Text

/-- The number of bytes of the UTF-8 encoding. -/
def byteSize : Text → Nat
  | [] => 0
  | c :: rest => c.utf8Size + byteSize rest

@[simp] theorem byteSize_nil : byteSize [] = 0 := rfl

@[simp] theorem byteSize_cons (c : Char) (t : Text) :
    byteSize (c :: t) = c.utf8Size + byteSize t := rfl

@[simp] theorem byteSize_append (s t : Text) : byteSize (s ++ t) = byteSize s + byteSize t := by
  induction s with
  | nil => simp
  | cons c s ih => simp [ih, Nat.add_assoc]

@[simp] theorem byteSize_reverse (t : Text) : byteSize t.reverse = byteSize t := by
  induction t with
  | nil => rfl
  | cons c t ih => simp [ih, Nat.add_comm]

/-- The text cut after its first `offset` bytes, unless that offset lies inside a character or
beyond the end. -/
def splitAt? : Text → Nat → Option (Text × Text)
  | t, 0 => some ([], t)
  | [], _ + 1 => none
  | c :: rest, offset + 1 =>
    if c.utf8Size ≤ offset + 1 then
      (splitAt? rest (offset + 1 - c.utf8Size)).map fun (front, back) => (c :: front, back)
    else none

@[simp] theorem splitAt?_zero (t : Text) : splitAt? t 0 = some ([], t) := by
  cases t <;> rfl

/-- Cutting a concatenation where its first part ends gives both parts back. -/
theorem splitAt?_append (s t : Text) : splitAt? (s ++ t) (byteSize s) = some (s, t) := by
  induction s with
  | nil => simp
  | cons c s ih =>
    obtain ⟨n, hn⟩ : ∃ n, c.utf8Size + byteSize s = n + 1 :=
      ⟨c.utf8Size + byteSize s - 1, by have := c.utf8Size_pos; omega⟩
    have hle : c.utf8Size ≤ n + 1 := by omega
    have hrest : n + 1 - c.utf8Size = byteSize s := by omega
    simp only [byteSize_cons, List.cons_append, hn, splitAt?, hle, if_true, hrest, ih]
    rfl

/-- A cut loses nothing, and its first part has as many bytes as the offset says. -/
theorem eq_append_of_splitAt? {t front back : Text} {offset : Nat}
    (h : splitAt? t offset = some (front, back)) :
    t = front ++ back ∧ byteSize front = offset := by
  induction t generalizing front offset with
  | nil =>
    cases offset with
    | zero => simp_all
    | succ n => simp [splitAt?] at h
  | cons c rest ih =>
    cases offset with
    | zero => simp_all
    | succ n =>
      simp only [splitAt?] at h
      split at h
      · rename_i hle
        obtain ⟨⟨front', back'⟩, hcut, heq⟩ := Option.map_eq_some_iff.mp h
        simp only [Prod.mk.injEq] at heq
        obtain ⟨rfl, rfl⟩ := heq
        obtain ⟨hrest, hsize⟩ := ih hcut
        refine ⟨by simp [hrest], ?_⟩
        simp only [byteSize_cons, hsize]
        omega
      · simp at h

/-- The cuts of a text at an offset are the ways of writing it as two parts, the first of which
has that many bytes. -/
theorem splitAt?_eq_some_iff {t front back : Text} {offset : Nat} :
    splitAt? t offset = some (front, back) ↔ t = front ++ back ∧ byteSize front = offset :=
  ⟨eq_append_of_splitAt?, fun ⟨ht, hsize⟩ => by rw [ht, ← hsize, splitAt?_append]⟩

/-- Whether an offset falls between two characters, or at an end. -/
def isBoundary (t : Text) (offset : Nat) : Bool := (t.splitAt? offset).isSome

/-- The text of the bytes from `start` up to `stop`, unless one of them is no boundary or they
are in the wrong order. -/
def slice? (t : Text) (start stop : Nat) : Option Text := do
  let (front, _) ← t.splitAt? stop
  let (_, part) ← front.splitAt? start
  return part

/-- The number of characters before an offset; one inside a character counts as the start of
that character, and one beyond the end has no answer. -/
def charIndex? : Text → Nat → Option Nat
  | _, 0 => some 0
  | [], _ + 1 => none
  | c :: rest, offset + 1 =>
    if c.utf8Size ≤ offset + 1 then
      (charIndex? rest (offset + 1 - c.utf8Size)).map (· + 1)
    else some 0

/-- Whether some text occurs in another one as consecutive characters. -/
def occurs (part : Text) : Text → Bool
  | [] => part.isEmpty
  | c :: rest => part.isPrefixOf (c :: rest) || occurs part rest

end Text

end Retint
