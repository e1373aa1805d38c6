import Mathlib.Data.List.TakeWhile
import Retint.Style.Color

/-!
# Colours as they are written

A text spells a colour if it is six hexadecimal digits, with at most one number sign in front of
them and nothing around these but white space. Reading accepts exactly the spellings, and the colour
that is read is the one that is written with the same digits in capitals. So a colour that is
written and read comes back, and two spellings mean the same colour exactly if their digits agree up
to the case of letters.
-/

namespace Retint

namespace Text

/-! ### White space at the ends -/

/-- What stands between white space and has none in it is left by trimming. -/
theorem trim_surround {before core after : Text} (hcore : core ≠ [])
    (hbefore : ∀ c ∈ before, isBlank c = true) (hafter : ∀ c ∈ after, isBlank c = true)
    (hfull : ∀ c ∈ core, isBlank c = false) : trim (before ++ core ++ after) = core := by
  have hstop : ∀ (t rest : Text), t ≠ [] → (∀ c ∈ t, isBlank c = false) →
      (t ++ rest).dropWhile isBlank = t ++ rest := by
    intro t rest ht hblank
    obtain ⟨c, t, rfl⟩ := List.exists_cons_of_ne_nil ht
    have hc := hblank c List.mem_cons_self
    rw [List.cons_append, List.dropWhile_cons_of_neg (by simp [hc])]
  unfold trim
  rw [List.append_assoc, List.dropWhile_append_of_pos hbefore, hstop core after hcore hfull,
    List.reverse_append, List.dropWhile_append_of_pos (by simpa using hafter)]
  have hback := hstop core.reverse [] (by simpa using hcore) (by simpa using hfull)
  rw [List.append_nil] at hback
  rw [hback, List.reverse_reverse]

/-- Trimming takes nothing away but white space at the ends. -/
theorem exists_surround_trim (t : Text) : ∃ before after, t = before ++ trim t ++ after ∧
    (∀ c ∈ before, isBlank c = true) ∧ ∀ c ∈ after, isBlank c = true := by
  refine ⟨t.takeWhile isBlank, ((t.dropWhile isBlank).reverse.takeWhile isBlank).reverse, ?_,
    fun c hc => List.mem_takeWhile_imp hc,
    fun c hc => List.mem_takeWhile_imp (List.mem_reverse.mp hc)⟩
  rw [List.append_assoc, trim, ← List.reverse_append, List.takeWhile_append_dropWhile,
    List.reverse_reverse, List.takeWhile_append_dropWhile]

/-! ### Hexadecimal digits -/

/-- A hexadecimal digit, with a letter in either case. -/
def IsHexDigit (c : Char) : Prop :=
  ('0' ≤ c ∧ c ≤ '9') ∨ ('a' ≤ c ∧ c ≤ 'f') ∨ ('A' ≤ c ∧ c ≤ 'F')

instance (c : Char) : Decidable (IsHexDigit c) := by
  unfold IsHexDigit
  infer_instance

/-- Hexadecimal digits are among the first characters, so what holds of these holds of them. -/
theorem IsHexDigit.of_first {p : Char → Prop} {c : Char} (h : IsHexDigit c)
    (hfirst : ∀ n : Fin 128, IsHexDigit (Char.ofNat n) → p (Char.ofNat n)) : p c := by
  have hlt : c.toNat < 128 := by
    simp only [IsHexDigit, Char.le_def, UInt32.le_iff_toNat_le] at h
    have h9 : '9'.val.toNat = 57 := rfl
    have hf : 'f'.val.toNat = 102 := rfl
    have hF : 'F'.val.toNat = 70 := rfl
    have hc : c.toNat = c.val.toNat := rfl
    omega
  have hc := hfirst ⟨c.toNat, hlt⟩
  simp only [Char.ofNat_toNat] at hc
  exact hc h

/-- The hexadecimal digit for a value, as a capital. -/
def hexDigit (value : Nat) : Char := (Nat.digitChar value).toUpper

/-- A digit has a value, and as a capital it is the digit for that value. -/
theorem exists_hexValue {c : Char} (h : IsHexDigit c) :
    ∃ value < 16, hexValue? c = some value ∧ hexDigit value = c.toUpper := by
  refine h.of_first (p := fun c => ∃ value < 16, hexValue? c = some value ∧
    hexDigit value = c.toUpper) ?_
  decide +kernel

/-- Only digits have a value. -/
theorem isHexDigit_of_hexValue? {c : Char} {value : Nat} (h : hexValue? c = some value) :
    IsHexDigit c := by
  unfold hexValue? at h
  split at h
  · rename_i hdigit
    exact .inl hdigit
  · split at h
    · rename_i hsmall
      exact .inr (.inl hsmall)
    · split at h
      · rename_i hcapital
        exact .inr (.inr hcapital)
      · contradiction

/-- The digit for a value is a digit, has that value and is a capital. -/
theorem hexDigit_spec {value : Nat} (h : value < 16) : IsHexDigit (hexDigit value) ∧
    hexValue? (hexDigit value) = some value ∧ (hexDigit value).toUpper = hexDigit value := by
  have hall : ∀ value : Fin 16, IsHexDigit (hexDigit value) ∧
      hexValue? (hexDigit value) = some value.val ∧
        (hexDigit value).toUpper = hexDigit value := by
    decide +kernel
  exact hall ⟨value, h⟩

/-- A digit is neither white space nor a number sign. -/
theorem IsHexDigit.ne {c : Char} (h : IsHexDigit c) : isBlank c = false ∧ c ≠ '#' := by
  refine h.of_first (p := fun c => isBlank c = false ∧ c ≠ '#') ?_
  decide +kernel

end Text

namespace Rgb

/-- A text spells a colour with some digits. -/
structure IsSpelling (written digits : Text) : Prop where
  /-- The digits stand behind at most one number sign, between white space. -/
  surround : ∃ before sign after, written = before ++ (sign ++ digits) ++ after ∧
    (sign = [] ∨ sign = ['#']) ∧ (∀ c ∈ before, Text.isBlank c = true) ∧
    ∀ c ∈ after, Text.isBlank c = true
  /-- There are six of them. -/
  length_eq : digits.length = 6
  /-- They are hexadecimal digits. -/
  isHexDigit : ∀ c ∈ digits, Text.IsHexDigit c

/-- A text without a number sign in front. -/
def withoutSign : Text → Text
  | '#' :: rest => rest
  | other => other

variable {written digits : Text} {c : Rgb}

/-- The digits of a spelling are what is left after trimming and taking the sign away. -/
theorem IsSpelling.withoutSign_trim (h : IsSpelling written digits) :
    withoutSign written.trim = digits := by
  obtain ⟨before, sign, after, rfl, hsign, hbefore, hafter⟩ := h.surround
  have hlength := h.length_eq
  obtain ⟨first, rest, rfl⟩ := List.exists_cons_of_length_eq_add_one hlength
  have hfull : ∀ c ∈ sign ++ first :: rest, Text.isBlank c = false := by
    intro c hc
    rcases List.mem_append.mp hc with hmem | hmem
    · rcases hsign with rfl | rfl
      · contradiction
      · obtain rfl := List.mem_singleton.mp hmem
        decide
    · exact (h.isHexDigit c hmem).ne.1
  rw [Text.trim_surround (by simp) hbefore hafter hfull]
  rcases hsign with rfl | rfl
  · have hfirst : first ≠ '#' := (h.isHexDigit first List.mem_cons_self).ne.2
    rw [List.nil_append, withoutSign]
    simpa using hfirst
  · rfl

/-- Six digits that are left after trimming and taking the sign away are spelled. -/
theorem isSpelling_withoutSign_trim (hlength : (withoutSign written.trim).length = 6)
    (hdigits : ∀ c ∈ withoutSign written.trim, Text.IsHexDigit c) :
    IsSpelling written (withoutSign written.trim) := by
  refine ⟨?_, hlength, hdigits⟩
  obtain ⟨before, after, hwritten, hbefore, hafter⟩ := written.exists_surround_trim
  have hsign : ∀ t : Text, ∃ sign, t = sign ++ withoutSign t ∧ (sign = [] ∨ sign = ['#']) := by
    intro t
    unfold withoutSign
    split
    · exact ⟨['#'], rfl, .inr rfl⟩
    · exact ⟨[], rfl, .inl rfl⟩
  obtain ⟨sign, htrim, hsign⟩ := hsign written.trim
  rw [htrim] at hwritten
  exact ⟨before, sign, after, hwritten, hsign, hbefore, hafter⟩

/-! ### The values of the digits -/

/-- Values are found for all elements of a list if each of them has one. -/
theorem mapM_eq_some_iff {α β : Type} {f : α → Option β} {as : List α} {bs : List β} :
    as.mapM f = some bs ↔ as.map f = bs.map some := by
  induction as generalizing bs with
  | nil => cases bs <;> simp
  | cons a as ih =>
    rw [List.mapM_cons, List.map_cons]
    cases hvalue : f a with
    | none => cases bs <;> simp
    | some b =>
      cases hvalues : as.mapM f with
      | none => cases bs <;> simp [← ih, hvalues]
      | some later => cases bs <;> simp [← ih, hvalues]

/-- The colour that six digits with given values write. -/
def ofValues? : List Nat → Option Rgb
  | [r, r', g, g', b, b'] =>
    some ⟨(16 * r + r').toUInt8, (16 * g + g').toUInt8, (16 * b + b').toUInt8⟩
  | _ => none

theorem ofHex?_eq_bind (written : Text) :
    ofHex? written = ((withoutSign written.trim).mapM Text.hexValue?).bind ofValues? := by
  unfold ofHex? withoutSign
  dsimp only
  cases List.mapM Text.hexValue? _ with
  | none => rfl
  | some values =>
    rw [Option.bind_some]
    unfold ofValues?
    split <;> simp_all

/-- A colour is read exactly if there are six digits with values, and it has these values. -/
theorem ofHex?_eq_some_iff_values : ofHex? written = some c ↔ ∃ r r' g g' b b' : Nat,
    (withoutSign written.trim).map Text.hexValue? =
      [some r, some r', some g, some g', some b, some b'] ∧
    c = ⟨(16 * r + r').toUInt8, (16 * g + g').toUInt8, (16 * b + b').toUInt8⟩ := by
  rw [ofHex?_eq_bind, Option.bind_eq_some_iff]
  constructor
  · rintro ⟨values, hvalues, hcolour⟩
    unfold ofValues? at hcolour
    split at hcolour
    · rename_i r r' g g' b b'
      exact ⟨r, r', g, g', b, b', mapM_eq_some_iff.mp hvalues, (Option.some.inj hcolour).symm⟩
    · contradiction
  · rintro ⟨r, r', g, g', b, b', hvalues, rfl⟩
    exact ⟨[r, r', g, g', b, b'], mapM_eq_some_iff.mpr hvalues, rfl⟩

/-- A byte is written with the digits of its two halves. -/
theorem hexPair_eq (byte : UInt8) :
    hexPair byte = [Text.hexDigit (byte.toNat / 16), Text.hexDigit (byte.toNat % 16)] := rfl

/-- The byte with two given digits is written with these. -/
theorem hexPair_of_values {value value' : Nat} (h : value < 16) (h' : value' < 16) :
    hexPair (16 * value + value').toUInt8 = [Text.hexDigit value, Text.hexDigit value'] := by
  have hbyte : (16 * value + value').toUInt8.toNat = 16 * value + value' := by
    rw [Nat.toUInt8_eq, UInt8.toNat_ofNat']
    omega
  have hhigh : (16 * value + value') / 16 = value := by omega
  have hlow : (16 * value + value') % 16 = value' := by omega
  rw [hexPair_eq, hbyte, hhigh, hlow]

/-- Different values have different digits. -/
theorem hexDigit_inj {value value' : Nat} (h : value < 16) (h' : value' < 16)
    (heq : Text.hexDigit value = Text.hexDigit value') : value = value' := by
  have hvalue := (Text.hexDigit_spec h).2.1
  rw [heq, (Text.hexDigit_spec h').2.1] at hvalue
  exact (Option.some.inj hvalue).symm

/-- Different bytes are written differently. -/
theorem hexPair_inj {byte byte' : UInt8} (h : hexPair byte = hexPair byte') : byte = byte' := by
  rw [hexPair_eq, hexPair_eq, List.cons.injEq, List.cons.injEq] at h
  have hlt := byte.toNat_lt
  have hlt' := byte'.toNat_lt
  have hhigh := hexDigit_inj (by omega) (by omega) h.1
  have hlow := hexDigit_inj (by omega) (by omega) h.2.1
  apply UInt8.toNat_inj.mp
  omega

/-- Different colours are written differently. -/
theorem toHex_inj {c c' : Rgb} : c.toHex = c'.toHex ↔ c = c' := by
  constructor
  · intro h
    obtain ⟨red, green, blue⟩ := c
    obtain ⟨red', green', blue'⟩ := c'
    have hpairs : hexPair red = hexPair red' ∧ hexPair green = hexPair green' ∧
        hexPair blue = hexPair blue' := by
      simpa [toHex, hexPair_eq, and_assoc] using h
    obtain ⟨hred, hgreen, hblue⟩ := hpairs
    rw [hexPair_inj hred, hexPair_inj hgreen, hexPair_inj hblue]
  · rintro rfl
    rfl

/-- The digits of a spelling have values, and as capitals they are the digits for these. -/
theorem IsSpelling.exists_values (h : IsSpelling written digits) : ∃ r r' g g' b b' : Nat,
    (r < 16 ∧ r' < 16 ∧ g < 16 ∧ g' < 16 ∧ b < 16 ∧ b' < 16) ∧
    digits.map Text.hexValue? = [some r, some r', some g, some g', some b, some b'] ∧
    digits.map Char.toUpper = [Text.hexDigit r, Text.hexDigit r', Text.hexDigit g,
      Text.hexDigit g', Text.hexDigit b, Text.hexDigit b'] := by
  have hvalue := fun d hd => Text.exists_hexValue (h.isHexDigit d hd)
  have hlength := h.length_eq
  match digits, hlength with
  | [d, d', e, e', f, f'], _ =>
    simp only [List.forall_mem_cons] at hvalue
    obtain ⟨⟨r, hr, hd, hdr⟩, ⟨r', hr', hd', hdr'⟩, ⟨g, hg, he, heg⟩, ⟨g', hg', he', heg'⟩,
      ⟨b, hb, hf, hfb⟩, ⟨b', hb', hf', hfb'⟩, _⟩ := hvalue
    refine ⟨r, r', g, g', b, b', ⟨hr, hr', hg, hg', hb, hb'⟩, ?_, ?_⟩
    · simp only [List.map_cons, List.map_nil, hd, hd', he, he', hf, hf']
    · simp only [List.map_cons, List.map_nil, hdr, hdr', heg, heg', hfb, hfb']

/-- A spelling is read as the colour that is written with the same digits in capitals. -/
theorem IsSpelling.exists_ofHex? (h : IsSpelling written digits) :
    ∃ c, ofHex? written = some c ∧ c.toHex = '#' :: digits.map Char.toUpper := by
  obtain ⟨r, r', g, g', b, b', ⟨hr, hr', hg, hg', hb, hb'⟩, hvalues, hcapitals⟩ := h.exists_values
  rw [← h.withoutSign_trim] at hvalues
  refine ⟨_, ofHex?_eq_some_iff_values.mpr ⟨r, r', g, g', b, b', hvalues, rfl⟩, ?_⟩
  rw [toHex, hexPair_of_values hr hr', hexPair_of_values hg hg', hexPair_of_values hb hb',
    hcapitals]
  rfl

/-- The number that hexadecimal digits write. -/
def hexNumber (digits : Text) : Nat :=
  (digits.map Text.hexValue?).foldl (fun n value => 16 * n + value.getD 0) 0

/-- The bytes of a colour follow each other in its code. -/
theorem ofCode_of_bytes {red green blue : Nat} (hred : red < 256) (hgreen : green < 256)
    (hblue : blue < 256) : ofCode (256 * (256 * red + green) + blue).toUInt32 =
      ⟨red.toUInt8, green.toUInt8, blue.toUInt8⟩ := by
  have hcode : (256 * (256 * red + green) + blue).toUInt32.toNat =
      256 * (256 * red + green) + blue := by
    rw [Nat.toUInt32_eq, UInt32.toNat_ofNat']
    omega
  have hbyte : ∀ {code : UInt32} {byte : Nat}, code.toNat % 256 = byte → byte < 256 →
      code.toUInt8 = byte.toUInt8 := by
    intro code byte hlow hlt
    apply UInt8.toNat_inj.mp
    rw [UInt32.toNat_toUInt8, Nat.toUInt8_eq, UInt8.toNat_ofNat']
    omega
  rw [ofCode, hbyte ?_ hred, hbyte ?_ hgreen, hbyte ?_ hblue]
  · rw [hcode]
    omega
  · rw [UInt32.toNat_shiftRight, hcode]
    simp [Nat.shiftRight_eq_div_pow]
    omega
  · rw [UInt32.toNat_shiftRight, hcode]
    simp [Nat.shiftRight_eq_div_pow]
    omega

/-- The code of the colour that is read is the number that the digits write. -/
theorem IsSpelling.ofHex?_eq (h : IsSpelling written digits) :
    ofHex? written = some (ofCode (hexNumber digits).toUInt32) := by
  obtain ⟨r, r', g, g', b, b', ⟨hr, hr', hg, hg', hb, hb'⟩, hvalues, _⟩ := h.exists_values
  have hnumber : hexNumber digits =
      256 * (256 * (16 * r + r') + (16 * g + g')) + (16 * b + b') := by
    simp only [hexNumber, hvalues, List.foldl_cons, List.foldl_nil, Option.getD_some]
    omega
  rw [← h.withoutSign_trim] at hvalues
  rw [hnumber, ofCode_of_bytes (by omega) (by omega) (by omega)]
  exact ofHex?_eq_some_iff_values.mpr ⟨r, r', g, g', b, b', hvalues, rfl⟩

/-- Whatever is read was spelled. -/
theorem exists_isSpelling_of_ofHex? (h : ofHex? written = some c) :
    ∃ digits, IsSpelling written digits := by
  obtain ⟨r, r', g, g', b, b', hvalues, _⟩ := ofHex?_eq_some_iff_values.mp h
  refine ⟨withoutSign written.trim, isSpelling_withoutSign_trim ?_ fun d hd => ?_⟩
  · have hlength := congrArg List.length hvalues
    rwa [List.length_map] at hlength
  · have hmem := List.mem_map_of_mem (f := Text.hexValue?) hd
    rw [hvalues] at hmem
    have hsome : ∃ value, Text.hexValue? d = some value := by
      simp only [List.mem_cons, List.not_mem_nil, or_false] at hmem
      rcases hmem with hd | hd | hd | hd | hd | hd <;> exact ⟨_, hd⟩
    obtain ⟨value, hvalue⟩ := hsome
    exact Text.isHexDigit_of_hexValue? hvalue

/-- The digits of a byte are digits and are capitals. -/
theorem hexPair_spec (byte : UInt8) : (∀ d ∈ hexPair byte, Text.IsHexDigit d) ∧
    (hexPair byte).map Char.toUpper = hexPair byte := by
  have hlt := byte.toNat_lt
  have hhigh := Text.hexDigit_spec (show byte.toNat / 16 < 16 by omega)
  have hlow := Text.hexDigit_spec (show byte.toNat % 16 < 16 by omega)
  rw [hexPair_eq]
  constructor
  · intro d hd
    simp only [List.mem_cons, List.not_mem_nil, or_false] at hd
    rcases hd with rfl | rfl
    · exact hhigh.1
    · exact hlow.1
  · rw [List.map_cons, List.map_singleton, hhigh.2.2, hlow.2.2]

/-- A colour as it is written is a spelling with capitals. -/
theorem isSpelling_toHex (c : Rgb) : ∃ digits, IsSpelling c.toHex digits ∧
    c.toHex = '#' :: digits.map Char.toUpper := by
  obtain ⟨hred, hredUpper⟩ := hexPair_spec c.red
  obtain ⟨hgreen, hgreenUpper⟩ := hexPair_spec c.green
  obtain ⟨hblue, hblueUpper⟩ := hexPair_spec c.blue
  refine ⟨hexPair c.red ++ hexPair c.green ++ hexPair c.blue, ⟨?_, rfl, fun d hd => ?_⟩, ?_⟩
  · exact ⟨[], ['#'], [], by simp [toHex], .inr rfl, by simp, by simp⟩
  · rw [List.mem_append, List.mem_append] at hd
    rcases hd with (hd | hd) | hd
    · exact hred d hd
    · exact hgreen d hd
    · exact hblue d hd
  · rw [List.map_append, List.map_append, hredUpper, hgreenUpper, hblueUpper]
    rfl

/-- **Reading a colour accepts exactly the spellings and inverts writing.** A colour is read from a
text exactly if the text spells it: if it is six hexadecimal digits, with at most one number sign in
front and white space around, and the colour is written with the same digits in capitals. Every
spelling is read, as the colour whose code the digits write, and nothing is read from any other
text. A colour that is written and read comes back, and two spellings are read as the same colour
exactly if their digits agree up to the case of letters. -/
theorem reads_exactly_spellings :
    (∀ written c, ofHex? written = some c ↔
      ∃ digits, IsSpelling written digits ∧ '#' :: digits.map Char.toUpper = c.toHex) ∧
    (∀ written, ofHex? written = none ↔ ∀ digits, ¬ IsSpelling written digits) ∧
    (∀ written digits, IsSpelling written digits →
      ofHex? written = some (ofCode (hexNumber digits).toUInt32)) ∧
    (∀ c : Rgb, ofHex? c.toHex = some c) ∧
    ∀ written written' digits digits',
      IsSpelling written digits → IsSpelling written' digits' →
      (ofHex? written = ofHex? written' ↔
        digits.map Char.toUpper = digits'.map Char.toUpper) := by
  have hread : ∀ {written digits c}, IsSpelling written digits →
      '#' :: digits.map Char.toUpper = c.toHex → ofHex? written = some c := by
    intro written digits c hspelling hdigits
    obtain ⟨c', hread, hwritten⟩ := hspelling.exists_ofHex?
    rwa [toHex_inj.mp (hwritten.trans hdigits)] at hread
  refine ⟨fun written c => ⟨fun h => ?_, ?_⟩, fun written => ?_, ?_, fun c => ?_, ?_⟩
  · obtain ⟨digits, hspelling⟩ := exists_isSpelling_of_ofHex? h
    obtain ⟨c', hread, hwritten⟩ := hspelling.exists_ofHex?
    obtain rfl := Option.some.inj (hread.symm.trans h)
    exact ⟨digits, hspelling, hwritten.symm⟩
  · rintro ⟨digits, hspelling, hdigits⟩
    exact hread hspelling hdigits
  · rw [Option.eq_none_iff_forall_ne_some]
    constructor
    · intro hnone digits hspelling
      obtain ⟨c, hread, _⟩ := hspelling.exists_ofHex?
      exact hnone c hread
    · intro hno c hread
      obtain ⟨digits, hspelling⟩ := exists_isSpelling_of_ofHex? hread
      exact hno digits hspelling
  · intro written digits hspelling
    exact hspelling.ofHex?_eq
  · obtain ⟨digits, hspelling, hdigits⟩ := isSpelling_toHex c
    exact hread hspelling hdigits.symm
  · intro written written' digits digits' hspelling hspelling'
    obtain ⟨c, hread, hwritten⟩ := hspelling.exists_ofHex?
    obtain ⟨c', hread', hwritten'⟩ := hspelling'.exists_ofHex?
    rw [hread, hread', Option.some.injEq, ← toHex_inj, hwritten, hwritten', List.cons.injEq]
    exact and_iff_right rfl

/-- The same colour with small letters and with capitals, between a tab and a wide space, and a text
of six bytes that is no spelling. -/
theorem reads_exactly_spellings_of_small_letters :
    let small := "\t#ce9178\u3000".toList
    let capital := "CE9178".toList
    let wide := "ÉÉÉ".toList
    IsSpelling small "ce9178".toList ∧ IsSpelling capital "CE9178".toList ∧
      ofHex? small = some ⟨0xCE, 0x91, 0x78⟩ ∧ ofHex? small = ofHex? capital ∧
      Text.byteSize wide = 6 ∧ ofHex? wide = none := by
  intro small capital wide
  obtain ⟨hiff, _, _, _, hsame⟩ := reads_exactly_spellings
  have hdigits : ∀ digits : Text, digits.all (fun c => decide (Text.IsHexDigit c)) = true →
      ∀ c ∈ digits, Text.IsHexDigit c := by
    intro digits hall c hc
    exact of_decide_eq_true (List.all_eq_true.mp hall c hc)
  have hsmall : IsSpelling small "ce9178".toList := by
    refine ⟨⟨['\t'], ['#'], ['\u3000'], by decide, .inr rfl, ?_, ?_⟩, by decide,
      hdigits _ (by decide)⟩
    · exact List.forall_mem_singleton.mpr (by decide)
    · exact List.forall_mem_singleton.mpr (by decide)
  have hcapital : IsSpelling capital "CE9178".toList :=
    ⟨⟨[], [], [], by decide, .inl rfl, by simp, by simp⟩, by decide, hdigits _ (by decide)⟩
  refine ⟨hsmall, hcapital, (hiff _ _).mpr ⟨_, hsmall, by decide⟩, ?_, by decide, ?_⟩
  · exact (hsame _ _ _ _ hsmall hcapital).mpr (by decide)
  · decide

end Rgb

end Retint
