import Mathlib.Data.List.DropRight
import Mathlib.Data.List.TakeWhile
import Retint.Json.Reader

/-!
# The parts of a JSON text

Blanks, strings and numbers, each described by the texts that write it. The reader takes exactly the
text that was written, whatever stands behind it, as long as that does not go on with a number, and
it takes nothing else.
-/

namespace Retint.Json

variable {t rest : Text}

/-! ### Blanks -/

/-- A run of blanks, which may be empty. -/
def IsBlankRun (t : Text) : Prop := ∀ c ∈ t, isBlank c = true

theorem isBlankRun_nil : IsBlankRun [] := by simp [IsBlankRun]

theorem IsBlankRun.append {u : Text} (ht : IsBlankRun t) (hu : IsBlankRun u) :
    IsBlankRun (t ++ u) := by
  intro c hc
  rcases List.mem_append.mp hc with hc | hc
  · exact ht c hc
  · exact hu c hc

theorem skipBlanks_append (h : IsBlankRun t) : skipBlanks (t ++ rest) = skipBlanks rest :=
  List.dropWhile_append_of_pos h

theorem skipBlanks_cons {c : Char} (h : isBlank c = false) :
    skipBlanks (c :: rest) = c :: rest :=
  List.dropWhile_cons_of_neg (by simp [h])

/-- What is skipped is a run of blanks. -/
theorem exists_blanks (t : Text) : ∃ blanks, IsBlankRun blanks ∧ t = blanks ++ skipBlanks t :=
  ⟨t.takeWhile isBlank, fun _ hc => List.mem_takeWhile_imp hc,
    List.takeWhile_append_dropWhile.symm⟩

theorem skipBlanks_eq_nil_iff : skipBlanks t = [] ↔ IsBlankRun t := List.dropWhile_eq_nil_iff

@[simp] theorem skipBlanks_skipBlanks (t : Text) : skipBlanks (skipBlanks t) = skipBlanks t :=
  List.dropWhile_idempotent isBlank t

/-- What may stand behind a value: nothing, or a blank, a comma or a closing bracket. -/
def Ends (rest : Text) : Prop := ∀ c ∈ rest.head?, isBlank c = true ∨ c = ',' ∨ c = ']' ∨ c = '}'

theorem ends_nil : Ends [] := by simp [Ends]

theorem ends_cons {c : Char} (h : c = ',' ∨ c = ']' ∨ c = '}') : Ends (c :: rest) := by
  intro d hd
  obtain rfl : c = d := by simpa using hd
  exact .inr h

/-- Blanks may stand in front of what may stand behind a value. -/
theorem Ends.blanks_append (ht : IsBlankRun t) (h : Ends rest) : Ends (t ++ rest) := by
  intro c hc
  cases t with
  | nil => exact h c hc
  | cons d t =>
    obtain rfl : d = c := by simpa using hc
    exact .inl (ht d List.mem_cons_self)

/-- What stands behind a value does not go on with a number. -/
theorem Ends.not_numeric (h : Ends rest) : ∀ c ∈ rest.head?,
    c.isDigit = false ∧ c ≠ '.' ∧ c ≠ 'e' ∧ c ≠ 'E' := by
  intro c hc
  have hcases : c = ' ' ∨ c = '\n' ∨ c = '\t' ∨ c = '\r' ∨ c = ',' ∨ c = ']' ∨ c = '}' := by
    simpa [isBlank, or_assoc] using h c hc
  rcases hcases with rfl | rfl | rfl | rfl | rfl | rfl | rfl <;> decide

/-! ### Words -/

theorem skipWord?_append (word : String) (rest : Text) :
    skipWord? word (word.toList ++ rest) = some rest := by
  have hbegins : word.toList.isPrefixOf (word.toList ++ rest) = true := by simp
  rw [skipWord?, if_pos hbegins, ← String.length_toList, List.drop_left]

theorem eq_append_of_skipWord? {word : String} (h : skipWord? word t = some rest) :
    t = word.toList ++ rest := by
  rw [skipWord?, Option.ite_none_right_eq_some] at h
  obtain ⟨hbegins, hrest⟩ := h
  obtain ⟨u, rfl⟩ := List.isPrefixOf_iff_prefix.mp hbegins
  rw [← String.length_toList, List.drop_left, Option.some.injEq] at hrest
  rw [hrest]

/-! ### Strings -/

/-- A text that stands between quotes writes the pieces of a string: each character for itself, one
escaped by a backslash, or a unit of UTF-16 by four hexadecimal digits. -/
inductive WritesPieces : Text → List Piece → Prop
  | nil : WritesPieces [] []
  | char {c : Char} {t : Text} {pieces : List Piece} (hcontrol : 0x20 ≤ c.toNat) (hquote : c ≠ '"')
      (hescape : c ≠ '\\') (later : WritesPieces t pieces) :
    WritesPieces (c :: t) (.char c :: pieces)
  | escaped {c d : Char} {t : Text} {pieces : List Piece} (hescaped : escaped? c = some d)
      (later : WritesPieces t pieces) : WritesPieces ('\\' :: c :: t) (.char d :: pieces)
  | unit {a b c d : Char} {i j k l : Nat} {t : Text} {pieces : List Piece}
      (ha : Text.hexValue? a = some i) (hb : Text.hexValue? b = some j)
      (hc : Text.hexValue? c = some k) (hd : Text.hexValue? d = some l)
      (later : WritesPieces t pieces) :
      WritesPieces ('\\' :: 'u' :: a :: b :: c :: d :: t)
        (.unit (((i * 16 + j) * 16 + k) * 16 + l) :: pieces)

/-- The pieces of a string are read up to the closing quote. -/
theorem WritesPieces.readPieces? {pieces : List Piece} (h : WritesPieces t pieces) (rest : Text) :
    readPieces? (t ++ '"' :: rest) = some (pieces, rest) := by
  induction h with
  | nil => rfl
  | @char c t pieces hcontrol hquote hescape later ih =>
    have hcontrol : ¬ c.toNat < 0x20 := by omega
    rw [List.cons_append, Json.readPieces?.eq_5 _ _ hquote (fun _ _ _ _ _ hc _ => hescape hc)
      fun _ _ hc _ => hescape hc]
    simp [hcontrol, hescape, ih]
  | @escaped c d t pieces hescaped later ih =>
    have hunit : c ≠ 'u' := by
      rintro rfl
      simp [escaped?] at hescaped
    rw [List.cons_append, List.cons_append,
      Json.readPieces?.eq_4 _ _ fun _ _ _ _ _ hc _ => hunit hc]
    simp [hescaped, ih]
  | unit ha hb hc hd later ih => simp [Json.readPieces?, ha, hb, hc, hd, ih]

/-- Whatever pieces are read were written in front of a quote. -/
theorem exists_of_readPieces? {pieces : List Piece} (h : readPieces? t = some (pieces, rest)) :
    ∃ u, t = u ++ '"' :: rest ∧ WritesPieces u pieces := by
  fun_induction readPieces? t generalizing pieces with
  | case1 => contradiction
  | case2 later =>
    obtain ⟨rfl, rfl⟩ : [] = pieces ∧ later = rest := by simpa using h
    exact ⟨[], rfl, .nil⟩
  | case3 a b c d later ih =>
    simp only [Option.bind_eq_bind, Option.bind_eq_some_iff] at h
    obtain ⟨i, ha, j, hb, k, hc, l, hd, ⟨found, left⟩, hlater, h⟩ := h
    obtain ⟨rfl, rfl⟩ : _ ∧ left = rest := by simpa using h
    obtain ⟨u, rfl, hu⟩ := ih hlater
    exact ⟨_, rfl, .unit ha hb hc hd hu⟩
  | case4 c later _ ih =>
    simp only [Option.bind_eq_bind, Option.bind_eq_some_iff] at h
    obtain ⟨d, hescaped, ⟨found, left⟩, hlater, h⟩ := h
    obtain ⟨rfl, rfl⟩ : _ ∧ left = rest := by simpa using h
    obtain ⟨u, rfl, hu⟩ := ih hlater
    exact ⟨_, rfl, .escaped hescaped hu⟩
  | case5 => contradiction
  | case6 c later hquote _ _ hplain ih =>
    simp only [Option.bind_eq_bind, Option.bind_eq_some_iff] at h
    obtain ⟨⟨found, left⟩, hlater, h⟩ := h
    obtain ⟨rfl, rfl⟩ : _ ∧ left = rest := by simpa using h
    obtain ⟨u, rfl, hu⟩ := ih hlater
    simp only [Bool.or_eq_true, decide_eq_true_eq, beq_iff_eq, not_or, Nat.not_lt] at hplain
    exact ⟨_, rfl, .char hplain.1 hquote hplain.2 hu⟩

theorem readString?_eq_some_iff {text : Option Text} :
    readString? t = some (text, rest) ↔
      ∃ u pieces, t = u ++ '"' :: rest ∧ WritesPieces u pieces ∧ joinPieces? pieces = text := by
  unfold readString?
  constructor
  · intro h
    simp only [Option.map_eq_some_iff] at h
    obtain ⟨⟨pieces, left⟩, hread, h⟩ := h
    obtain ⟨rfl, rfl⟩ : joinPieces? pieces = text ∧ left = rest := by simpa using h
    obtain ⟨u, rfl, hu⟩ := exists_of_readPieces? hread
    exact ⟨u, pieces, rfl, hu, rfl⟩
  · rintro ⟨u, pieces, rfl, hu, rfl⟩
    rw [hu.readPieces? rest]
    rfl

/-! ### Numbers -/

/-- A run of at least one decimal digit. -/
def IsDigits (t : Text) : Prop := t ≠ [] ∧ ∀ c ∈ t, c.isDigit = true

theorem IsDigits.readDigits? (h : IsDigits t) (hrest : ∀ c ∈ rest.head?, c.isDigit = false) :
    readDigits? (t ++ rest) = some (t, rest) := by
  obtain ⟨hne, hdigits⟩ := h
  have htake : (t ++ rest).takeWhile Char.isDigit = t := by
    rw [List.takeWhile_append_of_pos hdigits]
    cases rest with
    | nil => exact List.append_nil t
    | cons c rest =>
      rw [List.takeWhile_cons_of_neg (by simp [hrest c rfl]), List.append_nil]
  have hdrop : (t ++ rest).dropWhile Char.isDigit = rest := by
    rw [List.dropWhile_append_of_pos hdigits]
    cases rest with
    | nil => rfl
    | cons c rest => rw [List.dropWhile_cons_of_neg (by simp [hrest c rfl])]
  rw [Json.readDigits?, htake, hdrop]
  split
  · contradiction
  · rfl

theorem eq_append_of_readDigits? {digits : Text} (h : readDigits? t = some (digits, rest)) :
    t = digits ++ rest ∧ IsDigits digits := by
  unfold readDigits? at h
  split at h
  · contradiction
  · rename_i hne
    obtain ⟨rfl, rfl⟩ : _ ∧ t.dropWhile Char.isDigit = rest := by simpa using h
    exact ⟨List.takeWhile_append_dropWhile.symm, fun h => hne h, fun c hc =>
      List.mem_takeWhile_imp hc⟩

theorem ne_of_isDigit {c d : Char} (hc : c.isDigit = true) (hd : d.isDigit = false) : c ≠ d := by
  rintro rfl
  rw [hc] at hd
  contradiction

/-- The digits before the point: a zero alone, or digits that do not begin with one. -/
def IsWhole (t : Text) : Prop := t = ['0'] ∨ IsDigits t ∧ t.head? ≠ some '0'

theorem IsWhole.isDigits (h : IsWhole t) : IsDigits t := by
  rcases h with rfl | ⟨h, _⟩
  · exact ⟨List.cons_ne_nil _ _, List.forall_mem_singleton.mpr rfl⟩
  · exact h

theorem IsWhole.readWhole? (h : IsWhole t) (hrest : ∀ c ∈ rest.head?, c.isDigit = false) :
    readWhole? (t ++ rest) = some (t, rest) := by
  have hread := h.isDigits.readDigits? hrest
  rcases h with rfl | ⟨h, hzero⟩
  · cases rest with
    | nil => exact hread
    | cons c rest => simp [Json.readWhole?, hrest c rfl]
  · obtain ⟨c, t, rfl⟩ := List.exists_cons_of_ne_nil h.1
    rw [List.cons_append] at hread ⊢
    unfold Json.readWhole?
    split
    · simp_all
    · exact hread

theorem eq_append_of_readWhole? {whole : Text} (h : readWhole? t = some (whole, rest)) :
    t = whole ++ rest ∧ IsWhole whole := by
  unfold readWhole? at h
  split at h
  · rename_i c later
    split at h
    · contradiction
    · obtain ⟨rfl, rfl⟩ : _ ∧ _ = rest := by simpa using h
      exact ⟨rfl, .inl rfl⟩
  · rename_i hzero
    obtain ⟨rfl, hdigits⟩ := eq_append_of_readDigits? h
    refine ⟨rfl, ?_⟩
    obtain ⟨c, digits, rfl⟩ := List.exists_cons_of_ne_nil hdigits.1
    by_cases hc : c = '0'
    · subst hc
      cases digits with
      | nil => exact .inl rfl
      | cons d digits => exact absurd rfl (hzero d (digits ++ rest))
    · exact .inr ⟨hdigits, by simpa using hc⟩

/-- What writes the digits behind the point: nothing, or a point and digits. -/
inductive WritesFraction : Text → Option Text → Prop
  | absent : WritesFraction [] none
  | present {digits : Text} (h : IsDigits digits) : WritesFraction ('.' :: digits) (some digits)

/-- What writes a power of ten: nothing, or one of two letters, a sign if any, and digits. -/
inductive WritesExponent : Text → Option (Bool × Text) → Prop
  | absent : WritesExponent [] none
  | present {e : Char} {sign : Text} {negative : Bool} {digits : Text} (he : e = 'e' ∨ e = 'E')
      (hsign : sign = [] ∧ negative = false ∨ sign = ['+'] ∧ negative = false ∨
        sign = ['-'] ∧ negative = true)
      (h : IsDigits digits) : WritesExponent (e :: (sign ++ digits)) (some (negative, digits))

/-- What writes a number: a sign if any, the digits before the point, those behind it and a power
of ten. -/
inductive WritesNumeral : Text → Numeral → Prop
  | mk {sign whole f e : Text} {negative : Bool} {fraction : Option Text}
      {exponent : Option (Bool × Text)}
      (hsign : sign = [] ∧ negative = false ∨ sign = ['-'] ∧ negative = true)
      (hwhole : IsWhole whole) (hfraction : WritesFraction f fraction)
      (hexponent : WritesExponent e exponent) :
      WritesNumeral (sign ++ (whole ++ (f ++ e))) ⟨negative, whole, fraction, exponent⟩

variable {fraction : Option Text} {exponent : Option (Bool × Text)} {n : Numeral}

theorem WritesFraction.readFraction? (h : WritesFraction t fraction)
    (hrest : ∀ c ∈ rest.head?, c.isDigit = false ∧ c ≠ '.') :
    readFraction? (t ++ rest) = some (fraction, rest) := by
  cases h with
  | absent =>
    unfold Json.readFraction?
    split
    · rename_i later heq
      rw [List.nil_append] at heq
      exact absurd rfl (hrest '.' (by rw [heq]; rfl)).2
    · rfl
  | present h =>
    rw [List.cons_append, Json.readFraction?, h.readDigits? fun c hc => (hrest c hc).1]
    rfl

theorem exists_of_readFraction? (h : readFraction? t = some (fraction, rest)) :
    ∃ u, t = u ++ rest ∧ WritesFraction u fraction := by
  unfold Json.readFraction? at h
  split at h
  · obtain ⟨⟨digits, left⟩, hread, h⟩ := Option.map_eq_some_iff.mp h
    obtain ⟨rfl, rfl⟩ : some digits = fraction ∧ left = rest := by simpa using h
    obtain ⟨rfl, hdigits⟩ := eq_append_of_readDigits? hread
    exact ⟨_, rfl, .present hdigits⟩
  · obtain ⟨rfl, rfl⟩ : none = fraction ∧ t = rest := by simpa using h
    exact ⟨[], rfl, .absent⟩

theorem WritesExponent.readExponent? (h : WritesExponent t exponent) (hrest : Ends rest) :
    readExponent? (t ++ rest) = some (exponent, rest) := by
  cases h with
  | absent =>
    cases rest with
    | nil => rfl
    | cons c rest =>
      obtain ⟨_, _, he, hE⟩ := hrest.not_numeric c rfl
      simp [Json.readExponent?, he, hE]
  | @present e sign negative digits he hsign h =>
    have hread := h.readDigits? fun c hc => (hrest.not_numeric c hc).1
    rcases hsign with ⟨rfl, rfl⟩ | ⟨rfl, rfl⟩ | ⟨rfl, rfl⟩
    · obtain ⟨d, digits, rfl⟩ := List.exists_cons_of_ne_nil h.1
      have hminus : d ≠ '-' := ne_of_isDigit (h.2 d List.mem_cons_self) (by decide)
      have hplus : d ≠ '+' := ne_of_isDigit (h.2 d List.mem_cons_self) (by decide)
      rw [List.cons_append] at hread
      simp [Json.readExponent?, he, hminus, hplus, hread]
    · simp [Json.readExponent?, he, hread]
    · simp [Json.readExponent?, he, hread]

theorem exists_of_readExponent? (h : readExponent? t = some (exponent, rest)) :
    ∃ u, t = u ++ rest ∧ WritesExponent u exponent := by
  unfold Json.readExponent? at h
  split at h
  · obtain ⟨rfl, rfl⟩ : none = exponent ∧ [] = rest := by simpa using h
    exact ⟨[], rfl, .absent⟩
  · rename_i e later
    split at h
    · rename_i he
      obtain ⟨⟨digits, left⟩, hread, h⟩ := Option.map_eq_some_iff.mp h
      obtain ⟨rfl, rfl⟩ : _ = exponent ∧ left = rest := by simpa using h
      obtain ⟨heq, hdigits⟩ := eq_append_of_readDigits? hread
      clear hread h
      split at heq
      · subst heq
        exact ⟨_, rfl, .present he (.inr (.inr ⟨rfl, rfl⟩)) hdigits⟩
      · subst heq
        exact ⟨_, rfl, .present he (.inr (.inl ⟨rfl, rfl⟩)) hdigits⟩
      · subst heq
        exact ⟨_, rfl, .present he (.inl ⟨rfl, rfl⟩) hdigits⟩
    · obtain ⟨rfl, rfl⟩ : none = exponent ∧ e :: later = rest := by simpa using h
      exact ⟨[], rfl, .absent⟩

/-- A number is read up to what stands behind it. -/
theorem WritesNumeral.readNumeral? (h : WritesNumeral t n) (hrest : Ends rest) :
    readNumeral? (t ++ rest) = some (n, rest) := by
  obtain @⟨sign, whole, f, e, negative, fraction, exponent, hsign, hwhole, hfraction,
    hexponent⟩ := h
  have hpower : ∀ c ∈ (e ++ rest).head?, c.isDigit = false ∧ c ≠ '.' := by
    cases hexponent with
    | absent => exact fun c hc => ⟨(hrest.not_numeric c hc).1, (hrest.not_numeric c hc).2.1⟩
    | present he =>
      intro c hc
      obtain rfl := Option.some.inj hc
      rcases he with rfl | rfl <;> decide
  have hpoint : ∀ c ∈ (f ++ (e ++ rest)).head?, c.isDigit = false := by
    cases hfraction with
    | absent => exact fun c hc => (hpower c hc).1
    | present =>
      intro c hc
      obtain rfl := Option.some.inj hc
      decide
  have hparts : readWhole? (whole ++ (f ++ (e ++ rest))) = some (whole, f ++ (e ++ rest)) ∧
      readFraction? (f ++ (e ++ rest)) = some (fraction, e ++ rest) ∧
      readExponent? (e ++ rest) = some (exponent, rest) :=
    ⟨hwhole.readWhole? hpoint, hfraction.readFraction? hpower, hexponent.readExponent? hrest⟩
  obtain ⟨hwhole', hfraction', hexponent'⟩ := hparts
  unfold Json.readNumeral?
  rcases hsign with ⟨rfl, rfl⟩ | ⟨rfl, rfl⟩
  · obtain ⟨d, whole, rfl⟩ := List.exists_cons_of_ne_nil hwhole.isDigits.1
    have hminus : d ≠ '-' := ne_of_isDigit (hwhole.isDigits.2 d List.mem_cons_self) (by decide)
    simp only [List.nil_append, List.append_assoc]
    rw [List.cons_append] at hwhole' ⊢
    simp [hminus, hwhole', hfraction', hexponent']
  · simp [hwhole', hfraction', hexponent']

/-- The parts of a number that are read one behind the other, and a sign in front, write it. -/
theorem exists_of_readParts {sign w x whole : Text} {negative : Bool}
    (hsign : sign = [] ∧ negative = false ∨ sign = ['-'] ∧ negative = true)
    (hwhole : readWhole? t = some (whole, w)) (hfraction : readFraction? w = some (fraction, x))
    (hexponent : readExponent? x = some (exponent, rest)) :
    ∃ u, sign ++ t = u ++ rest ∧ WritesNumeral u ⟨negative, whole, fraction, exponent⟩ := by
  obtain ⟨rfl, hwhole'⟩ := eq_append_of_readWhole? hwhole
  obtain ⟨f, rfl, hfraction'⟩ := exists_of_readFraction? hfraction
  obtain ⟨e, rfl, hexponent'⟩ := exists_of_readExponent? hexponent
  exact ⟨sign ++ (whole ++ (f ++ e)), by simp, .mk hsign hwhole' hfraction' hexponent'⟩

/-- Whatever number is read was written. -/
theorem exists_of_readNumeral? (h : readNumeral? t = some (n, rest)) :
    ∃ u, t = u ++ rest ∧ WritesNumeral u n := by
  unfold Json.readNumeral? at h
  dsimp only at h
  split at h
  · simp only [Option.bind_eq_bind, Option.bind_eq_some_iff] at h
    obtain ⟨⟨whole, _⟩, hwhole, ⟨fraction, _⟩, hfraction, ⟨exponent, left⟩, hexponent, h⟩ := h
    obtain ⟨rfl, rfl⟩ : _ = n ∧ left = rest := by simpa using h
    exact exists_of_readParts (.inr ⟨rfl, rfl⟩) hwhole hfraction hexponent
  · simp only [Option.bind_eq_bind, Option.bind_eq_some_iff] at h
    obtain ⟨⟨whole, _⟩, hwhole, ⟨fraction, _⟩, hfraction, ⟨exponent, left⟩, hexponent, h⟩ := h
    obtain ⟨rfl, rfl⟩ : _ = n ∧ left = rest := by simpa using h
    exact exists_of_readParts (.inl ⟨rfl, rfl⟩) hwhole hfraction hexponent

end Retint.Json
