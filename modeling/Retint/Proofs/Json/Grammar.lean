import Retint.Proofs.Json.Tokens

/-!
# JSON texts

The grammar of JSON as a relation between texts and values: a text writes a value, with blanks
wherever they may stand. Reading accepts exactly the texts of the grammar, with the value that they
write, so nothing needs to be known about the reader beyond the grammar.
-/

namespace Retint.Json

mutual

/-- A text writes a value and has no blanks around it. -/
inductive Writes : Text → Value → Prop
  | null : Writes "null".toList .null
  | yes : Writes "true".toList (.bool true)
  | no : Writes "false".toList (.bool false)
  | number {t : Text} {n : Numeral} (h : WritesNumeral t n) : Writes t (.number n)
  | string {t : Text} {pieces : List Piece} (h : WritesPieces t pieces) :
      Writes ('"' :: t ++ ['"']) (.string (joinPieces? pieces))
  | emptyArray {blanks : Text} (h : IsBlankRun blanks) : Writes ('[' :: blanks ++ [']']) (.array [])
  | array {t : Text} {items : List Value} (h : WritesItems t items) :
      Writes ('[' :: t ++ [']']) (.array items)
  | emptyObject {blanks : Text} (h : IsBlankRun blanks) :
      Writes ('{' :: blanks ++ ['}']) (.object [])
  | object {t : Text} {members : List (Option Text × Value)} (h : WritesMembers t members) :
      Writes ('{' :: t ++ ['}']) (.object members)

/-- A text writes a value with blanks around it. -/
inductive WritesPadded : Text → Value → Prop
  | mk {before t after : Text} {v : Value} (hbefore : IsBlankRun before) (h : Writes t v)
      (hafter : IsBlankRun after) : WritesPadded (before ++ (t ++ after)) v

/-- A text writes items with commas between them. -/
inductive WritesItems : Text → List Value → Prop
  | one {t : Text} {v : Value} (h : WritesPadded t v) : WritesItems t [v]
  | cons {t u : Text} {v : Value} {items : List Value} (h : WritesPadded t v)
      (later : WritesItems u items) : WritesItems (t ++ ',' :: u) (v :: items)

/-- A text writes a member: its key between quotes, a colon and its value. -/
inductive WritesMember : Text → Option Text × Value → Prop
  | mk {before key after t : Text} {pieces : List Piece} {v : Value} (hbefore : IsBlankRun before)
      (hkey : WritesPieces key pieces) (hafter : IsBlankRun after) (h : WritesPadded t v) :
      WritesMember (before ++ '"' :: (key ++ '"' :: (after ++ ':' :: t))) (joinPieces? pieces, v)

/-- A text writes members with commas between them. -/
inductive WritesMembers : Text → List (Option Text × Value) → Prop
  | one {t : Text} {member : Option Text × Value} (h : WritesMember t member) :
      WritesMembers t [member]
  | cons {t u : Text} {member : Option Text × Value} {members : List (Option Text × Value)}
      (h : WritesMember t member) (later : WritesMembers u members) :
      WritesMembers (t ++ ',' :: u) (member :: members)

end

variable {t rest : Text} {v : Value} {items : List Value} {members : List (Option Text × Value)}

/-! ### Blanks in front -/

theorem WritesPadded.blanks_append {blanks : Text} (hblanks : IsBlankRun blanks)
    (h : WritesPadded t v) : WritesPadded (blanks ++ t) v := by
  obtain ⟨hbefore, h, hafter⟩ := h
  rw [← List.append_assoc]
  exact .mk (hblanks.append hbefore) h hafter

theorem WritesItems.blanks_append {blanks : Text} (hblanks : IsBlankRun blanks)
    (h : WritesItems t items) : WritesItems (blanks ++ t) items := by
  cases h with
  | one h => exact .one (h.blanks_append hblanks)
  | cons h later =>
    rw [← List.append_assoc]
    exact .cons (h.blanks_append hblanks) later

theorem WritesMember.blanks_append {blanks : Text} {member : Option Text × Value}
    (hblanks : IsBlankRun blanks) (h : WritesMember t member) :
    WritesMember (blanks ++ t) member := by
  obtain ⟨hbefore, hkey, hafter, h⟩ := h
  rw [← List.append_assoc]
  exact .mk (hblanks.append hbefore) hkey hafter h

theorem WritesMembers.blanks_append {blanks : Text} (hblanks : IsBlankRun blanks)
    (h : WritesMembers t members) : WritesMembers (blanks ++ t) members := by
  cases h with
  | one h => exact .one (h.blanks_append hblanks)
  | cons h later =>
    rw [← List.append_assoc]
    exact .cons (h.blanks_append hblanks) later

theorem readValue?_skipBlanks (bound : Nat) (t : Text) :
    readValue? bound (skipBlanks t) = readValue? bound t := by
  cases bound with
  | zero => rfl
  | succ bound => rw [readValue?, readValue?, skipBlanks_skipBlanks]

theorem readItems?_skipBlanks (bound : Nat) (t : Text) :
    readItems? bound (skipBlanks t) = readItems? bound t := by
  cases bound with
  | zero => rfl
  | succ bound => rw [readItems?, readItems?, readValue?_skipBlanks]

theorem readMembers?_skipBlanks (bound : Nat) (t : Text) :
    readMembers? bound (skipBlanks t) = readMembers? bound t := by
  cases bound with
  | zero => rfl
  | succ bound => rw [readMembers?, readMembers?, skipBlanks_skipBlanks]

/-! ### What a value begins with -/

/-- A number begins with a sign or a digit. -/
theorem WritesNumeral.exists_head {n : Numeral} (h : WritesNumeral t n) :
    ∃ c u, t = c :: u ∧ (c = '-' ∨ c.isDigit = true) := by
  obtain ⟨hsign, hwhole, _, _⟩ := h
  rcases hsign with ⟨rfl, _⟩ | ⟨rfl, _⟩
  · obtain ⟨d, whole, rfl⟩ := List.exists_cons_of_ne_nil hwhole.isDigits.1
    exact ⟨d, _, rfl, .inr (hwhole.isDigits.2 d List.mem_cons_self)⟩
  · exact ⟨'-', _, rfl, .inl rfl⟩

/-- What a number begins with is no blank and nothing that any other value begins or ends with. -/
theorem ne_of_numeric {c d : Char} (hc : c = '-' ∨ c.isDigit = true) (hminus : d ≠ '-')
    (hdigit : d.isDigit = false) : c ≠ d := by
  rcases hc with rfl | hc
  · exact hminus.symm
  · exact ne_of_isDigit hc hdigit

/-- A value begins neither with a blank nor with a closing bracket. -/
theorem Writes.exists_head (h : Writes t v) :
    ∃ c u, t = c :: u ∧ isBlank c = false ∧ c ≠ ']' ∧ c ≠ '}' := by
  cases h with
  | null | yes | no => exact ⟨_, _, rfl, by decide⟩
  | number h =>
    obtain ⟨c, u, rfl, hc⟩ := h.exists_head
    have hne := fun d => ne_of_numeric (d := d) hc
    refine ⟨c, u, rfl, ?_, hne _ (by decide) (by decide), hne _ (by decide) (by decide)⟩
    simp [isBlank, hne]
  | string | emptyArray | array | emptyObject | object =>
    exact ⟨_, _, rfl, by decide⟩

/-- What stands between brackets does not begin with the closing one. -/
theorem WritesItems.exists_head (h : WritesItems t items) (rest : Text) :
    ∃ c u, skipBlanks (t ++ rest) = c :: u ∧ c ≠ ']' := by
  have hpadded : ∀ {t v}, WritesPadded t v → ∀ rest,
      ∃ c u, skipBlanks (t ++ rest) = c :: u ∧ c ≠ ']' := by
    rintro _ v ⟨hbefore, h, hafter⟩ rest
    obtain ⟨c, u, rfl, hblank, hclosing, _⟩ := h.exists_head
    rw [List.append_assoc, skipBlanks_append hbefore, List.cons_append, List.cons_append]
    exact ⟨c, _, skipBlanks_cons hblank, hclosing⟩
  cases h with
  | one h => exact hpadded h rest
  | cons h later =>
    rw [List.append_assoc]
    exact hpadded h _

/-- Members begin with the quote of the first key. -/
theorem WritesMembers.exists_head (h : WritesMembers t members) (rest : Text) :
    ∃ u, skipBlanks (t ++ rest) = '"' :: u := by
  have hmember : ∀ {t member}, WritesMember t member → ∀ rest,
      ∃ u, skipBlanks (t ++ rest) = '"' :: u := by
    rintro _ _ ⟨hbefore, _, _, _⟩ rest
    rw [List.append_assoc, skipBlanks_append hbefore, List.cons_append]
    exact ⟨_, skipBlanks_cons (by decide)⟩
  cases h with
  | one h => exact hmember h rest
  | cons h later =>
    rw [List.append_assoc]
    exact hmember h _

/-- What is read as a number does not begin like any other value. -/
theorem readValue?_of_numeric {c : Char} (hc : c = '-' ∨ c.isDigit = true) (bound : Nat)
    (t : Text) : readValue? (bound + 1) (c :: t) =
      (readNumeral? (c :: t)).map fun (n, rest) => (.number n, rest) := by
  have hne := fun d => ne_of_numeric (d := d) hc
  have hskip : skipBlanks (c :: t) = c :: t := skipBlanks_cons (by simp [isBlank, hne])
  rw [readValue?, hskip]
  split
  all_goals simp_all

/-! ### What is written is read -/

/-- Within a bound, what is written is read up to what stands behind it. -/
structure ReadsWithin (bound : Nat) : Prop where
  /-- A value is read up to anything that may stand behind it. -/
  value : ∀ {t v rest}, Writes t v → t.length ≤ bound → Ends rest →
    readValue? bound (t ++ rest) = some (v, rest)
  /-- The items of an array are read with the closing bracket. -/
  items : ∀ {t items rest}, WritesItems t items → t.length < bound →
    readItems? bound (t ++ ']' :: rest) = some (items, rest)
  /-- The members of an object are read with the closing bracket. -/
  members : ∀ {t members rest}, WritesMembers t members → t.length < bound →
    readMembers? bound (t ++ '}' :: rest) = some (members, rest)

namespace ReadsWithin

variable {bound : Nat}

/-- A value is read with the blanks in front of it, and those behind it are left. -/
theorem padded (hreads : ReadsWithin bound) (h : WritesPadded t v) (hle : t.length ≤ bound)
    (hends : Ends rest) :
    ∃ u, skipBlanks u = skipBlanks rest ∧ readValue? bound (t ++ rest) = some (v, u) := by
  obtain @⟨before, t, after, v, hbefore, h, hafter⟩ := h
  refine ⟨after ++ rest, skipBlanks_append hafter, ?_⟩
  rw [← readValue?_skipBlanks, List.append_assoc, skipBlanks_append hbefore,
    readValue?_skipBlanks, List.append_assoc]
  refine hreads.value h ?_ (hends.blanks_append hafter)
  simp only [List.length_append] at hle
  omega

theorem items_succ (hreads : ReadsWithin bound) (h : WritesItems t items)
    (hlt : t.length < bound + 1) :
    readItems? (bound + 1) (t ++ ']' :: rest) = some (items, rest) := by
  cases h with
  | one h =>
    have hends : Ends (']' :: rest) := ends_cons (.inr (.inl rfl))
    obtain ⟨u, hskip, hread⟩ := hreads.padded h (by omega) hends
    rw [skipBlanks_cons (by decide)] at hskip
    simp [readItems?, hread, hskip]
  | @cons t w v items h later =>
    simp only [List.length_append, List.length_cons] at hlt
    have hends : Ends (',' :: (w ++ ']' :: rest)) := ends_cons (.inl rfl)
    obtain ⟨u, hskip, hread⟩ := hreads.padded h (by omega) hends
    rw [skipBlanks_cons (by decide)] at hskip
    have hlater : readItems? bound (w ++ ']' :: rest) = some (items, rest) :=
      hreads.items later (by omega)
    simp [readItems?, hread, hskip, hlater]

theorem members_succ (hreads : ReadsWithin bound) (h : WritesMembers t members)
    (hlt : t.length < bound + 1) :
    readMembers? (bound + 1) (t ++ '}' :: rest) = some (members, rest) := by
  have hmember : ∀ {t member rest}, WritesMember t member → t.length ≤ bound → Ends rest →
      ∃ key w x u, skipBlanks (t ++ rest) = '"' :: key ∧ readString? key = some (member.1, w) ∧
        skipBlanks w = ':' :: x ∧ readValue? bound x = some (member.2, u) ∧
        skipBlanks u = skipBlanks rest := by
    intro t member rest h hle hends
    obtain @⟨before, key, after, t, pieces, v, hbefore, hkey, hafter, h⟩ := h
    simp only [List.length_append, List.length_cons] at hle
    obtain ⟨u, hskip, hread⟩ := hreads.padded h (by omega) hends
    refine ⟨key ++ '"' :: (after ++ ':' :: (t ++ rest)), after ++ ':' :: (t ++ rest), t ++ rest, u,
      ?_, readString?_eq_some_iff.mpr ⟨key, pieces, rfl, hkey, rfl⟩, ?_, hread, hskip⟩
    · simp only [List.append_assoc, List.cons_append]
      rw [skipBlanks_append hbefore, skipBlanks_cons (by decide)]
    · rw [skipBlanks_append hafter, skipBlanks_cons (by decide)]
  cases h with
  | one h =>
    have hends : Ends ('}' :: rest) := ends_cons (.inr (.inr rfl))
    obtain ⟨key, w, x, u, hquote, hkey, hcolon, hread, hskip⟩ := hmember h (by omega) hends
    rw [skipBlanks_cons (by decide)] at hskip
    simp [readMembers?, hquote, hkey, hcolon, hread, hskip]
  | @cons t y member members h later =>
    simp only [List.length_append, List.length_cons] at hlt
    have hends : Ends (',' :: (y ++ '}' :: rest)) := ends_cons (.inl rfl)
    obtain ⟨key, w, x, u, hquote, hkey, hcolon, hread, hskip⟩ := hmember h (by omega) hends
    rw [skipBlanks_cons (by decide)] at hskip
    have hlater : readMembers? bound (y ++ '}' :: rest) = some (members, rest) :=
      hreads.members later (by omega)
    simp [readMembers?, hquote, hkey, hcolon, hread, hskip, hlater]

theorem value_succ (hreads : ReadsWithin bound) (h : Writes t v) (hle : t.length ≤ bound + 1)
    (hends : Ends rest) : readValue? (bound + 1) (t ++ rest) = some (v, rest) := by
  have hbracket : ∀ {c d u}, isBlank c = false →
      skipBlanks (c :: u ++ [d] ++ rest) = c :: (u ++ d :: rest) := by
    intro c d u hc
    rw [List.cons_append, List.cons_append, List.append_assoc]
    exact skipBlanks_cons hc
  cases h with
  | null =>
    have hskip : skipBlanks ("null".toList ++ rest) = 'n' :: ("ull".toList ++ rest) :=
      skipBlanks_cons (by decide)
    rw [readValue?, hskip]
    simp only [skipWord?_append, Option.map_some]
  | yes =>
    have hskip : skipBlanks ("true".toList ++ rest) = 't' :: ("rue".toList ++ rest) :=
      skipBlanks_cons (by decide)
    rw [readValue?, hskip]
    simp only [skipWord?_append, Option.map_some]
  | no =>
    have hskip : skipBlanks ("false".toList ++ rest) = 'f' :: ("alse".toList ++ rest) :=
      skipBlanks_cons (by decide)
    rw [readValue?, hskip]
    simp only [skipWord?_append, Option.map_some]
  | number h =>
    have hread := h.readNumeral? hends
    obtain ⟨c, u, rfl, hc⟩ := h.exists_head
    rw [List.cons_append] at hread ⊢
    rw [readValue?_of_numeric hc, hread, Option.map_some]
  | @string u pieces h =>
    have hread : readString? (u ++ '"' :: rest) = some (joinPieces? pieces, rest) :=
      readString?_eq_some_iff.mpr ⟨u, pieces, rfl, h, rfl⟩
    rw [readValue?, hbracket (by decide)]
    simp only [hread, Option.map_some]
  | emptyArray hblanks =>
    rw [readValue?, hbracket (by decide)]
    simp only [skipBlanks_append hblanks, skipBlanks_cons (show isBlank ']' = false by decide)]
  | @array u items h =>
    obtain ⟨c, w, hhead, hclosing⟩ := h.exists_head (']' :: rest)
    have hread : readItems? bound (c :: w) = some (items, rest) := by
      rw [← hhead, readItems?_skipBlanks]
      refine hreads.items h ?_
      simp only [List.length_append, List.length_cons] at hle
      omega
    rw [readValue?, hbracket (by decide)]
    simp [hhead, hclosing, hread]
  | emptyObject hblanks =>
    rw [readValue?, hbracket (by decide)]
    simp only [skipBlanks_append hblanks, skipBlanks_cons (show isBlank '}' = false by decide)]
  | @object u members h =>
    obtain ⟨w, hhead⟩ := h.exists_head ('}' :: rest)
    have hread : readMembers? bound ('"' :: w) = some (members, rest) := by
      rw [← hhead, readMembers?_skipBlanks]
      refine hreads.members h ?_
      simp only [List.length_append, List.length_cons] at hle
      omega
    rw [readValue?, hbracket (by decide)]
    simp [hhead, hread]

end ReadsWithin

/-- What is written is read within a bound of its length. -/
theorem readsWithin (bound : Nat) : ReadsWithin bound := by
  induction bound with
  | zero =>
    refine ⟨fun h hle => ?_, fun _ hlt => absurd hlt (Nat.not_lt_zero _),
      fun _ hlt => absurd hlt (Nat.not_lt_zero _)⟩
    obtain ⟨c, u, rfl, _⟩ := h.exists_head
    contradiction
  | succ bound ih => exact ⟨ih.value_succ, ih.items_succ, ih.members_succ⟩

/-! ### What is read is written -/

/-- Within a bound, what is read was written. -/
structure WrittenWithin (bound : Nat) : Prop where
  /-- A value was written, with blanks in front. -/
  value : ∀ {t v rest}, readValue? bound t = some (v, rest) →
    ∃ before u, IsBlankRun before ∧ t = before ++ (u ++ rest) ∧ Writes u v
  /-- The items of an array were written, with the closing bracket behind them. -/
  items : ∀ {t items rest}, readItems? bound t = some (items, rest) →
    ∃ u, t = u ++ ']' :: rest ∧ WritesItems u items
  /-- The members of an object were written, with the closing bracket behind them. -/
  members : ∀ {t members rest}, readMembers? bound t = some (members, rest) →
    ∃ u, t = u ++ '}' :: rest ∧ WritesMembers u members

namespace WrittenWithin

variable {bound : Nat}

theorem items_succ (hwritten : WrittenWithin bound)
    (h : readItems? (bound + 1) t = some (items, rest)) :
    ∃ u, t = u ++ ']' :: rest ∧ WritesItems u items := by
  rw [readItems?] at h
  simp only [Option.bind_eq_bind, Option.bind_eq_some_iff] at h
  obtain ⟨⟨v, left⟩, hvalue, h⟩ := h
  obtain ⟨before, u, hbefore, rfl, hu⟩ := hwritten.value hvalue
  obtain ⟨after, hafter, hleft⟩ := exists_blanks left
  have hpadded := WritesPadded.mk hbefore hu hafter
  split at h
  · rename_i w hskip
    simp only [Option.bind_eq_some_iff] at h
    obtain ⟨⟨items', left'⟩, hlater, h⟩ := h
    obtain ⟨rfl, rfl⟩ : v :: items' = items ∧ left' = rest := by simpa using h
    obtain ⟨x, rfl, hx⟩ := hwritten.items hlater
    refine ⟨_, ?_, .cons hpadded hx⟩
    rw [hleft, hskip]
    simp
  · rename_i w hskip
    obtain ⟨rfl, rfl⟩ : [v] = items ∧ w = rest := by simpa using h
    refine ⟨_, ?_, .one hpadded⟩
    rw [hleft, hskip]
    simp
  · contradiction

theorem members_succ (hwritten : WrittenWithin bound)
    (h : readMembers? (bound + 1) t = some (members, rest)) :
    ∃ u, t = u ++ '}' :: rest ∧ WritesMembers u members := by
  rw [readMembers?] at h
  split at h
  · rename_i quoted hquote
    simp only [Option.bind_eq_bind, Option.bind_eq_some_iff] at h
    obtain ⟨⟨key, behind⟩, hkey, h⟩ := h
    obtain ⟨before, hbefore, ht⟩ := exists_blanks t
    obtain ⟨k, pieces, rfl, hpieces, rfl⟩ := readString?_eq_some_iff.mp hkey
    obtain ⟨between, hbetween, hbehind⟩ := exists_blanks behind
    dsimp only at h
    split at h
    · rename_i w hcolon
      simp only [Option.bind_eq_some_iff] at h
      obtain ⟨⟨v, left⟩, hvalue, h⟩ := h
      obtain ⟨front, u, hfront, rfl, hu⟩ := hwritten.value hvalue
      obtain ⟨after, hafter, hleft⟩ := exists_blanks left
      have hmember := WritesMember.mk hbefore hpieces hbetween (.mk hfront hu hafter)
      dsimp only at h
      split at h
      · rename_i w hskip
        simp only [Option.bind_eq_some_iff] at h
        obtain ⟨⟨members', left'⟩, hlater, h⟩ := h
        obtain ⟨rfl, rfl⟩ : _ = members ∧ left' = rest := by simpa using h
        obtain ⟨x, rfl, hx⟩ := hwritten.members hlater
        refine ⟨_, ?_, .cons hmember hx⟩
        rw [ht, hquote, hbehind, hcolon, hleft, hskip]
        simp
      · rename_i w hskip
        obtain ⟨rfl, rfl⟩ : _ = members ∧ w = rest := by simpa using h
        refine ⟨_, ?_, .one hmember⟩
        rw [ht, hquote, hbehind, hcolon, hleft, hskip]
        simp
      · contradiction
    · contradiction
  · contradiction

theorem value_succ (hwritten : WrittenWithin bound)
    (h : readValue? (bound + 1) t = some (v, rest)) :
    ∃ before u, IsBlankRun before ∧ t = before ++ (u ++ rest) ∧ Writes u v := by
  obtain ⟨before, hbefore, ht⟩ := exists_blanks t
  refine ⟨before, ?_⟩
  suffices hwrites : ∃ u, skipBlanks t = u ++ rest ∧ Writes u v by
    obtain ⟨u, hskip, hu⟩ := hwrites
    exact ⟨u, hbefore, by rw [← hskip]; exact ht, hu⟩
  clear ht
  rw [readValue?] at h
  split at h
  · rename_i w hskip
    obtain ⟨⟨text, left⟩, hread, h⟩ := Option.map_eq_some_iff.mp h
    obtain ⟨rfl, rfl⟩ : Value.string text = v ∧ left = rest := by simpa using h
    obtain ⟨u, pieces, rfl, hu, rfl⟩ := readString?_eq_some_iff.mp hread
    exact ⟨_, by simp [hskip], .string hu⟩
  · rename_i w hskip
    obtain ⟨blanks, hblanks, hw⟩ := exists_blanks w
    split at h
    · rename_i x hclosing
      obtain ⟨rfl, rfl⟩ : Value.array [] = v ∧ x = rest := by simpa using h
      refine ⟨_, ?_, .emptyArray hblanks⟩
      rw [hskip, hw, hclosing]
      simp
    · obtain ⟨⟨items, left⟩, hread, h⟩ := Option.map_eq_some_iff.mp h
      obtain ⟨rfl, rfl⟩ : Value.array items = v ∧ left = rest := by simpa using h
      obtain ⟨u, hu, hitems⟩ := hwritten.items hread
      refine ⟨_, ?_, .array (hitems.blanks_append hblanks)⟩
      rw [hskip, hw, hu]
      simp
  · rename_i w hskip
    obtain ⟨blanks, hblanks, hw⟩ := exists_blanks w
    split at h
    · rename_i x hclosing
      obtain ⟨rfl, rfl⟩ : Value.object [] = v ∧ x = rest := by simpa using h
      refine ⟨_, ?_, .emptyObject hblanks⟩
      rw [hskip, hw, hclosing]
      simp
    · obtain ⟨⟨members, left⟩, hread, h⟩ := Option.map_eq_some_iff.mp h
      obtain ⟨rfl, rfl⟩ : Value.object members = v ∧ left = rest := by simpa using h
      obtain ⟨u, hu, hmembers⟩ := hwritten.members hread
      refine ⟨_, ?_, .object (hmembers.blanks_append hblanks)⟩
      rw [hskip, hw, hu]
      simp
  · rename_i w hskip
    obtain ⟨left, hword, h⟩ := Option.map_eq_some_iff.mp h
    obtain ⟨rfl, rfl⟩ : Value.null = v ∧ left = rest := by simpa using h
    exact ⟨_, by rw [hskip, eq_append_of_skipWord? hword]; rfl, .null⟩
  · rename_i w hskip
    obtain ⟨left, hword, h⟩ := Option.map_eq_some_iff.mp h
    obtain ⟨rfl, rfl⟩ : Value.bool true = v ∧ left = rest := by simpa using h
    exact ⟨_, by rw [hskip, eq_append_of_skipWord? hword]; rfl, .yes⟩
  · rename_i w hskip
    obtain ⟨left, hword, h⟩ := Option.map_eq_some_iff.mp h
    obtain ⟨rfl, rfl⟩ : Value.bool false = v ∧ left = rest := by simpa using h
    exact ⟨_, by rw [hskip, eq_append_of_skipWord? hword]; rfl, .no⟩
  · obtain ⟨⟨n, left⟩, hread, h⟩ := Option.map_eq_some_iff.mp h
    obtain ⟨rfl, rfl⟩ : Value.number n = v ∧ left = rest := by simpa using h
    obtain ⟨u, hu, hn⟩ := exists_of_readNumeral? hread
    exact ⟨u, hu, .number hn⟩

end WrittenWithin

/-- What is read within a bound was written. -/
theorem writtenWithin (bound : Nat) : WrittenWithin bound := by
  induction bound with
  | zero => exact ⟨nofun, nofun, nofun⟩
  | succ bound ih => exact ⟨ih.value_succ, ih.items_succ, ih.members_succ⟩

/-- Reading accepts exactly the texts of the grammar, with the values that they write. -/
theorem Value.read?_eq_some_iff : Value.read? t = some v ↔ WritesPadded t v := by
  unfold Value.read?
  simp only [Option.bind_eq_bind, Option.bind_eq_some_iff]
  constructor
  · rintro ⟨⟨v', left⟩, hread, h⟩
    obtain ⟨hleft, rfl⟩ : skipBlanks left = [] ∧ v' = v := by simpa using h
    obtain ⟨before, u, hbefore, rfl, hu⟩ := (writtenWithin _).value hread
    exact .mk hbefore hu (skipBlanks_eq_nil_iff.mp hleft)
  · intro h
    obtain ⟨u, hskip, hread⟩ := (readsWithin (t.length + 1)).padded h (Nat.le_succ _) ends_nil
    rw [List.append_nil] at hread
    exact ⟨(v, u), hread, if_pos hskip⟩

end Retint.Json
