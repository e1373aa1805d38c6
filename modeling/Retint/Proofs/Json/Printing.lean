import Mathlib.Data.List.Forall2
import Retint.Json.Printer
import Retint.Proofs.Json.Grammar

/-!
# Printed JSON is read back

Both printed forms of a value are texts of the grammar that write this value, so reading one gives
the value back. That asks for values with strings that have a text and with numbers that are made of
digits; strings may hold any characters.
-/

namespace Retint.Json

variable {t : Text} {v : Value} {items : List Value} {members : List (Option Text × Value)}
  {blanks : Text}

/-! ### Strings and numbers -/

theorem joinPieces?_unit {n : Nat} (h : n < 0xD800) (pieces : List Piece) :
    joinPieces? (.unit n :: pieces) = (joinPieces? pieces).map (Char.ofNat n :: ·) := by
  have hhigh : ¬ (0xD800 ≤ n ∧ n < 0xDC00) := by omega
  have hlow : ¬ (0xDC00 ≤ n ∧ n < 0xE000) := by omega
  have hsurrogate : ¬ (0xD800 ≤ n ∧ n < 0xE000) := by omega
  rcases pieces with _ | ⟨_ | low, later⟩
  · simp [joinPieces?, hsurrogate]
  · simp [joinPieces?, hsurrogate]
  · rw [joinPieces?, if_neg hhigh, if_neg hlow]

/-- A printed character is one piece of a string, which stands for that character. -/
theorem exists_piece (c : Char) : ∃ piece,
    (∀ t pieces, WritesPieces t pieces → WritesPieces (printChar c ++ t) (piece :: pieces)) ∧
    ∀ pieces, joinPieces? (piece :: pieces) = (joinPieces? pieces).map (c :: ·) := by
  unfold printChar
  split
  -- The seven characters with an escape of their own come first.
  any_goals exact ⟨.char _, fun _ _ h => .escaped rfl h, fun _ => rfl⟩
  rename_i hquote hescape _ _ _ _ _
  split
  · rename_i hcontrol
    have hvalue : ((0 * 16 + 0) * 16 + c.toNat / 16) * 16 + c.toNat % 16 = c.toNat := by omega
    refine ⟨.unit c.toNat, fun t pieces h => ?_, fun pieces => ?_⟩
    · have hwrites := WritesPieces.unit (Text.hexValue?_digitChar 0 (by omega))
        (Text.hexValue?_digitChar 0 (by omega)) (Text.hexValue?_digitChar (c.toNat / 16) (by omega))
        (Text.hexValue?_digitChar (c.toNat % 16) (by omega)) h
      rwa [hvalue] at hwrites
    · rw [joinPieces?_unit (by omega), Char.ofNat_toNat]
  · exact ⟨.char c, fun _ _ h => .char (by omega) hquote hescape h, fun _ => rfl⟩

/-- What stands between the quotes of a printed string writes that string. -/
theorem exists_pieces (t : Text) :
    ∃ pieces, WritesPieces (t.flatMap printChar) pieces ∧ joinPieces? pieces = some t := by
  induction t with
  | nil => exact ⟨[], .nil, rfl⟩
  | cons c t ih =>
    obtain ⟨pieces, hwrites, hjoin⟩ := ih
    obtain ⟨piece, hpiece, hchar⟩ := exists_piece c
    exact ⟨piece :: pieces, hpiece _ _ hwrites, by rw [hchar, hjoin, Option.map_some]⟩

theorem writes_printString (t : Text) : Writes (printString t) (.text t) := by
  obtain ⟨pieces, hwrites, hjoin⟩ := exists_pieces t
  rw [Value.text, ← hjoin]
  exact .string hwrites

/-- A printed key, a colon, blanks and what writes a value write a member. -/
theorem writesMember_printString (key : Text) (hblanks : IsBlankRun blanks)
    (h : WritesPadded t v) :
    WritesMember (printString key ++ ':' :: (blanks ++ t)) (some key, v) := by
  obtain ⟨pieces, hwrites, hjoin⟩ := exists_pieces key
  have hmember := WritesMember.mk isBlankRun_nil hwrites isBlankRun_nil (h.blanks_append hblanks)
  rw [hjoin] at hmember
  simpa [printString] using hmember

/-- A number made of digits, as JSON asks for them. -/
structure Numeral.IsProper (n : Numeral) : Prop where
  whole : IsWhole n.whole
  fraction : ∀ digits ∈ n.fraction, IsDigits digits
  exponent : ∀ power ∈ n.exponent, IsDigits power.2

theorem Numeral.IsProper.writes_print {n : Numeral} (h : n.IsProper) :
    WritesNumeral n.print n := by
  obtain ⟨negative, whole, fraction, exponent⟩ := n
  obtain ⟨hwhole, hfraction, hexponent⟩ := h
  rw [Numeral.print, List.append_assoc, List.append_assoc]
  refine .mk ?_ hwhole ?_ ?_
  · cases negative
    · exact .inl ⟨rfl, rfl⟩
    · exact .inr ⟨rfl, rfl⟩
  · cases fraction with
    | none => exact .absent
    | some digits => exact .present (hfraction digits rfl)
  · rcases exponent with _ | ⟨_ | _, digits⟩
    · exact .absent
    · exact @WritesExponent.present 'e' [] false digits (.inl rfl) (.inl ⟨rfl, rfl⟩)
        (hexponent _ rfl)
    · exact @WritesExponent.present 'e' ['-'] true digits (.inl rfl) (.inr (.inr ⟨rfl, rfl⟩))
        (hexponent _ rfl)

/-! ### Items and members -/

theorem Writes.padded (h : Writes t v) : WritesPadded t v := by
  have hpadded := WritesPadded.mk isBlankRun_nil h isBlankRun_nil
  rwa [List.append_nil] at hpadded

theorem WritesPadded.append_blanks (h : WritesPadded t v) (hblanks : IsBlankRun blanks) :
    WritesPadded (t ++ blanks) v := by
  obtain ⟨hbefore, h, hafter⟩ := h
  rw [List.append_assoc, List.append_assoc]
  exact .mk hbefore h (hafter.append hblanks)

/-- Texts of items with commas and blanks between them, and blanks at both ends. -/
theorem writesItems_separate {before after : Text} {texts : List Text}
    (hbefore : IsBlankRun before) (hblanks : IsBlankRun blanks) (hafter : IsBlankRun after)
    (h : List.Forall₂ WritesPadded texts items) (hne : items ≠ []) :
    WritesItems (before ++ (separate (',' :: blanks) texts ++ after)) items := by
  refine .blanks_append hbefore ?_
  clear hbefore
  induction h with
  | nil => contradiction
  | cons hfirst hlater ih =>
    cases hlater with
    | nil => exact .one (hfirst.append_blanks hafter)
    | cons hsecond hlater =>
      have hitems := (ih (List.cons_ne_nil _ _)).blanks_append hblanks
      simpa [separate] using WritesItems.cons hfirst hitems

theorem WritesMember.append_blanks {member : Option Text × Value} (h : WritesMember t member)
    (hblanks : IsBlankRun blanks) : WritesMember (t ++ blanks) member := by
  obtain ⟨hbefore, hkey, hafter, h⟩ := h
  simpa using WritesMember.mk hbefore hkey hafter (h.append_blanks hblanks)

/-- Texts of members with commas and blanks between them, and blanks at both ends. -/
theorem writesMembers_separate {before after : Text} {texts : List Text}
    (hbefore : IsBlankRun before) (hblanks : IsBlankRun blanks) (hafter : IsBlankRun after)
    (h : List.Forall₂ WritesMember texts members) (hne : members ≠ []) :
    WritesMembers (before ++ (separate (',' :: blanks) texts ++ after)) members := by
  refine .blanks_append hbefore ?_
  clear hbefore
  induction h with
  | nil => contradiction
  | cons hfirst hlater ih =>
    cases hlater with
    | nil => exact .one (hfirst.append_blanks hafter)
    | cons hsecond hlater =>
      have hmembers := (ih (List.cons_ne_nil _ _)).blanks_append hblanks
      simpa [separate] using WritesMembers.cons hfirst hmembers

/-! ### Values -/

/-- A value that can be printed: its strings and keys have a text, and its numbers are made of
digits. -/
inductive Value.IsPrintable : Value → Prop
  | null : IsPrintable .null
  | bool (b : Bool) : IsPrintable (.bool b)
  | number {n : Numeral} (h : n.IsProper) : IsPrintable (.number n)
  | text (t : Text) : IsPrintable (.text t)
  | array {items : List Value} (h : ∀ item ∈ items, IsPrintable item) : IsPrintable (.array items)
  | object {members : List (Option Text × Value)} (hkeys : ∀ m ∈ members, m.1 ≠ none)
      (h : ∀ m ∈ members, IsPrintable m.2) : IsPrintable (.object members)

theorem compactItems_eq_map (items : List Value) :
    compactItems items = items.map Value.compact := by
  induction items with
  | nil => rfl
  | cons item items ih => rw [compactItems, ih, List.map_cons]

theorem compactMembers_eq_map (members : List (Option Text × Value)) :
    compactMembers members =
      members.map fun m => printString (m.1.getD []) ++ ':' :: m.2.compact := by
  induction members with
  | nil => rfl
  | cons m members ih => rw [compactMembers, ih, List.map_cons]

theorem indentedItems_eq_map (depth : Nat) (items : List Value) :
    indentedItems depth items = items.map (Value.indented depth) := by
  induction items with
  | nil => rfl
  | cons item items ih => rw [indentedItems, ih, List.map_cons]

theorem indentedMembers_eq_map (depth : Nat) (members : List (Option Text × Value)) :
    indentedMembers depth members =
      members.map fun m => printString (m.1.getD []) ++ ':' :: ' ' :: m.2.indented depth := by
  induction members with
  | nil => rfl
  | cons m members ih => rw [indentedMembers, ih, List.map_cons]

/-- Members are written by their printed keys and by what writes their values. -/
theorem forall₂_writesMember {print : Value → Text} (hblanks : IsBlankRun blanks)
    (hkeys : ∀ m ∈ members, m.1 ≠ none) (h : ∀ m ∈ members, Writes (print m.2) m.2) :
    List.Forall₂ WritesMember
      (members.map fun m => printString (m.1.getD []) ++ ':' :: (blanks ++ print m.2)) members := by
  rw [List.forall₂_map_left_iff, List.forall₂_same]
  rintro ⟨key, v⟩ hm
  obtain ⟨key, rfl⟩ := Option.ne_none_iff_exists'.mp (hkeys _ hm)
  exact writesMember_printString key hblanks (h _ hm).padded

theorem forall₂_writesPadded {print : Value → Text} (h : ∀ item ∈ items, Writes (print item) item) :
    List.Forall₂ WritesPadded (items.map print) items := by
  rw [List.forall₂_map_left_iff, List.forall₂_same]
  exact fun item hitem => (h item hitem).padded

theorem isBlankRun_newLine (depth : Nat) : IsBlankRun (newLine depth) := by
  intro c hc
  rcases List.mem_cons.mp hc with rfl | hc
  · rfl
  · rw [List.eq_of_mem_replicate hc]
    rfl

namespace Value.IsPrintable

theorem writes_compact (h : v.IsPrintable) : Writes v.compact v := by
  induction h with
  | null => exact .null
  | bool b =>
    cases b
    · exact .no
    · exact .yes
  | number h => exact .number h.writes_print
  | text t => exact writes_printString t
  | @array items _ ih =>
    rw [compact, compactItems_eq_map]
    cases items with
    | nil => exact .emptyArray isBlankRun_nil
    | cons item items =>
      have hitems := writesItems_separate isBlankRun_nil isBlankRun_nil isBlankRun_nil
        (forall₂_writesPadded ih) (List.cons_ne_nil _ _)
      simpa using Writes.array hitems
  | @object members hkeys _ ih =>
    rw [compact, compactMembers_eq_map]
    cases members with
    | nil => exact .emptyObject isBlankRun_nil
    | cons member members =>
      have hmembers := writesMembers_separate isBlankRun_nil isBlankRun_nil isBlankRun_nil
        (forall₂_writesMember isBlankRun_nil hkeys ih) (List.cons_ne_nil _ _)
      simpa using Writes.object hmembers

theorem writes_indented (h : v.IsPrintable) (depth : Nat) : Writes (v.indented depth) v := by
  induction h generalizing depth with
  | null => exact .null
  | bool b => exact (bool b).writes_compact
  | number h => exact .number h.writes_print
  | text t => exact writes_printString t
  | @array items _ ih =>
    cases items with
    | nil => exact .emptyArray isBlankRun_nil
    | cons item items =>
      have hitems := writesItems_separate (isBlankRun_newLine (depth + 1))
        (isBlankRun_newLine (depth + 1)) (isBlankRun_newLine depth)
        (forall₂_writesPadded fun item hitem => ih item hitem (depth + 1)) (List.cons_ne_nil _ _)
      rw [indented, indentedItems_eq_map]
      simpa using Writes.array hitems
  | @object members hkeys _ ih =>
    cases members with
    | nil => exact .emptyObject isBlankRun_nil
    | cons member members =>
      have hspace : IsBlankRun [' '] := by simp [IsBlankRun, isBlank]
      have hmembers := writesMembers_separate (isBlankRun_newLine (depth + 1))
        (isBlankRun_newLine (depth + 1)) (isBlankRun_newLine depth)
        (forall₂_writesMember hspace hkeys fun m hm => ih m hm (depth + 1)) (List.cons_ne_nil _ _)
      rw [indented, indentedMembers_eq_map]
      simpa using Writes.object hmembers

/-- A value that was printed without blanks is read back. -/
theorem read?_compact (h : v.IsPrintable) : Value.read? v.compact = some v :=
  read?_eq_some_iff.mpr h.writes_compact.padded

/-- A value that was printed on lines of its own is read back, whatever the depth. -/
theorem read?_indented (h : v.IsPrintable) (depth : Nat) :
    Value.read? (v.indented depth) = some v :=
  read?_eq_some_iff.mpr (h.writes_indented depth).padded

end Value.IsPrintable

/-! ### Arrays and objects put together from texts -/

/-- The text of an array with some texts as its items. -/
def arrayText (texts : List Text) : Text := '[' :: separate [','] texts ++ [']']

/-- The text of an object with some texts as the values behind its keys. -/
def objectText (members : List (Text × Text)) : Text :=
  '{' :: separate [','] (members.map fun m => printString m.1 ++ ':' :: m.2) ++ ['}']

/-- The value that a text writes, or null if it writes none. -/
def Value.ofText (t : Text) : Value := (Value.read? t).getD .null

theorem writesPadded_ofText (h : (Value.read? t).isSome = true) :
    WritesPadded t (Value.ofText t) := by
  obtain ⟨v, hv⟩ := Option.isSome_iff_exists.mp h
  rw [← Value.read?_eq_some_iff, Value.ofText, hv, Option.getD_some]

theorem read?_arrayText {texts : List Text} (h : ∀ t ∈ texts, (Value.read? t).isSome = true) :
    Value.read? (arrayText texts) = some (.array (texts.map Value.ofText)) := by
  rw [Value.read?_eq_some_iff, arrayText]
  apply Writes.padded
  have hwrites : List.Forall₂ WritesPadded texts (texts.map Value.ofText) := by
    rw [List.forall₂_map_right_iff, List.forall₂_same]
    exact fun t ht => writesPadded_ofText (h t ht)
  cases texts with
  | nil => exact .emptyArray isBlankRun_nil
  | cons t texts =>
    have hitems := writesItems_separate isBlankRun_nil isBlankRun_nil isBlankRun_nil hwrites
      (List.cons_ne_nil _ _)
    simpa using Writes.array hitems

theorem read?_objectText {texts : List (Text × Text)}
    (h : ∀ m ∈ texts, (Value.read? m.2).isSome = true) :
    Value.read? (objectText texts) =
      some (.object (texts.map fun m => (some m.1, Value.ofText m.2))) := by
  rw [Value.read?_eq_some_iff, objectText]
  apply Writes.padded
  have hwrites : List.Forall₂ WritesMember (texts.map fun m => printString m.1 ++ ':' :: m.2)
      (texts.map fun m => (some m.1, Value.ofText m.2)) := by
    rw [List.forall₂_map_left_iff, List.forall₂_map_right_iff, List.forall₂_same]
    exact fun m hm => writesMember_printString m.1 isBlankRun_nil (writesPadded_ofText (h m hm))
  cases texts with
  | nil => exact .emptyObject isBlankRun_nil
  | cons m texts =>
    have hmembers := writesMembers_separate isBlankRun_nil isBlankRun_nil isBlankRun_nil hwrites
      (List.cons_ne_nil _ _)
    simpa using Writes.object hmembers

end Retint.Json
