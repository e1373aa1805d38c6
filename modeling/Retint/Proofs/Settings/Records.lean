import Mathlib.Data.List.Count
import Retint.Settings.Basic

/-!
# Records in JSON

An object is taken as a record with some fields: a key that names a field may stand once, and other
keys are passed over. What a field is can be told from the members alone, without their order: it is
what the value under its key writes, or its default if there is no such key.
-/

namespace Retint.Json

variable {α : Type} {keys : List String} {members members' extra : List (Option Text × Value)}
  {key : String} {form? : Value → Option α} {default x : α} {v : Value}

/-- An object can be a record with some fields: every key has a text, and the key of a field stands
once at most. -/
structure IsRecord (keys : List String) (members : List (Option Text × Value)) : Prop where
  hasText : ∀ key ∈ members.map Prod.fst, key ≠ none
  once : ∀ key ∈ keys, (members.map Prod.fst).count (some key.toList) ≤ 1

/-- What a field is, by the members of an object: what the value under its key writes, or its
default if the key is missing. -/
structure IsField (members : List (Option Text × Value)) (key : String) (form? : Value → Option α)
    (default x : α) : Prop where
  present : ∀ v, (some key.toList, v) ∈ members → form? v = some x
  absent : (∀ v, (some key.toList, v) ∉ members) → x = default

/-- The value under a key, the first one if it is repeated. -/
def valueUnder? (members : List (Option Text × Value)) (key : String) : Option Value :=
  (members.find? fun (written, _) => written = some key.toList).map (·.2)

theorem count_keys (members : List (Option Text × Value)) (key : String) :
    (members.map Prod.fst).count (some key.toList) =
      (members.filter fun (written, _) => written = some key.toList).length := by
  rw [List.count_eq_countP, List.countP_map, List.countP_eq_length_filter]
  congr 1
  apply List.filter_congr
  intro m _
  exact Bool.eq_iff_iff.mpr (by simp)

/-- An object is taken as a record exactly if it can be one. -/
theorem record?_object (keys : List String) (members : List (Option Text × Value)) :
    Value.record? keys (.object members) = some (valueUnder? members) ∧
      IsRecord keys members ∨
    Value.record? keys (.object members) = none ∧ ¬ IsRecord keys members := by
  have hiff : (members.all (·.1.isSome) && keys.all fun key => decide
      ((members.filter fun (written, _) => written = some key.toList).length ≤ 1)) = true ↔
      IsRecord keys members := by
    simp only [Bool.and_eq_true, List.all_eq_true, decide_eq_true_eq, ← count_keys]
    constructor
    · rintro ⟨htext, honce⟩
      refine ⟨fun key hkey => ?_, honce⟩
      obtain ⟨m, hm, rfl⟩ := List.mem_map.mp hkey
      exact Option.isSome_iff_ne_none.mp (htext m hm)
    · rintro ⟨htext, honce⟩
      exact ⟨fun m hm => Option.isSome_iff_ne_none.mpr (htext _ (List.mem_map_of_mem hm)), honce⟩
  by_cases h : IsRecord keys members
  · exact .inl ⟨if_pos (hiff.mpr h), h⟩
  · exact .inr ⟨if_neg (mt hiff.mp h), h⟩

theorem valueUnder?_eq_none_iff :
    valueUnder? members key = none ↔ ∀ v, (some key.toList, v) ∉ members := by
  simp only [valueUnder?, Option.map_eq_none_iff, List.find?_eq_none, decide_eq_true_eq]
  constructor
  · exact fun h v hv => h _ hv rfl
  · rintro h ⟨written, v⟩ hm rfl
    exact h v hm

/-- If a key is not repeated, the value under it is the only one. -/
theorem valueUnder?_eq_some_iff (honce : (members.map Prod.fst).count (some key.toList) ≤ 1) :
    valueUnder? members key = some v ↔ (some key.toList, v) ∈ members := by
  rw [count_keys] at honce
  have hmem : (some key.toList, v) ∈ members ↔
      (some key.toList, v) ∈ members.filter fun (written, _) => written = some key.toList := by
    simp
  rw [valueUnder?, ← List.head?_filter, hmem]
  have hall : ∀ m ∈ members.filter (fun (written, _) => written = some key.toList),
      m.1 = some key.toList := by
    intro m hm
    simpa using (List.mem_filter.mp hm).2
  cases hfound : members.filter fun (written, _) => written = some key.toList with
  | nil => simp
  | cons m later =>
    rw [hfound] at honce hall
    obtain rfl : later = [] := List.eq_nil_of_length_eq_zero (by simpa using honce)
    obtain ⟨written, w⟩ := m
    obtain rfl : written = some key.toList := hall _ List.mem_cons_self
    simp [eq_comm]

/-- A field that is read is what it is by the members. -/
theorem field?_eq_some_iff (h : IsRecord keys members) (hkey : key ∈ keys) :
    Value.field? (valueUnder? members) key form? default = some x ↔
      IsField members key form? default x := by
  have hvalue := fun v => valueUnder?_eq_some_iff (v := v) (h.once key hkey)
  unfold Value.field?
  cases hfound : valueUnder? members key with
  | none =>
    have habsent := valueUnder?_eq_none_iff.mp hfound
    constructor
    · intro hx
      exact ⟨fun v hv => absurd hv (habsent v), fun _ => (Option.some.inj hx).symm⟩
    · exact fun hfield => congrArg some (hfield.absent habsent).symm
  | some w =>
    have hw := (hvalue w).mp hfound
    constructor
    · intro hx
      refine ⟨fun v hv => ?_, fun habsent => absurd hw (habsent w)⟩
      obtain rfl : w = v := Option.some.inj (hfound.symm.trans ((hvalue v).mpr hv))
      exact hx
    · exact fun hfield => hfield.present w hw

/-! ### Members in another order, and members that name no field -/

/-- A member names none of some fields, but it has a key with a text. -/
def IsStrange (keys : List String) (m : Option Text × Value) : Prop :=
  ∃ key, m.1 = some key ∧ ∀ field ∈ keys, key ≠ field.toList

/-- An object has the members of another one in some order, and with them only members that name no
field. -/
def Extends (keys : List String) (members members' : List (Option Text × Value)) : Prop :=
  ∃ extra, (∀ m ∈ extra, IsStrange keys m) ∧ members'.Perm (members ++ extra)

theorem Extends.mem_iff (h : Extends keys members members') (hkey : key ∈ keys) :
    (some key.toList, v) ∈ members' ↔ (some key.toList, v) ∈ members := by
  obtain ⟨extra, hextra, hperm⟩ := h
  rw [hperm.mem_iff, List.mem_append, or_iff_left]
  intro hmem
  obtain ⟨strange, hstrange, hne⟩ := hextra _ hmem
  exact hne key hkey (Option.some.inj hstrange).symm

theorem Extends.isRecord_iff (h : Extends keys members members') :
    IsRecord keys members' ↔ IsRecord keys members := by
  obtain ⟨extra, hextra, hperm⟩ := h
  have hkeys := hperm.map Prod.fst
  rw [List.map_append] at hkeys
  have hcount : ∀ key ∈ keys, (extra.map Prod.fst).count (some key.toList) = 0 := by
    intro key hkey
    refine List.count_eq_zero.mpr fun hmem => ?_
    obtain ⟨m, hm, heq⟩ := List.mem_map.mp hmem
    obtain ⟨strange, hstrange, hne⟩ := hextra m hm
    exact hne key hkey (Option.some.inj (hstrange.symm.trans heq))
  constructor
  · rintro ⟨htext, honce⟩
    refine ⟨fun key hkey => htext key (hkeys.mem_iff.mpr (List.mem_append_left _ hkey)),
      fun key hkey => ?_⟩
    have hle := honce key hkey
    rw [hkeys.count_eq, List.count_append] at hle
    omega
  · rintro ⟨htext, honce⟩
    refine ⟨fun key hkey => ?_, fun key hkey => ?_⟩
    · rcases List.mem_append.mp (hkeys.mem_iff.mp hkey) with hmem | hmem
      · exact htext key hmem
      · obtain ⟨m, hm, rfl⟩ := List.mem_map.mp hmem
        obtain ⟨strange, hstrange, _⟩ := hextra m hm
        rw [hstrange]
        exact Option.some_ne_none strange
    · rw [hkeys.count_eq, List.count_append, hcount key hkey]
      exact honce key hkey

theorem Extends.isField_iff (h : Extends keys members members') (hkey : key ∈ keys) :
    IsField members' key form? default x ↔ IsField members key form? default x := by
  constructor
  · rintro ⟨hpresent, habsent⟩
    exact ⟨fun v hv => hpresent v ((h.mem_iff hkey).mpr hv),
      fun hnone => habsent fun v hv => hnone v ((h.mem_iff hkey).mp hv)⟩
  · rintro ⟨hpresent, habsent⟩
    exact ⟨fun v hv => hpresent v ((h.mem_iff hkey).mp hv),
      fun hnone => habsent fun v hv => hnone v ((h.mem_iff hkey).mpr hv)⟩

/-! ### One more field -/

theorem isRecord_cons_iff (habsent : ∀ w, (some key.toList, w) ∉ members) :
    IsRecord keys ((some key.toList, v) :: members) ↔ IsRecord keys members := by
  have hzero : (members.map Prod.fst).count (some key.toList) = 0 := by
    refine List.count_eq_zero.mpr fun hmem => ?_
    obtain ⟨m, hm, heq⟩ := List.mem_map.mp hmem
    exact habsent m.2 (heq ▸ hm)
  constructor
  · rintro ⟨htext, honce⟩
    exact ⟨fun k hk => htext k (List.mem_cons_of_mem _ hk),
      fun field hfield => Nat.le_trans List.count_le_count_cons (honce field hfield)⟩
  · rintro ⟨htext, honce⟩
    refine ⟨List.forall_mem_cons.mpr ⟨Option.some_ne_none _, htext⟩, fun field hfield => ?_⟩
    rw [List.map_cons]
    by_cases heq : some key.toList = some field.toList
    · rw [← heq, List.count_cons_self]
      omega
    · rw [List.count_cons_of_ne heq]
      exact honce field hfield

/-- A field is not touched by a member with another key. -/
theorem isField_cons_iff_of_ne {k : Option Text} (hne : k ≠ some key.toList) :
    IsField ((k, v) :: members) key form? default x ↔ IsField members key form? default x := by
  have hmem : ∀ w, (some key.toList, w) ∈ (k, v) :: members ↔ (some key.toList, w) ∈ members := by
    intro w
    rw [List.mem_cons, or_iff_right]
    exact fun heq => hne (Prod.mk.inj heq).1.symm
  constructor
  · rintro ⟨hpresent, habsent⟩
    simp only [hmem] at hpresent habsent
    exact ⟨hpresent, habsent⟩
  · rintro ⟨hpresent, habsent⟩
    constructor
    · simpa only [hmem] using hpresent
    · simpa only [hmem] using habsent

/-- A field is what the only member with its key writes. -/
theorem isField_cons_iff (habsent : ∀ w, (some key.toList, w) ∉ members) :
    IsField ((some key.toList, v) :: members) key form? default x ↔ form? v = some x := by
  constructor
  · exact fun h => h.present v List.mem_cons_self
  · refine fun hv => ⟨fun w hw => ?_, fun hnone => absurd List.mem_cons_self (hnone v)⟩
    rcases List.mem_cons.mp hw with heq | hw
    · rw [(Prod.mk.inj heq).2]
      exact hv
    · exact absurd hw (habsent w)

/-- A key that stands twice makes an object no record. -/
theorem not_isRecord_of_twice {w : Value} (hkey : key ∈ keys)
    (htwice : [(some key.toList, v), (some key.toList, w)].Sublist members) :
    ¬ IsRecord keys members := by
  intro h
  have htwo := (htwice.map Prod.fst).count_le (some key.toList)
  have hone := h.once key hkey
  simp only [List.map_cons, List.map_nil, List.count_cons_self, List.count_nil] at htwo
  omega

end Retint.Json
