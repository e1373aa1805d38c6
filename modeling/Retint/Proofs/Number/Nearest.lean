import Mathlib
import Retint.Number.Whole

/-!
# Counts among the numbers of single precision

A count is rounded to the nearest number of single precision, which may be above it. Still there is
no other such number in between: one that is below the rounded count is, rounded down to a whole
number, no more than the count itself.

A positive number is a significand of at most twenty-four binary digits times a power of two.
-/

namespace Retint.Single

open Float.Model (Format UnpackedFloat totalExponent)
open Float.Model.UnpackedFloat (Sign ExtendedMantissa)

/-- A significand times a power of two, rounded down. -/
def truncate (m : Nat) (e : Int) : Nat := m * 2 ^ e.toNat / 2 ^ (-e).toNat

/-- The numbers below a positive one are at most some count when they are rounded down. -/
def IsNext (n m : Nat) (e : Int) : Prop :=
  ∀ m' (e' : Int), m' < 2 ^ 24 → e' < e ∨ e' = e ∧ m' < m → truncate m' e' ≤ n

/-- The first twenty-four binary digits of a count. -/
def leading (n : Nat) : Nat := n * 2 ^ (23 - n.log2) / 2 ^ (n.log2 - 23)

variable {n a m : Nat} {e : Int} {x : Float32} {f : UnpackedFloat} {top : Int}

/-! ### Rounding down -/

theorem truncate_mono {b : Nat} (h : a ≤ b) (e : Int) : truncate a e ≤ truncate b e :=
  Nat.div_le_div_right (Nat.mul_le_mul_right _ h)

theorem truncate_double (m : Nat) (e : Int) : truncate (2 * m) (e - 1) = truncate m e := by
  unfold truncate
  rcases Int.lt_or_le 0 e with hpos | hneg
  · have hup : e.toNat = (e - 1).toNat + 1 := by omega
    have hdown : (-(e - 1)).toNat = (-e).toNat := by omega
    rw [hup, hdown, Nat.pow_succ, Nat.mul_comm 2 m, Nat.mul_assoc, Nat.mul_comm 2]
  · have hup : (e - 1).toNat = e.toNat := by omega
    have hdown : (-(e - 1)).toNat = (-e).toNat + 1 := by omega
    rw [hup, hdown, Nat.pow_succ, Nat.mul_comm 2 m, Nat.mul_right_comm,
      Nat.mul_div_mul_right _ _ (by decide)]

theorem truncate_mono_exponent (m : Nat) {i j : Int} (h : i ≤ j) : truncate m i ≤ truncate m j := by
  obtain ⟨k, rfl⟩ := Int.le.dest h
  induction k with
  | zero => simp
  | succ k ih =>
    have hlast : i + ((k + 1 : Nat) : Int) - 1 = i + k := by omega
    have hdouble := truncate_double m (i + ((k + 1 : Nat) : Int))
    rw [hlast] at hdouble
    rw [← hdouble]
    exact Nat.le_trans (ih (by omega)) (truncate_mono (by omega) _)

theorem mantissa_shiftRight (em : ExtendedMantissa) (k : Nat) :
    (em >>> k).mantissa = em.mantissa / 2 ^ k := by
  show (k.repeat ExtendedMantissa.shiftRightOne em).mantissa = _
  induction k with
  | zero => simp [Nat.repeat]
  | succ k ih =>
    rw [Nat.repeat, Nat.pow_succ, ← Nat.div_div_eq_div_mul, ← ih]
    rfl

theorem roundToInt_eq (sign : Sign) (m : Nat) (e : Int) :
    UnpackedFloat.roundToInt sign m e = sign.apply (truncate m e) := by
  have hdown : (0 - (e - ((e - 0).toNat : Int))).toNat = (-e).toNat := by omega
  unfold UnpackedFloat.roundToInt UnpackedFloat.decreaseExponent UnpackedFloat.shiftToExponent
  dsimp only
  rw [mantissa_shiftRight, hdown, Int.sub_zero, Nat.shiftLeft_eq]
  rfl

/-- Only a number above zero is anything but zero or less when it is rounded down. -/
theorem toInt_le_zero_or (f : UnpackedFloat) (top : Int) :
    f.toInt 0 top ≤ 0 ∨ f = .infinity .positive ∨
      ∃ m e hm, f = .finite .positive m e hm := by
  cases f with
  | notANumber | zero => exact .inl (Int.le_refl 0)
  | infinity sign =>
    cases sign with
    | negative => exact .inl (Int.le_refl 0)
    | positive => exact .inr (.inl rfl)
  | finite sign m e hm =>
    cases sign with
    | negative =>
      left
      rw [UnpackedFloat.toInt, roundToInt_eq]
      exact Int.neg_nonpos_of_nonneg (Int.natCast_nonneg _)
    | positive => exact .inr (.inr ⟨m, e, hm, rfl⟩)

theorem toUInt64_le (x : Float32) :
    x.toUInt64.toNat ≤ (x.toModel.unpack.toInt 0 (UInt64.size - 1)).toNat := by
  show (UInt64.ofNatClamp _).toNat ≤ _
  unfold UInt64.ofNatClamp
  split
  · exact Nat.le_refl _
  · rename_i hlarge
    exact Nat.le_trans (Nat.le_of_lt_succ (by decide)) (Nat.le_of_not_lt hlarge)

/-! ### How numbers are stored -/

theorem log2_eq_of_bounds {k : Nat} (hlow : 2 ^ k ≤ m) (hhigh : m < 2 ^ (k + 1)) : m.log2 = k := by
  have hpos := Nat.two_pow_pos k
  exact (Nat.log2_eq_iff (by omega)).mpr ⟨hlow, hhigh⟩

theorem toNat_append_one {k : Nat} (v : BitVec k) : (1#1 ++ v).toNat = 2 ^ k + v.toNat := by
  rw [BitVec.toNat_append, ← Nat.shiftLeft_add_eq_or_of_lt v.isLt]
  simp [Nat.shiftLeft_eq]

/-- A significand has at most twenty-four digits. -/
theorem significand_lt {bits : BitVec Format.binary32.numBits} {sign : Sign} {hm : 0 < m}
    (h : UnpackedFloat.unpack Format.binary32 bits = .finite sign m e hm) : m < 2 ^ 24 := by
  have hlt : (UnpackedFloat.unpackMantissa bits).toNat < 2 ^ 23 :=
    BitVec.isLt (w := 23) (UnpackedFloat.unpackMantissa bits)
  unfold UnpackedFloat.unpack at h
  dsimp only at h
  split at h
  · split at h <;> contradiction
  · split at h
    · split at h
      · contradiction
      · simp only [UnpackedFloat.finite.injEq] at h
        omega
    · simp only [UnpackedFloat.finite.injEq] at h
      rw [toNat_append_one] at h
      have hm : 2 ^ 23 + (UnpackedFloat.unpackMantissa bits).toNat = m := h.2.1
      omega

/-- A number with a significand of twenty-four digits is kept as it is. -/
theorem unpack_pack (hm : 0 < m) (hlow : 2 ^ 23 ≤ m) (hhigh : m < 2 ^ 24) (he : -149 ≤ e)
    (he' : e ≤ 104) :
    UnpackedFloat.unpack Format.binary32
        (UnpackedFloat.pack Format.binary32 (.finite .positive m e hm)) =
      .finite .positive m e hm := by
  -- The exponent as it is stored is neither the one of infinity nor the one of small numbers.
  obtain ⟨stored, hstored⟩ : ∃ stored : Nat, (stored : Int) = e + 150 :=
    ⟨(e + 150).toNat, by omega⟩
  have hexponent : (BitVec.ofNat 8 stored).toNat = stored := by
    rw [BitVec.toNat_ofNat]
    omega
  have hinfinite : BitVec.ofNat 8 stored ≠ -1#8 := by
    intro h
    have hvalue : (BitVec.ofNat 8 stored).toNat = 255 := congrArg BitVec.toNat h
    omega
  have hsmall : BitVec.ofNat 8 stored ≠ 0#8 := by
    intro h
    have hvalue : (BitVec.ofNat 8 stored).toNat = 0 := congrArg BitVec.toNat h
    omega
  have hlog : m.log2 = 23 := log2_eq_of_bounds hlow hhigh
  have hbias : Format.binary32.exponentBias = 127 := rfl
  have hsum : (e + ((127 : Nat) : Int) + ((23 : Nat) : Int)).toNat = stored := by omega
  have hdigits : 23 + 1 = Format.binary32.mantissaBits := rfl
  simp only [UnpackedFloat.pack, hbias, hlog, hsum, if_neg (show ¬2 ^ 8 ≤ stored + 1 by omega),
    if_pos hdigits]
  simp only [UnpackedFloat.unpack, UnpackedFloat.unpackMantissa_packComponents,
    UnpackedFloat.unpackExponent_packComponents, UnpackedFloat.unpackSign_packComponents,
    toNat_append_one, hinfinite, hsmall, if_false, hexponent, hbias, BitVec.toNat_ofNat,
    UnpackedFloat.finite.injEq]
  exact ⟨rfl, by omega, by omega⟩

/-! ### Rounding a count -/

/-- A count that a number does not exceed, or exceeds by less than one unit of its last digit. -/
theorem isNext_of_truncate_le (h : truncate a e ≤ n) (ha : 2 ^ 23 ≤ a) (hm : m ≤ a + 1) :
    IsNext n m e := by
  rintro m' e' hm' (hlt | ⟨rfl, hlt⟩)
  · calc
      truncate m' e' ≤ truncate m' (e - 1) := truncate_mono_exponent m' (by omega)
      _ ≤ truncate (2 * a) (e - 1) := truncate_mono (by omega) _
      _ = truncate a e := truncate_double a e
      _ ≤ n := h
  · exact Nat.le_trans (truncate_mono (by omega) _) h

/-- Behind the last significand comes the first one with the next exponent. -/
theorem isNext_of_carry (h : truncate a e ≤ n) (ha : a + 1 = 2 ^ 24) :
    IsNext n (2 ^ 23) (e + 1) := by
  rintro m' e' hm' (hlt | ⟨rfl, hlt⟩)
  · calc
      truncate m' e' ≤ truncate m' e := truncate_mono_exponent m' (by omega)
      _ ≤ truncate a e := truncate_mono (by omega) _
      _ ≤ n := h
  · have hdouble := truncate_double m' (e + 1)
    rw [Int.add_sub_cancel] at hdouble
    rw [← hdouble]
    exact Nat.le_trans (truncate_mono (by omega) _) h

theorem log2_shifted (hn : 0 < n) (k : Nat) : (n * 2 ^ k).log2 = n.log2 + k := by
  obtain ⟨hlow, hhigh⟩ := (Nat.log2_eq_iff (by omega)).mp (rfl : n.log2 = n.log2)
  apply log2_eq_of_bounds
  · rw [Nat.pow_add]
    exact Nat.mul_le_mul_right _ hlow
  · rw [Nat.add_right_comm, Nat.pow_add]
    exact Nat.mul_lt_mul_of_pos_right hhigh (Nat.two_pow_pos _)

theorem leading_bounds (hn : 0 < n) : 2 ^ 23 ≤ leading n ∧ leading n < 2 ^ 24 := by
  have hne := Nat.ne_of_gt (Nat.mul_pos hn (Nat.two_pow_pos (23 - n.log2)))
  obtain ⟨hlow, hhigh⟩ := (Nat.log2_eq_iff hne).mp (log2_shifted hn _)
  have hlow' : n.log2 + (23 - n.log2) = 23 + (n.log2 - 23) := by omega
  have hhigh' : n.log2 + (23 - n.log2) + 1 = 24 + (n.log2 - 23) := by omega
  rw [hlow', Nat.pow_add] at hlow
  rw [hhigh', Nat.pow_add] at hhigh
  exact ⟨(Nat.le_div_iff_mul_le (Nat.two_pow_pos _)).mpr hlow,
    (Nat.div_lt_iff_lt_mul (Nat.two_pow_pos _)).mpr hhigh⟩

theorem truncate_leading (n : Nat) : truncate (leading n) (n.log2 - 23) ≤ n := by
  have hup : ((n.log2 : Int) - 23).toNat = n.log2 - 23 := by omega
  have hdown : (-((n.log2 : Int) - 23)).toNat = 23 - n.log2 := by omega
  unfold truncate leading
  rw [hup, hdown]
  apply Nat.div_le_of_le_mul
  rw [Nat.mul_comm (2 ^ (23 - n.log2))]
  exact Nat.div_mul_le_self _ _

theorem roundedMantissa_cases (em : ExtendedMantissa) :
    em.roundedMantissa = em.mantissa ∨ em.roundedMantissa = em.mantissa + 1 := by
  unfold ExtendedMantissa.roundedMantissa
  rcases em.accuracy with _ | _ | _ | _
  · exact .inl rfl
  · exact .inl rfl
  · -- Between two significands the even one is taken.
    show em.mantissa + em.mantissa % 2 = _ ∨ em.mantissa + em.mantissa % 2 = _
    omega
  · exact .inr rfl

theorem targetExponent_eq (h : -126 ≤ m.log2 + e) :
    Format.binary32.targetExponent (totalExponent m e) = m.log2 + e - 23 := by
  show max ((m.log2 : Int) + 1 + e - ((24 : Nat) : Int)) (3 - 2 ^ 7 - ((24 : Nat) : Int)) = _
  omega

theorem shiftToTargetExponent_of_lt (hlow : 2 ^ 23 ≤ m) (hhigh : m < 2 ^ 24) (he : -149 ≤ e) :
    UnpackedFloat.shiftToTargetExponent Format.binary32 m e .exact = (⟨m, false, false⟩, e) := by
  have hlog : m.log2 = 23 := log2_eq_of_bounds hlow hhigh
  have htarget := targetExponent_eq (m := m) (e := e) (by omega)
  have hnone : (Format.binary32.targetExponent (totalExponent m e) - e).toNat = 0 := by omega
  unfold UnpackedFloat.shiftToTargetExponent UnpackedFloat.shiftToExponent
  dsimp only
  rw [hnone, Int.natCast_zero, Int.add_zero]
  rfl

theorem shiftToTargetExponent_of_carry (he : -149 ≤ e) :
    UnpackedFloat.shiftToTargetExponent Format.binary32 (2 ^ 24) e .exact =
      (⟨2 ^ 23, false, false⟩, e + 1) := by
  have hlog : (2 ^ 24 : Nat).log2 = 24 := Nat.log2_two_pow
  have htarget := targetExponent_eq (m := 2 ^ 24) (e := e) (by omega)
  have hone : (Format.binary32.targetExponent (totalExponent (2 ^ 24) e) - e).toNat = 1 := by omega
  unfold UnpackedFloat.shiftToTargetExponent UnpackedFloat.shiftToExponent
  dsimp only
  rw [hone]
  rfl

/-- A count is first cut down to its leading digits. -/
theorem round_eq (hn : 0 < n) (sign : Sign) :
    ∃ em : ExtendedMantissa, em.mantissa = leading n ∧
      UnpackedFloat.round Format.binary32 sign n 0 =
        let shifted := UnpackedFloat.shiftToTargetExponent Format.binary32 em.roundedMantissa
          (n.log2 - 23) .exact
        if h : shifted.1.mantissa = 0 then .zero sign
        else .finite sign shifted.1.mantissa shifted.2 (Nat.pos_of_ne_zero h) := by
  let up := 23 - n.log2
  let down := n.log2 - 23
  let em := ExtendedMantissa.ofMantissaAndAccuracy (n * 2 ^ up) .exact >>> down
  have htarget := targetExponent_eq (m := n) (e := 0) (by omega)
  have hup : (0 - Format.binary32.targetExponent (totalExponent n 0)).toNat = up := by omega
  have hlog := log2_shifted hn up
  have hsame := targetExponent_eq (m := n * 2 ^ up) (e := 0 - up) (by omega)
  have hdown : (Format.binary32.targetExponent (totalExponent (n * 2 ^ up) (0 - up)) -
      (0 - up)).toNat = down := by omega
  have hend : (0 : Int) - up + down = n.log2 - 23 := by omega
  have hshift : UnpackedFloat.shiftToTargetExponent Format.binary32 (n * 2 ^ up) (0 - up) .exact =
      (em, (n.log2 : Int) - 23) := by
    unfold UnpackedFloat.shiftToTargetExponent UnpackedFloat.shiftToExponent
    dsimp only
    rw [hdown, hend]
  refine ⟨em, mantissa_shiftRight _ _, ?_⟩
  unfold UnpackedFloat.round UnpackedFloat.decreaseExponent UnpackedFloat.roundWithAccuracy
  dsimp only
  rw [hup, Nat.shiftLeft_eq, hshift]

/-- The nearest number to a count comes next behind it, or is the count itself. -/
theorem exists_nearest (hn : 0 < n) :
    ∃ m e hm, UnpackedFloat.ofNat Format.binary32 n = .finite .positive m e hm ∧
      2 ^ 23 ≤ m ∧ m < 2 ^ 24 ∧ (e = n.log2 - 23 ∨ e = n.log2 - 22) ∧ IsNext n m e := by
  have hround : UnpackedFloat.ofNat Format.binary32 n =
      UnpackedFloat.round Format.binary32 .positive n 0 := by
    unfold UnpackedFloat.ofNat UnpackedFloat.ofInt UnpackedFloat.normalize
    rw [Int.compare_eq_gt.mpr (by omega)]
    rfl
  obtain ⟨em, hem, heq⟩ := round_eq hn .positive
  obtain ⟨hlow, hhigh⟩ := leading_bounds hn
  have htruncate := truncate_leading n
  have hcases := roundedMantissa_cases em
  rw [hem] at hcases
  let e : Int := n.log2 - 23
  rcases Nat.lt_or_ge em.roundedMantissa (2 ^ 24) with hlt | hge
  · have hne : em.roundedMantissa ≠ 0 := by omega
    have hshift := shiftToTargetExponent_of_lt (m := em.roundedMantissa) (e := e) (by omega) hlt
      (by omega)
    refine ⟨em.roundedMantissa, e, by omega, ?_, by omega, hlt, .inl rfl,
      isNext_of_truncate_le htruncate hlow (by omega)⟩
    rw [hround, heq, hshift]
    exact dif_neg hne
  · have hcarry : em.roundedMantissa = 2 ^ 24 := by omega
    have hshift := shiftToTargetExponent_of_carry (e := e) (by omega)
    refine ⟨2 ^ 23, e + 1, by decide, ?_, Nat.le_refl _, by decide, .inr (by omega),
      isNext_of_carry htruncate (by omega)⟩
    rw [hround, heq, hcarry, hshift]
    rfl

/-! ### Comparing with a count -/

/-- A positive number below another one has a smaller exponent, or the same one and a smaller
significand. -/
theorem lt_of_not_le {m' : Nat} {e' : Int} {hm : 0 < m} {hm' : 0 < m'}
    (h : (UnpackedFloat.finite .positive m e hm).le (.finite .positive m' e' hm') = false) :
    e' < e ∨ e' = e ∧ m' < m := by
  simp only [UnpackedFloat.le, UnpackedFloat.compare, Option.any_some] at h
  rcases Int.lt_trichotomy e e' with hlt | rfl | hgt
  · rw [Int.compare_eq_lt.mpr hlt] at h
    contradiction
  · rw [Int.compare_eq_eq.mpr rfl] at h
    refine .inr ⟨rfl, Nat.lt_of_not_le fun hle => ?_⟩
    have hcompare : (compare m m').isLE = true := Nat.isLE_compare.mpr hle
    exact absurd (hcompare.symm.trans h) (by decide)
  · exact .inl hgt

/-- **Rounding a count passes over no whole number.** A number below the one that is nearest to a
count is at most that count when it is rounded down. -/
theorem toUInt64_le_of_not_le (h : ¬ofCount n ≤ x) : x.toUInt64.toNat ≤ n := by
  have hcompare : (UnpackedFloat.unpack Format.binary32 (UnpackedFloat.pack Format.binary32
      (UnpackedFloat.ofNat Format.binary32 (n % 2 ^ 64)))).le x.toModel.unpack = false :=
    Bool.eq_false_iff.mpr fun hle => h (decide_eq_true hle)
  have hmod : n % 2 ^ 64 ≤ n := Nat.mod_le _ _
  have hlt : n % 2 ^ 64 < 2 ^ 64 := Nat.mod_lt _ (by decide)
  generalize n % 2 ^ 64 = k at hcompare hmod hlt
  refine Nat.le_trans (toUInt64_le x) ?_
  rcases Nat.eq_zero_or_pos k with rfl | hk
  · rcases toInt_le_zero_or x.toModel.unpack (UInt64.size - 1) with hzero | hx | ⟨_, _, _, hx⟩
    · omega
    all_goals
      -- Zero is below all these.
      rw [hx] at hcompare
      contradiction
  · obtain ⟨m, e, hm, hnearest, hlow, hhigh, he, hnext⟩ := exists_nearest hk
    have hlog : k.log2 < 64 := (Nat.log2_lt (by omega)).mpr hlt
    rw [hnearest, unpack_pack hm hlow hhigh (by omega) (by omega)] at hcompare
    rcases toInt_le_zero_or x.toModel.unpack (UInt64.size - 1) with hzero | hx | ⟨m', e', hm', hx⟩
    · omega
    · rw [hx] at hcompare
      contradiction
    · rw [hx] at hcompare
      have hle := hnext m' e' (significand_lt hx) (lt_of_not_le hcompare)
      rw [hx, UnpackedFloat.toInt, roundToInt_eq]
      show ((truncate m' e' : Nat) : Int).toNat ≤ n
      omega

end Retint.Single
