import Mathlib

/-!
Binary numbers of double precision, as Lean's own model of them has it. A normal number is a
significand of 53 binary digits and an exponent. Rounding leaves a normal number unchanged, whatever
zeros stand behind its digits (`roundWithAccuracy_mul`), and makes one of any longer significand
(`exists_roundWithAccuracy`). Packed into 64 bits, a normal number is unpacked again
(`unpack_pack_finite`).
-/
namespace Abac.Decimal

open Float.Model Float.Model.UnpackedFloat

def IsNormal (m : Nat) : Prop := 2 ^ 52 ≤ m ∧ m < 2 ^ 53

theorem IsNormal.pos {m : Nat} (h : IsNormal m) : 0 < m := Nat.lt_of_lt_of_le (by decide) h.1

theorem log2_mul_two_pow {m : Nat} (h : m ≠ 0) (k : Nat) : (m * 2 ^ k).log2 = m.log2 + k := by
  induction k with
  | zero => rw [Nat.pow_zero, Nat.mul_one, Nat.add_zero]
  | succ k ih =>
    have hmul : m * 2 ^ k ≠ 0 := Nat.mul_ne_zero h (Nat.ne_of_gt (Nat.two_pow_pos k))
    rw [Nat.pow_succ', Nat.mul_left_comm, Nat.log2_two_mul hmul, ih, Nat.add_assoc]

theorem IsNormal.log2_eq {m : Nat} (h : IsNormal m) : m.log2 = 52 :=
  (Nat.log2_eq_iff (Nat.ne_of_gt h.pos)).mpr h

theorem shiftRight_mantissa (em : ExtendedMantissa) (k : Nat) :
    (em >>> k).mantissa = em.mantissa / 2 ^ k := by
  induction k with
  | zero => exact (Nat.div_one _).symm
  | succ k ih =>
    change (em >>> k).mantissa / 2 = _
    rw [ih, Nat.div_div_eq_div_mul, Nat.pow_succ]

/-- Zeros are shifted out without a trace. -/
theorem shiftRight_exact (m k : Nat) :
    (ExtendedMantissa.mk (m * 2 ^ k) false false) >>> k = ⟨m, false, false⟩ := by
  induction k generalizing m with
  | zero =>
    rw [Nat.pow_zero, Nat.mul_one]
    rfl
  | succ k ih =>
    change ((ExtendedMantissa.mk (m * 2 ^ (k + 1)) false false) >>> k).shiftRightOne = _
    rw [Nat.pow_succ', ← Nat.mul_assoc, ih]
    simp [ExtendedMantissa.shiftRightOne]

/-- The exponent that a number has after rounding: of its digits 53 remain, or less where the
exponent would be below the least one. -/
theorem targetExponent_totalExponent (m : Nat) (e : Int) :
    Format.binary64.targetExponent (totalExponent m e) = max (e + m.log2 - 52) (-1074) := by
  have hmin : Format.binary64.minExponent = -1074 := rfl
  have hbits : (Format.binary64.mantissaBits : Int) = 53 := rfl
  rw [Format.targetExponent, totalExponent, hmin, hbits]
  omega

theorem shiftToTargetExponent_eq {m : Nat} {e : Int} (k : Nat) (hlog : m.log2 = 52 + k)
    (he : -1074 ≤ e + k) :
    shiftToTargetExponent Format.binary64 m e .exact =
      (ExtendedMantissa.mk m false false >>> k, e + k) := by
  have hk : (e + k - e).toNat = k := by omega
  have htarget : Format.binary64.targetExponent (totalExponent m e) = e + k := by
    rw [targetExponent_totalExponent, hlog]
    omega
  unfold shiftToTargetExponent shiftToExponent
  rw [htarget]
  dsimp only
  rw [hk]
  rfl

theorem shiftToTargetExponent_mul {m : Nat} {e : Int} (h : IsNormal m) (k : Nat)
    (he : -1074 ≤ e + k) :
    shiftToTargetExponent Format.binary64 (m * 2 ^ k) e .exact = (⟨m, false, false⟩, e + k) := by
  have hlog : (m * 2 ^ k).log2 = 52 + k := by
    rw [log2_mul_two_pow (Nat.ne_of_gt h.pos), h.log2_eq]
  rw [shiftToTargetExponent_eq k hlog he, shiftRight_exact]

theorem shiftToTargetExponent_normal {m : Nat} {e : Int} (h : IsNormal m) (he : -1074 ≤ e) :
    shiftToTargetExponent Format.binary64 m e .exact = (⟨m, false, false⟩, e) := by
  simpa using shiftToTargetExponent_mul h 0 (by simpa using he)

theorem roundWithAccuracy_mul (s : Sign) {m : Nat} {e : Int} (h : IsNormal m) (k : Nat)
    (he : -1074 ≤ e + k) :
    roundWithAccuracy Format.binary64 s (m * 2 ^ k) e .exact = .finite s m (e + k) h.pos := by
  rw [roundWithAccuracy, shiftToTargetExponent_mul h k he]
  dsimp only [ExtendedMantissa.roundedMantissa, ExtendedMantissa.accuracy,
    Accuracy.roundToNearestEven]
  rw [shiftToTargetExponent_normal h he]
  simp [Nat.ne_of_gt h.pos]

theorem roundWithAccuracy_normal (s : Sign) {m : Nat} {e : Int} (h : IsNormal m)
    (he : -1074 ≤ e) : roundWithAccuracy Format.binary64 s m e .exact = .finite s m e h.pos := by
  simpa using roundWithAccuracy_mul s h 0 (by simpa using he)

theorem roundedMantissa_bounds (em : ExtendedMantissa) :
    em.mantissa ≤ em.roundedMantissa ∧ em.roundedMantissa ≤ em.mantissa + 1 := by
  obtain ⟨m, roundBit, stickyBit⟩ := em
  cases roundBit <;> cases stickyBit <;>
    simp only [ExtendedMantissa.roundedMantissa, ExtendedMantissa.accuracy,
      Accuracy.roundToNearestEven] <;> omega

/-- The digits that remain after rounding down. -/
theorem isNormal_div {m k : Nat} (hlog : m.log2 = 52 + k) : IsNormal (m / 2 ^ k) := by
  have hm : m ≠ 0 := by
    rintro rfl
    simp at hlog
    omega
  obtain ⟨hlow, hhigh⟩ := (Nat.log2_eq_iff hm).mp hlog
  rw [Nat.add_right_comm, Nat.pow_add] at hhigh
  rw [Nat.pow_add] at hlow
  exact ⟨(Nat.le_div_iff_mul_le (Nat.two_pow_pos k)).mpr hlow,
    (Nat.div_lt_iff_lt_mul (Nat.two_pow_pos k)).mpr hhigh⟩

/-- Rounding leaves a normal number; the exponent goes up by one where the significand would not fit
any more. -/
theorem exists_roundWithAccuracy (s : Sign) {m k : Nat} {e : Int} (hlog : m.log2 = 52 + k)
    (he : -1074 ≤ e + k) :
    ∃ m' e', ∃ h : IsNormal m', e + k ≤ e' ∧ e' ≤ e + k + 1 ∧
      roundWithAccuracy Format.binary64 s m e .exact = .finite s m' e' h.pos := by
  have hshift := shiftToTargetExponent_eq k hlog he
  have hnormal := isNormal_div hlog
  have hbounds := roundedMantissa_bounds (ExtendedMantissa.mk m false false >>> k)
  rw [shiftRight_mantissa] at hbounds
  dsimp only at hbounds
  generalize ExtendedMantissa.mk m false false >>> k = em at hshift hbounds
  rw [roundWithAccuracy, hshift]
  dsimp only
  by_cases hfits : em.roundedMantissa < 2 ^ 53
  · have hrounded : IsNormal em.roundedMantissa := ⟨Nat.le_trans hnormal.1 hbounds.1, hfits⟩
    refine ⟨_, e + k, hrounded, by omega, by omega, ?_⟩
    rw [shiftToTargetExponent_normal hrounded he]
    simp [Nat.ne_of_gt hrounded.pos]
  · have hcarry : IsNormal (2 ^ 52) := ⟨Nat.le_refl _, by decide⟩
    have hrounded : em.roundedMantissa = 2 ^ 52 * 2 ^ 1 := by
      have hlt := hnormal.2
      omega
    have hagain := shiftToTargetExponent_mul (e := e + k) hcarry 1 (by omega)
    refine ⟨_, e + k + 1, hcarry, by omega, by omega, ?_⟩
    rw [hrounded, hagain]
    rfl

theorem pack_finite (s : Sign) {m : Nat} {e : Int} (h : IsNormal m) (hlow : -1074 ≤ e)
    (hhigh : e ≤ 971) :
    UnpackedFloat.pack Format.binary64 (.finite s m e h.pos) =
      packComponents Format.binary64 s (BitVec.ofNat 11 (e + 1075).toNat) (BitVec.ofNat 52 m) := by
  have hbias : e + Format.binary64.exponentBias + (52 : Nat) = e + 1075 := by
    have hvalue : (Format.binary64.exponentBias : Int) = 1023 := rfl
    omega
  have hlog : m.log2 + 1 = Format.binary64.mantissaBits := by
    rw [h.log2_eq]
    rfl
  have hfits : ¬2 ^ 11 ≤ (e + 1075).toNat + 1 := by omega
  rw [UnpackedFloat.pack]
  dsimp only
  rw [hbias, if_neg hfits, if_pos hlog]

/-- The leading digit of a significand is not stored. -/
theorem toNat_ofNat_of_isNormal {m : Nat} (h : IsNormal m) :
    (BitVec.ofNat 52 m).toNat = m - 2 ^ 52 := by
  obtain ⟨hlow, hhigh⟩ := h
  rw [BitVec.toNat_ofNat]
  omega

theorem toNat_packComponents (s : Sign) (e : BitVec 11) (m : BitVec 52) :
    (packComponents Format.binary64 s e m).toNat =
      s.toBitVec.toNat * 2 ^ 63 + e.toNat * 2 ^ 52 + m.toNat := by
  change ((s.toBitVec ++ e) ++ m).toNat = _
  rw [BitVec.toNat_append, BitVec.toNat_append, ← Nat.shiftLeft_add_eq_or_of_lt m.isLt,
    ← Nat.shiftLeft_add_eq_or_of_lt e.isLt, Nat.shiftLeft_eq, Nat.shiftLeft_eq]
  omega

theorem unpack_pack_finite (s : Sign) {m : Nat} {e : Int} (h : IsNormal m) (hlow : -1074 ≤ e)
    (hhigh : e ≤ 971) :
    (Float.Model.pack (.finite s m e h.pos)).unpack = .finite s m e h.pos := by
  have hbiased : (BitVec.ofNat 11 (e + 1075).toNat).toNat = (e + 1075).toNat := by
    rw [BitVec.toNat_ofNat, Nat.mod_eq_of_lt (by omega)]
  have hspecial : BitVec.ofNat 11 (e + 1075).toNat ≠ -1#11 := by
    intro heq
    have hnat := congrArg BitVec.toNat heq
    rw [hbiased] at hnat
    change _ = 2047 at hnat
    omega
  have hzero : BitVec.ofNat 11 (e + 1075).toNat ≠ 0#11 := by
    intro heq
    have hnat := congrArg BitVec.toNat heq
    rw [hbiased] at hnat
    change _ = 0 at hnat
    omega
  have hsignificand : (1#1 ++ BitVec.ofNat 52 m).toNat = m := by
    have hstored := toNat_ofNat_of_isNormal h
    rw [BitVec.toNat_append, ← Nat.shiftLeft_add_eq_or_of_lt (BitVec.isLt _), hstored]
    exact Nat.add_sub_of_le h.1
  change UnpackedFloat.unpack Format.binary64
    (UnpackedFloat.pack Format.binary64 (.finite s m e h.pos)) = _
  rw [pack_finite s h hlow hhigh, UnpackedFloat.unpack]
  simp only [unpackMantissa_packComponents, unpackExponent_packComponents,
    unpackSign_packComponents, Sign.ofBitVec_toBitVec, if_neg hspecial, if_neg hzero, hbiased,
    hsignificand]
  congr 1
  have hbias : (Format.binary64.exponentBias : Int) = 1023 := rfl
  rw [hbias]
  omega

end Abac.Decimal
