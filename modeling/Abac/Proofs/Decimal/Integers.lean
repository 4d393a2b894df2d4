import Abac.Proofs.Decimal.Binary64
import Abac.Value

/-!
Integers as binary numbers. An integer of at most 53 binary digits is converted exactly, with zeros
behind its digits (`nearest_of_lt`), and read back from the number that it became
(`smallInteger?_toFloat`). A longer one, of up to 64 binary digits, becomes a finite number that is
not read as an integer (`smallInteger?_toFloat_eq_none`).
-/
namespace Abac

open Float.Model Float.Model.UnpackedFloat

theorem Digits.length_prepend_le {base fuel n count : Nat} {tail : List Char}
    (h : n < base ^ (count + 1)) :
    (prepend base fuel n tail).length ≤ tail.length + (count + 1) := by
  induction fuel generalizing n count tail with
  | zero => exact Nat.le_add_right _ _
  | succ fuel ih =>
    rw [prepend]
    split
    · rw [List.length_cons]
      omega
    · next hbase =>
      cases count with
      | zero => exact absurd (by simpa using h) hbase
      | succ count =>
        have hquotient : n / base < base ^ (count + 1) := by
          rw [Nat.pow_succ] at h
          exact Nat.div_lt_of_lt_mul (by rwa [Nat.mul_comm] at h)
        have hrest : (prepend base fuel (n / base) (char (n % base) :: tail)).length ≤
            (char (n % base) :: tail).length + (count + 1) := ih hquotient
        rw [List.length_cons] at hrest
        omega

namespace Decimal

def normal (s : Sign) {m : Nat} (e : Int) (h : IsNormal m) : Float :=
  .ofModel (Float.Model.pack (.finite s m e h.pos))

theorem one_eq : Float.ofBits 0x3FF0000000000000 =
    normal .positive (-52) (m := 2 ^ 52) ⟨Nat.le_refl _, by decide⟩ := by
  rfl

theorem normal_mul_one (s : Sign) {m : Nat} {e : Int} (h : IsNormal m) (hlow : -1074 ≤ e)
    (hhigh : e ≤ 971) : normal s e h * Float.ofBits 0x3FF0000000000000 = normal s e h := by
  have hone : IsNormal (2 ^ 52) := ⟨Nat.le_refl _, by decide⟩
  have hround := roundWithAccuracy_mul (s * .positive) (e := e + -52) h 52 (by omega)
  have hsign : s * Sign.positive = s := by cases s <;> rfl
  have hexponent : e + -52 + (52 : Nat) = e := by omega
  rw [one_eq]
  change Float.ofModel (Float.Model.pack (UnpackedFloat.mul _
    (Float.Model.unpack (Float.Model.pack _)) (Float.Model.unpack (Float.Model.pack _)))) = _
  rw [unpack_pack_finite s h hlow hhigh, unpack_pack_finite .positive hone (by decide) (by decide),
    UnpackedFloat.mul, hround]
  simp only [hsign, hexponent]
  rfl

theorem neg_normal {m : Nat} {e : Int} (h : IsNormal m) (hlow : -1074 ≤ e) (hhigh : e ≤ 971) :
    -normal .positive e h = normal .negative e h := by
  change Float.ofModel (Float.Model.pack
    (UnpackedFloat.neg (Float.Model.unpack (Float.Model.pack _)))) = _
  rw [unpack_pack_finite .positive h hlow hhigh]
  rfl

theorem isFinite_normal (s : Sign) {m : Nat} {e : Int} (h : IsNormal m) (hlow : -1074 ≤ e)
    (hhigh : e ≤ 971) : (normal s e h).isFinite = true := by
  change UnpackedFloat.isFinite (Float.Model.unpack (Float.Model.pack _)) = _
  rw [unpack_pack_finite s h hlow hhigh]
  rfl

/-- Zeros behind the digits of a number make a significand of it. -/
theorem isNormal_mul_two_pow {n : Nat} (hpos : 0 < n) (hlog : n.log2 ≤ 52) :
    IsNormal (n * 2 ^ (52 - n.log2)) := by
  obtain ⟨hlow, hhigh⟩ := (Nat.log2_eq_iff (Nat.ne_of_gt hpos)).mp rfl
  have hzeros := Nat.two_pow_pos (52 - n.log2)
  have hleast : 2 ^ 52 = 2 ^ n.log2 * 2 ^ (52 - n.log2) := by
    rw [← Nat.pow_add, Nat.add_sub_of_le hlog]
  have hgreatest : 2 ^ 53 = 2 ^ (n.log2 + 1) * 2 ^ (52 - n.log2) := by
    rw [← Nat.pow_add]
    congr 1
    omega
  exact ⟨hleast ▸ Nat.mul_le_mul_right _ hlow, hgreatest ▸ Nat.mul_lt_mul_of_pos_right hhigh hzeros⟩

theorem nearest_eq_ofScientific {n : Nat} (hpos : 0 < n) (hlt : n < 2 ^ 64) :
    nearest n 0 = Float.ofScientific n false 0 := by
  have hdigits : n < 10 ^ (19 + 1) := Nat.lt_trans hlt (by decide)
  have hlength : (Digits.ofNat n).length ≤ 20 := Digits.length_prepend_le hdigits
  rw [nearest, if_neg (Nat.ne_of_gt hpos), if_neg (by omega), if_neg (by omega)]
  rfl

theorem round_natural (s : Sign) {n : Nat} (hpos : 0 < n) (hlog : n.log2 ≤ 52) :
    UnpackedFloat.round Format.binary64 s n 0 =
      .finite s (n * 2 ^ (52 - n.log2)) (-(52 - n.log2 : Nat))
        (isNormal_mul_two_pow hpos hlog).pos := by
  have htarget : Format.binary64.targetExponent (totalExponent n 0) = -(52 - n.log2 : Nat) := by
    rw [targetExponent_totalExponent]
    omega
  have hshift : (0 - -((52 - n.log2 : Nat) : Int)).toNat = 52 - n.log2 := by omega
  rw [UnpackedFloat.round, htarget]
  dsimp only [decreaseExponent]
  rw [hshift, Nat.shiftLeft_eq, Int.zero_sub,
    roundWithAccuracy_normal s (isNormal_mul_two_pow hpos hlog) (by omega)]

/-- Numbers of 53 binary digits are converted exactly. -/
theorem nearest_of_lt {n : Nat} (hpos : 0 < n) (hlt : n < 2 ^ 53) :
    ∃ h : IsNormal (n * 2 ^ (52 - n.log2)),
      nearest n 0 = normal .positive (-(52 - n.log2 : Nat)) h := by
  have hlog : n.log2 ≤ 52 := Nat.lt_succ_iff.mp ((Nat.log2_lt (Nat.ne_of_gt hpos)).mpr hlt)
  have h := isNormal_mul_two_pow hpos hlog
  have hword : n.toUInt64.toNat = n := UInt64.toNat_ofNat_of_lt (Nat.lt_trans hlt (by decide))
  have hconverted : n.toUInt64.toFloat = normal .positive (-(52 - n.log2 : Nat)) h := by
    change Float.ofModel (Float.Model.pack
      (UnpackedFloat.normalize Format.binary64 (n.toUInt64.toNat : Int) 0 _)) = _
    rw [hword, UnpackedFloat.normalize, Int.compare_eq_gt.mpr (by omega)]
    dsimp only
    rw [Int.toNat_natCast, round_natural _ hpos hlog]
    rfl
  refine ⟨h, ?_⟩
  rw [nearest_eq_ofScientific hpos (by omega), Float.ofScientific, dif_pos ⟨hlt, by decide⟩]
  change n.toUInt64.toFloat * Float.ofBits 0x3FF0000000000000 = _
  rw [hconverted, normal_mul_one _ _ (by omega) (by omega)]

/-- Longer numbers are rounded, and the exponent is positive. -/
theorem exists_nearest_of_le {n : Nat} (hle : 2 ^ 53 ≤ n) (hlt : n < 2 ^ 64) :
    ∃ m e, ∃ h : IsNormal m, 1 ≤ e ∧ e ≤ 12 ∧ nearest n 0 = normal .positive e h := by
  have hne : n ≠ 0 := by omega
  have hlow : 53 ≤ n.log2 := (Nat.le_log2 hne).mpr hle
  have hhigh : n.log2 < 64 := (Nat.log2_lt hne).mpr hlt
  have hlog : (n <<< 53 * 10 ^ 0).log2 = 52 + (n.log2 + 1) := by
    rw [Nat.pow_zero, Nat.mul_one, Nat.shiftLeft_eq, log2_mul_two_pow hne]
    omega
  obtain ⟨m, e, h, hel, heh, hround⟩ :=
    exists_roundWithAccuracy (Sign.positive * Sign.positive) (e := -53 + 0) hlog (by omega)
  refine ⟨m, e, h, by omega, by omega, ?_⟩
  have hrange : (0 : Int) ≤ 2 ^ Format.binary64.exponentBits := by decide
  rw [nearest_eq_ofScientific (by omega) hlt, Float.ofScientific, dif_neg (by omega)]
  change Float.ofModel (Float.Model.pack (UnpackedFloat.ofScientific Format.binary64 n 0)) = _
  rw [UnpackedFloat.ofScientific, dif_neg hne, if_neg (by decide), if_neg (by omega),
    if_pos (by decide), UnpackedFloat.mul]
  exact congrArg (fun x => Float.ofModel (Float.Model.pack x)) hround

/-! ## Reading integers back -/

theorem integral?_of_nonneg (m e below : Nat) : Binary.integral? ⟨m, e, below⟩ = some (m * 2 ^ e) :=
  if_pos (Int.natCast_nonneg e)

theorem integral?_zero (e : Int) (below : Nat) : Binary.integral? ⟨0, e, below⟩ = some 0 := by
  rw [Binary.integral?]
  split <;> simp

/-- Zeros behind the digits are taken away again. -/
theorem integral?_mul_two_pow (n k below : Nat) :
    Binary.integral? ⟨n * 2 ^ k, -(k : Int), below⟩ = some n := by
  cases k with
  | zero => simp [Binary.integral?]
  | succ k =>
    have hdivides : n * 2 ^ (k + 1) % 2 ^ (k + 1) = 0 := Nat.mul_mod_left _ _
    have hquotient : n * 2 ^ (k + 1) / 2 ^ (k + 1) = n := Nat.mul_div_cancel _ (Nat.two_pow_pos _)
    have hnegative : ¬0 ≤ -((k + 1 : Nat) : Int) := by omega
    rw [Binary.integral?]
    dsimp only
    rw [if_neg hnegative, Int.natAbs_neg, Int.natAbs_natCast]
    exact (if_pos hdivides).trans (congrArg some hquotient)

theorem toNat_toBits_normal (s : Sign) {m : Nat} {e : Int} (h : IsNormal m) (hlow : -1074 ≤ e)
    (hhigh : e ≤ 971) :
    (normal s e h).toBits.toNat =
      s.toBitVec.toNat * 2 ^ 63 + (e + 1075).toNat * 2 ^ 52 + (m - 2 ^ 52) := by
  change (UnpackedFloat.pack Format.binary64 (.finite s m e h.pos)).toNat = _
  rw [pack_finite s h hlow hhigh, toNat_packComponents, toNat_ofNat_of_isNormal h,
    BitVec.toNat_ofNat, Nat.mod_eq_of_lt (by omega)]

/-- The bits of a number are read as the number that was packed, and the first of them as its
sign. -/
theorem exists_ofBits_normal (s : Sign) {m : Nat} {e : Int} (h : IsNormal m) (hlow : -1074 ≤ e)
    (hhigh : e ≤ 971) :
    (∃ below, Binary.ofBits ((normal s e h).toBits.toNat % signBit) = ⟨m, e, below⟩) ∧
      (signBit ≤ (normal s e h).toBits.toNat ↔ s = .negative) := by
  have hbits := toNat_toBits_normal s h hlow hhigh
  generalize (normal s e h).toBits.toNat = bits at hbits ⊢
  obtain ⟨hmlow, hmhigh⟩ := h
  have hsign : s.toBitVec.toNat < 2 := s.toBitVec.isLt
  have hnegative : s.toBitVec.toNat = 1 ↔ s = .negative := by
    cases s with
    | negative => exact iff_of_true rfl rfl
    | positive => exact iff_of_false (by decide) nofun
  generalize s.toBitVec.toNat = sign at hbits hsign hnegative
  have hrest : bits % signBit = (e + 1075).toNat * 2 ^ 52 + (m - 2 ^ 52) := by
    rw [hbits, signBit]
    omega
  have hfraction : (bits % signBit) % leastNormal = m - 2 ^ 52 := by
    rw [hrest, leastNormal]
    omega
  have hbiased : (bits % signBit) / leastNormal % 0x800 = (e + 1075).toNat := by
    rw [hrest, leastNormal]
    omega
  have hexponent : ((e + 1075).toNat : Int) - 1075 = e := by omega
  have hsignificand : leastNormal + (m - 2 ^ 52) = m := Nat.add_sub_of_le hmlow
  constructor
  · rw [Binary.ofBits, hfraction, hbiased, if_neg (by omega), hexponent, hsignificand]
    exact ⟨_, rfl⟩
  · rw [← hnegative, hbits, signBit]
    omega

def signOf (n : Int) : Sign := if n < 0 then .negative else .positive

theorem toFloat_of_nearest {n : Int} {m : Nat} {e : Int} {h : IsNormal m} (hlow : -1074 ≤ e)
    (hhigh : e ≤ 971) (hnearest : nearest n.natAbs 0 = normal .positive e h) :
    (Json.Number.integer n).toFloat = normal (signOf n) e h := by
  rw [Json.Number.toFloat, Numeral.toFloat, hnearest, signOf]
  dsimp only
  by_cases hn : n < 0
  · rw [if_pos (decide_eq_true hn), if_pos hn, neg_normal h hlow hhigh]
  · rw [if_neg (by simpa using hn), if_neg hn]

/-- The integer that a binary number is, read from its significand. -/
theorem smallInteger?_normal {n : Int} {m : Nat} {e : Int} (h : IsNormal m) (hlow : -1074 ≤ e)
    (hhigh : e ≤ 971) (size : Nat) (hsize : ∀ below, Binary.integral? ⟨m, e, below⟩ = some size) :
    smallInteger? (normal (signOf n) e h) =
      if size < integerBound then some (if n < 0 then -(size : Int) else size) else none := by
  obtain ⟨⟨below, hbits⟩, hsign⟩ := exists_ofBits_normal (signOf n) h hlow hhigh
  have hnegative : signOf n = .negative ↔ n < 0 := by
    rw [signOf]
    split
    · next hn => exact iff_of_true rfl hn
    · next hn => exact iff_of_false nofun hn
  rw [smallInteger?, hbits, hsize]
  simp only [hsign, hnegative]

theorem smallInteger?_toFloat_zero : smallInteger? (Json.Number.integer 0).toFloat = some 0 := by
  have hbits : (Json.Number.integer 0).toFloat.toBits.toNat = 0 := rfl
  have hzero : Binary.ofBits (0 % signBit) = ⟨0, -1074, 2⟩ := rfl
  rw [smallInteger?, hbits, hzero, integral?_zero]
  rfl

/-- An integer of moderate size is read back from the binary number that it was converted to. -/
theorem smallInteger?_toFloat {n : Int} (h : n.natAbs < 2 ^ 53) :
    smallInteger? (Json.Number.integer n).toFloat = some n := by
  by_cases hn : n = 0
  · exact hn ▸ smallInteger?_toFloat_zero
  · obtain ⟨hnormal, hnearest⟩ := nearest_of_lt (Int.natAbs_pos.mpr hn) h
    rw [toFloat_of_nearest (by omega) (by omega) hnearest,
      smallInteger?_normal hnormal (by omega) (by omega) n.natAbs (integral?_mul_two_pow _ _),
      if_pos (show n.natAbs < integerBound from h)]
    congr 1
    split <;> omega

/-- An integer that is not of moderate size is converted to a finite number that is not either. -/
theorem smallInteger?_toFloat_eq_none {n : Int} (h : 2 ^ 53 ≤ n.natAbs)
    (hword : n.natAbs < 2 ^ 64) :
    smallInteger? (Json.Number.integer n).toFloat = none ∧
      (Json.Number.integer n).toFloat.isFinite = true := by
  obtain ⟨m, e, hnormal, hlow, hhigh, hnearest⟩ := exists_nearest_of_le h hword
  obtain ⟨power, rfl⟩ := Int.eq_ofNat_of_zero_le (Int.le_trans (by decide) hlow)
  rw [toFloat_of_nearest (by omega) (by omega) hnearest]
  refine ⟨?_, isFinite_normal _ hnormal (by omega) (by omega)⟩
  have hsize : ¬m * 2 ^ power < integerBound := by
    have hpower : 2 ^ 1 ≤ 2 ^ power := Nat.pow_le_pow_right (by decide) (by omega)
    have hmul := Nat.mul_le_mul hnormal.1 hpower
    rw [integerBound]
    omega
  rw [smallInteger?_normal hnormal (by omega) (by omega) _ (integral?_of_nonneg m power),
    if_neg hsize]

end Decimal
end Abac
