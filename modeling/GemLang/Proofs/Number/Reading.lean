import GemLang.Proofs.Number.Rounding

/-!
# Reading a decimal

A decimal is read as the number that owns its exact value (`RoundsTo.ofDecimal_eq`).

There are two ways to compute it. Few digits with a small exponent are one product or one quotient
of two numbers that are exact themselves: a whole number below `2 ^ 53`, and a power of ten up to
`10 ^ 22`, which has a short mantissa since `10 ^ k = 5 ^ k · 2 ^ k`. All other decimals are
computed from their exact digits. Either way there is only one rounding, and the values that are too
large or too small for that are not owned by any number.
-/

namespace GemLang.Number

open Float.Model (Format)
open Float.Model.Format (binary64)
open Float.Model.UnpackedFloat

/-! ## Exact operands -/

theorem wholeMantissa_mul {n : Nat} (hpos : n ≠ 0) (hlt : n < 2 ^ 53) :
    (wholeMantissa n : ℚ) * 2 ^ wholeExponent n = n := by
  have hlog2 : n.log2 < 53 := (Nat.log2_lt hpos).mpr hlt
  have hexponent : wholeExponent n = -((52 - n.log2 : Nat) : Int) := by
    rw [wholeExponent]
    omega
  rw [hexponent, wholeMantissa, zpow_neg, zpow_natCast]
  push_cast
  field_simp

theorem pow_five_lt {k : Nat} (hk : k < 23) : 5 ^ k < 2 ^ 53 :=
  calc 5 ^ k ≤ 5 ^ 22 := Nat.pow_le_pow_right (by decide) (by omega)
    _ < 2 ^ 53 := by decide

theorem isCanonical_powerOfTen {k : Nat} (hk : k < 23) :
    IsCanonical (wholeMantissa (5 ^ k)) (wholeExponent (5 ^ k) + k) := by
  have hwhole := isCanonical_whole (n := 5 ^ k) (by positivity) (pow_five_lt hk)
  have hlower := hwhole.lower
  have hlog2 : (5 ^ k).log2 < 53 := (Nat.log2_lt (by positivity)).mpr (pow_five_lt hk)
  refine ⟨hwhole.log2, by omega, ?_⟩
  rw [wholeExponent]
  omega

theorem parts_powerOfTen : ∀ k : Fin Float.exactlyRepresentablePowersOfTen.size,
    parts Float.exactlyRepresentablePowersOfTen[k] =
      .finite false (wholeMantissa (5 ^ k.val)) (wholeExponent (5 ^ k.val) + k.val) := by
  decide +kernel

theorem unpack_powerOfTen {k : Nat} (hk : k < 23)
    (hsize : k < Float.exactlyRepresentablePowersOfTen.size) :
    Float.exactlyRepresentablePowersOfTen[k].toModel.unpack =
      .finite .positive (wholeMantissa (5 ^ k)) (wholeExponent (5 ^ k) + k)
        (isCanonical_powerOfTen hk).pos := by
  have hbinary := (isCanonical_powerOfTen hk).isBinary
  have heq : Float.exactlyRepresentablePowersOfTen[k] = _ :=
    eq_of_parts (parts_powerOfTen ⟨k, hsize⟩) hbinary
  rw [heq]
  exact hbinary.unpack_pack .positive

theorem powerOfTen_mul {k : Nat} (hk : k < 23) :
    (wholeMantissa (5 ^ k) : ℚ) * 2 ^ (wholeExponent (5 ^ k) + k) = 10 ^ k := by
  rw [zpow_add₀ two_ne_zero, ← mul_assoc, wholeMantissa_mul (by positivity) (pow_five_lt hk),
    zpow_natCast]
  push_cast
  rw [← mul_pow]
  norm_num

/-! ## Powers of two and of ten

The fractions `3 / 10` and `28 / 93` are below and above the logarithm of two. -/

theorem two_pow_le_ten_zpow (k : Nat) {a : Int} (h : 28 * k ≤ 93 * a) : (2 : ℚ) ^ k ≤ 10 ^ a := by
  refine (pow_le_pow_iff_left₀ (by positivity) (by positivity) (by norm_num : 93 ≠ 0)).mp ?_
  calc ((2 : ℚ) ^ k) ^ 93 = (2 ^ 93) ^ k := pow_right_comm 2 k 93
    _ ≤ (10 ^ 28) ^ k := by gcongr; norm_num
    _ = 10 ^ ((28 : Int) * k) := by rw [zpow_mul, zpow_natCast]; norm_num
    _ ≤ 10 ^ (a * (93 : Nat)) := zpow_le_zpow_right₀ (by norm_num) (by omega)
    _ = (10 ^ a) ^ 93 := by rw [zpow_mul, zpow_natCast]

theorem ten_zpow_le_two_pow (k : Nat) {a : Int} (h : 10 * a ≤ 3 * k) : (10 : ℚ) ^ a ≤ 2 ^ k := by
  refine (pow_le_pow_iff_left₀ (by positivity) (by positivity) (by norm_num : 10 ≠ 0)).mp ?_
  calc ((10 : ℚ) ^ a) ^ 10 = 10 ^ (a * (10 : Nat)) := by rw [zpow_mul, zpow_natCast]
    _ ≤ 10 ^ ((3 : Int) * k) := zpow_le_zpow_right₀ (by norm_num) (by omega)
    _ = (10 ^ 3) ^ k := by rw [zpow_mul, zpow_natCast]; norm_num
    _ ≤ (2 ^ 10) ^ k := by gcongr; norm_num
    _ = (2 ^ k) ^ 10 := pow_right_comm 2 10 k

theorem two_zpow_le_ten_zpow {b a : Int} (h : 28 * b ≤ 93 * a) (h' : 3 * b ≤ 10 * a) :
    (2 : ℚ) ^ b ≤ 10 ^ a := by
  obtain ⟨k, rfl | rfl⟩ := b.eq_nat_or_neg
  · exact_mod_cast two_pow_le_ten_zpow k h
  · have hpow := ten_zpow_le_two_pow k (a := -a) (by omega)
    rw [zpow_neg] at hpow ⊢
    exact_mod_cast inv_le_of_inv_le₀ (by positivity) hpow

theorem ten_zpow_le_two_zpow {a b : Int} (h : 93 * a ≤ 28 * b) (h' : 10 * a ≤ 3 * b) :
    (10 : ℚ) ^ a ≤ 2 ^ b := by
  obtain ⟨k, rfl | rfl⟩ := b.eq_nat_or_neg
  · exact_mod_cast ten_zpow_le_two_pow k h'
  · have hpow := two_pow_le_ten_zpow k (a := -a) (by omega)
    rw [zpow_neg] at hpow ⊢
    exact_mod_cast le_inv_of_le_inv₀ (by positivity) hpow

/-! ## Decimals -/

variable {n : Nat} {t : Int} {digits : Nat}

/-- Few digits and a small exponent: one operation on exact operands. -/
theorem RoundsTo.ofScientific_fast (hb : IsBinary n t) (hpos : digits ≠ 0) (hlt : digits < 2 ^ 53)
    {k : Nat} (hk : k ≤ 22) {s : Bool}
    (hx : RoundsTo n t (if s then digits / 10 ^ k else digits * 10 ^ k)) :
    (Float.ofScientific digits s k).toModel = .pack (.finite .positive n t hb.pos) := by
  have hk' : k < 23 := by omega
  have hsize : k < Float.exactlyRepresentablePowersOfTen.size := hk'
  have hcanonical := isCanonical_whole hpos hlt
  have hpower := isCanonical_powerOfTen hk'
  rw [← wholeMantissa_mul hpos hlt, ← powerOfTen_mul hk'] at hx
  rw [Float.ofScientific, dif_pos ⟨hlt, hk⟩]
  cases s with
  | true =>
    change Float.Model.pack (div binary64 digits.toUInt64.toFloat.toModel.unpack
      Float.exactlyRepresentablePowersOfTen[k].toModel.unpack) = _
    rw [unpack_toFloat hpos hlt, unpack_powerOfTen hk' hsize]
    exact congrArg _ (hx.div_eq hb)
  | false =>
    change Float.Model.pack (mul binary64 digits.toUInt64.toFloat.toModel.unpack
      Float.exactlyRepresentablePowersOfTen[k].toModel.unpack) = _
    rw [unpack_toFloat hpos hlt, unpack_powerOfTen hk' hsize]
    refine congrArg _ (hx.mul_eq hb ?_)
    -- the mantissa of a whole number is full, and so the product is long enough
    have hfull := hcanonical.isBinary.log2_eq_iff.mp hcanonical.log2
    exact hfull.trans (Nat.le_mul_of_pos_right _ hpower.pos)

/-- Any other decimal: one operation on its digits and the power of ten itself. -/
theorem RoundsTo.ofScientific_slow (hb : IsBinary n t) (hpos : digits ≠ 0) {e : Int}
    (hlower : -(2 ^ 11 + (digits.log2 : Int)) ≤ e) (hupper : e ≤ 2 ^ 11)
    (hx : RoundsTo n t (digits * 10 ^ e)) :
    Float.Model.ofScientific digits e = .pack (.finite .positive n t hb.pos) := by
  refine congrArg Float.Model.pack ?_
  rw [Float.Model.UnpackedFloat.ofScientific, dif_neg hpos, if_neg (by simpa using hupper),
    if_neg (by simpa using hlower)]
  by_cases he : 0 ≤ e
  · rw [if_pos he]
    obtain ⟨k, rfl⟩ := Int.eq_ofNat_of_zero_le he
    refine RoundsTo.mul_eq hb ?_ ?_
    · -- the digits are shifted up first, so that the product is long enough
      have hlong : 2 ^ 52 ≤ 2 ^ binary64.mantissaBits := by decide
      rw [Nat.shiftLeft_eq, Nat.mul_right_comm]
      exact hlong.trans (Nat.le_mul_of_pos_left _ (by positivity))
    · rw [zpow_natCast] at hx
      rw [Nat.shiftLeft_eq, Int.toNat_natCast, zpow_neg, zpow_natCast, zpow_zero, mul_one]
      push_cast
      rwa [mul_inv_cancel_right₀ (by positivity)]
  · rw [if_neg he]
    obtain ⟨k, hk⟩ := Int.eq_ofNat_of_zero_le (by omega : 0 ≤ -e)
    obtain rfl : e = -(k : Int) := by omega
    refine RoundsTo.div_eq hb ?_
    rw [zpow_neg, zpow_natCast, ← div_eq_mul_inv] at hx
    rw [Int.neg_neg, Int.toNat_natCast, zpow_zero, mul_one, mul_one]
    exact_mod_cast hx

theorem RoundsTo.ofScientific_eq (hb : IsBinary n t) (hpos : digits ≠ 0) {k : Nat} {s : Bool}
    (hk : k ≤ 2 ^ 11 + if s then digits.log2 else 0)
    (hx : RoundsTo n t (if s then digits / 10 ^ k else digits * 10 ^ k)) :
    (Float.ofScientific digits s k).toModel = .pack (.finite .positive n t hb.pos) := by
  by_cases hfast : digits < 2 ^ 53 ∧ k ≤ 22
  · exact hx.ofScientific_fast hb hpos hfast.1 hfast.2
  · rw [Float.ofScientific, dif_neg hfast]
    cases s with
    | true =>
      refine RoundsTo.ofScientific_slow hb hpos (e := -(k : Int)) ?_ (by omega) ?_
      · simp only [↓reduceIte] at hk
        omega
      · rwa [zpow_neg, zpow_natCast, ← div_eq_mul_inv]
    | false =>
      refine RoundsTo.ofScientific_slow hb hpos (e := (k : Int)) (by omega) ?_ ?_
      · simp only [Bool.false_eq_true, ↓reduceIte] at hk
        omega
      · rwa [zpow_natCast]

/-- The number of digits says between which powers of ten a number lies. -/
theorem length_digitChars_eq_iff (hpos : digits ≠ 0) {count : Nat} :
    (digitChars digits).length = count + 1 ↔ 10 ^ count ≤ digits ∧ digits < 10 ^ (count + 1) := by
  have hone : 0 < (digitChars digits).length := Nat.length_toDigits_pos
  have hsucc : (digitChars digits).length ≤ count + 1 ↔ digits < 10 ^ (count + 1) :=
    Nat.length_toDigits_le_iff (by decide) (by omega)
  have hle : (digitChars digits).length ≤ count ↔ digits < 10 ^ count := by
    cases count with
    | zero =>
      rw [pow_zero]
      omega
    | succ count => exact Nat.length_toDigits_le_iff (by decide) (by omega)
  omega

theorem exists_count (hpos : digits ≠ 0) (e : Int) :
    ∃ count : Nat, (digitChars digits).length = count + 1 ∧ 10 ^ count ≤ digits ∧
      (10 : ℚ) ^ (count + e) ≤ digits * 10 ^ e ∧
      (digits * 10 ^ e : ℚ) < 10 ^ ((count : Int) + 1 + e) := by
  obtain ⟨count, hcount⟩ : ∃ count, (digitChars digits).length = count + 1 :=
    Nat.exists_eq_add_one.mpr Nat.length_toDigits_pos
  obtain ⟨hlow, hhigh⟩ := (length_digitChars_eq_iff hpos).mp hcount
  have hlow' : (10 : ℚ) ^ (count : Int) ≤ digits := by exact_mod_cast hlow
  have hhigh' : (digits : ℚ) < 10 ^ ((count : Int) + 1) := by exact_mod_cast hhigh
  refine ⟨count, hcount, hlow, ?_, ?_⟩
  · rw [zpow_add₀ (by norm_num)]
    gcongr
  · rw [zpow_add₀ (by norm_num)]
    gcongr

/-- What a number owns is neither too small nor too large to be read. -/
theorem RoundsTo.two_zpow_bounds (hb : IsBinary n t) {x : ℚ} (hx : RoundsTo n t x) :
    (2 : ℚ) ^ (-1075 : Int) ≤ x ∧ x < 2 ^ (1024 : Int) := by
  have hpos : (0 : ℚ) < 2 ^ t := by positivity
  have hlower := (le_div_iff₀ hpos).mp hx.nearest.lower
  have hupper := (div_le_iff₀ hpos).mp hx.nearest.upper
  have hone : (1 : ℚ) ≤ n := by exact_mod_cast hb.pos
  have hlast : (n : ℚ) + 1 ≤ 2 ^ (53 : Int) := by exact_mod_cast hb.lt
  constructor
  · have hleast : (2 : ℚ) ^ (-1074 : Int) ≤ 2 ^ t := zpow_le_zpow_right₀ one_le_two hb.lower
    calc (2 : ℚ) ^ (-1075 : Int) = 1 / 2 * 2 ^ (-1074 : Int) := by
          rw [show (-1075 : Int) = -1 + -1074 by norm_num, zpow_add₀ two_ne_zero, zpow_neg_one,
            one_div]
      _ ≤ (n - 1 / 2) * 2 ^ t := mul_le_mul (by linarith) hleast (by positivity) (by linarith)
      _ ≤ x := hlower
  · have hgreatest : (2 : ℚ) ^ t ≤ 2 ^ (971 : Int) := zpow_le_zpow_right₀ one_le_two hb.upper
    calc x ≤ (n + 1 / 2) * 2 ^ t := hupper
      _ < 2 ^ (53 : Int) * 2 ^ (971 : Int) :=
        mul_lt_mul (by linarith) hgreatest (by positivity) (by positivity)
      _ = 2 ^ (1024 : Int) := by
        rw [← zpow_add₀ two_ne_zero]
        norm_num

/-- **A decimal is read as the number that owns its value.** -/
theorem RoundsTo.ofDecimal_eq (hb : IsBinary n t) (hpos : digits ≠ 0) {e : Int}
    (hx : RoundsTo n t (digits * 10 ^ e)) :
    ofDecimal digits e = .ofModel (.pack (.finite .positive n t hb.pos)) := by
  obtain ⟨hlow, hhigh⟩ := hx.two_zpow_bounds hb
  obtain ⟨count, hcount, hpow, hlow', hhigh'⟩ := exists_count hpos e
  -- values outside of this range are rounded to zero or to infinity before anything is computed
  have hsmall : -400 ≤ (count : Int) + 1 + e := by
    by_contra! hlt
    have hten : (10 : ℚ) ^ ((count : Int) + 1 + e) ≤ 2 ^ (-1075 : Int) :=
      ten_zpow_le_two_zpow (by omega) (by omega)
    linarith
  have hlarge : (count : Int) + 1 + e ≤ 400 := by
    by_contra! hlt
    have hten : (2 : ℚ) ^ (1024 : Int) ≤ 10 ^ ((count : Int) + e) :=
      two_zpow_le_ten_zpow (by omega) (by omega)
    linarith
  have hlog2 : count ≤ digits.log2 :=
    (Nat.le_log2 hpos).mpr ((Nat.pow_le_pow_left (by decide) count).trans hpow)
  simp only [ofDecimal, hcount, Nat.cast_succ, hpos, false_or]
  rw [if_neg (by omega), if_neg (by omega)]
  by_cases he : 0 ≤ e
  · obtain ⟨k, rfl⟩ := Int.eq_ofNat_of_zero_le he
    rw [zpow_natCast] at hx
    rw [if_pos he, Int.toNat_natCast]
    exact congrArg Float.ofModel (RoundsTo.ofScientific_eq (s := false) hb hpos (by omega) hx)
  · obtain ⟨k, hk⟩ := Int.eq_ofNat_of_zero_le (by omega : 0 ≤ -e)
    obtain rfl : e = -(k : Int) := by omega
    rw [zpow_neg, zpow_natCast, ← div_eq_mul_inv] at hx
    rw [if_neg he, Int.neg_neg, Int.toNat_natCast]
    have hroom : k ≤ 2 ^ 11 + digits.log2 := by omega
    exact congrArg Float.ofModel (RoundsTo.ofScientific_eq (s := true) hb hpos hroom hx)

end GemLang.Number
