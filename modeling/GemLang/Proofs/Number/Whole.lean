import GemLang.Number.Text
import GemLang.Proofs.Number.Binary

/-!
# Whole numbers are exact

A whole number below `2 ^ 53` is a float, and reading its decimal text gives just that float. So a
count that is written into code as a number is read back as the same count. An integer of at most
`2 ^ 53` in magnitude is a float too, and is the integer that the float is read as.

A float is given by its *canonical* mantissa here, one between `2 ^ 52` and `2 ^ 53`. Rounding
leaves such a mantissa alone, and a whole number has one.
-/

namespace GemLang.Number

open Float.Model (Format totalExponent)
open Float.Model.Format (binary64)
open Float.Model.UnpackedFloat

/-! ## Rounding -/

theorem repeat_shiftRightOne (mantissa shift : Nat) :
    shift.repeat ExtendedMantissa.shiftRightOne ⟨mantissa * 2 ^ shift, false, false⟩ =
      ⟨mantissa, false, false⟩ := by
  induction shift generalizing mantissa with
  | zero => simp [Nat.repeat]
  | succ shift ih =>
    have h := ih (mantissa * 2)
    rw [Nat.mul_assoc, ← Nat.pow_succ'] at h
    rw [Nat.repeat, h]
    simp [ExtendedMantissa.shiftRightOne]

theorem log2_mul_pow {mantissa : Nat} (h : mantissa ≠ 0) (shift : Nat) :
    (mantissa * 2 ^ shift).log2 = mantissa.log2 + shift := by
  induction shift with
  | zero => simp
  | succ shift ih =>
    have hne : mantissa * 2 ^ shift ≠ 0 := Nat.mul_ne_zero h (Nat.ne_of_gt (Nat.two_pow_pos shift))
    rw [Nat.pow_succ', Nat.mul_left_comm, Nat.log2_two_mul hne, ih, Nat.add_assoc]

/-- A mantissa of a float that is not small. -/
structure IsCanonical (mantissa : Nat) (exponent : Int) : Prop where
  log2 : mantissa.log2 = 52
  lower : -1074 ≤ exponent
  upper : exponent ≤ 971

variable {mantissa : Nat} {exponent : Int}

theorem IsCanonical.pos (h : IsCanonical mantissa exponent) : 0 < mantissa := by
  refine Nat.pos_of_ne_zero ?_
  rintro rfl
  have := h.log2
  simp at this

theorem IsCanonical.isBinary (h : IsCanonical mantissa exponent) : IsBinary mantissa exponent := by
  obtain ⟨hlower, hupper⟩ := (Nat.log2_eq_iff (Nat.ne_of_gt h.pos)).mp h.log2
  exact ⟨h.pos, hupper, h.lower, h.upper, .inl hlower⟩

theorem IsCanonical.targetExponent_eq (h : IsCanonical mantissa exponent) (shift : Nat) :
    binary64.targetExponent (totalExponent (mantissa * 2 ^ shift) (exponent - shift)) =
      exponent := by
  have hlower := h.lower
  have hlog2 := log2_mul_pow (Nat.ne_of_gt h.pos) shift
  rw [h.log2] at hlog2
  simp only [Format.targetExponent, totalExponent, hlog2, Format.minExponent, Format.mantissaBits]
  omega

/-- Shifting zeros off the end of a mantissa that is too long makes it canonical. -/
theorem IsCanonical.shift_eq (h : IsCanonical mantissa exponent) (shift : Nat) :
    shiftToTargetExponent binary64 (mantissa * 2 ^ shift) (exponent - shift) .exact =
      (⟨mantissa, false, false⟩, exponent) := by
  have hamount : (exponent - (exponent - shift)).toNat = shift := by omega
  simp only [shiftToTargetExponent, shiftToExponent, h.targetExponent_eq, hamount,
    Int.sub_add_cancel, Prod.mk.injEq, and_true]
  exact repeat_shiftRightOne mantissa shift

/-- Rounding takes zeros off the end of a mantissa that is too long, and changes nothing else. -/
theorem IsCanonical.roundWithAccuracy_eq (h : IsCanonical mantissa exponent) (sign : Sign)
    (shift : Nat) :
    roundWithAccuracy binary64 sign (mantissa * 2 ^ shift) (exponent - shift) .exact =
      .finite sign mantissa exponent h.pos := by
  have hagain := h.shift_eq 0
  simp only [Nat.pow_zero, Nat.mul_one, Int.natCast_zero, Int.sub_zero] at hagain
  simp only [roundWithAccuracy, h.shift_eq, ExtendedMantissa.roundedMantissa,
    ExtendedMantissa.accuracy, Accuracy.roundToNearestEven, hagain, Nat.ne_of_gt h.pos, ↓reduceDIte]

/-! ## Whole numbers -/

/-- The mantissa that a whole number has as a float. -/
def wholeMantissa (n : Nat) : Nat := n * 2 ^ (52 - n.log2)

/-- The exponent that a whole number has as a float. -/
def wholeExponent (n : Nat) : Int := (n.log2 : Int) - 52

variable {n : Nat}

theorem isCanonical_whole (hpos : n ≠ 0) (hlt : n < 2 ^ 53) :
    IsCanonical (wholeMantissa n) (wholeExponent n) := by
  have hlog2 : n.log2 < 53 := (Nat.log2_lt hpos).mpr hlt
  refine ⟨?_, ?_, ?_⟩
  · rw [wholeMantissa, log2_mul_pow hpos]
    omega
  · rw [wholeExponent]
    omega
  · rw [wholeExponent]
    omega

theorem ofNat_eq (hpos : n ≠ 0) (hlt : n < 2 ^ 53) :
    ofNat binary64 n =
      .finite .positive (wholeMantissa n) (wholeExponent n) (isCanonical_whole hpos hlt).pos := by
  have hcanonical := isCanonical_whole hpos hlt
  have hlog2 : n.log2 < 53 := (Nat.log2_lt hpos).mpr hlt
  have htarget : binary64.targetExponent (totalExponent n 0) = wholeExponent n := by
    simp only [Format.targetExponent, totalExponent, Format.minExponent, Format.mantissaBits,
      wholeExponent]
    omega
  have hround := hcanonical.roundWithAccuracy_eq .positive 0
  simp only [Nat.pow_zero, Nat.mul_one, Int.natCast_zero, Int.sub_zero] at hround
  have hamount : (0 - wholeExponent n).toNat = 52 - n.log2 := by
    rw [wholeExponent]
    omega
  have hexponent : (0 : Int) - (52 - n.log2 : Nat) = wholeExponent n := by
    rw [wholeExponent]
    omega
  have hcompare : compare (n : Int) 0 = .gt := by
    rw [Int.compare_eq_gt]
    omega
  simp only [ofNat, ofInt, Float.Model.UnpackedFloat.normalize, hcompare, Int.toNat_natCast,
    Float.Model.UnpackedFloat.round, htarget, decreaseExponent, hamount, hexponent,
    Nat.shiftLeft_eq]
  exact hround

/-! ## Reading -/

theorem unpack_toFloat (hpos : n ≠ 0) (hlt : n < 2 ^ 53) :
    n.toUInt64.toFloat.toModel.unpack =
      .finite .positive (wholeMantissa n) (wholeExponent n) (isCanonical_whole hpos hlt).pos := by
  have hcanonical := isCanonical_whole hpos hlt
  have hsmall : n.toUInt64.toNat = n := by
    change n % 2 ^ 64 = n
    omega
  change unpack binary64 (pack binary64 (ofNat binary64 n.toUInt64.toNat)) = _
  rw [hsmall, ofNat_eq hpos hlt]
  exact hcanonical.isBinary.unpack_pack .positive

theorem unpack_one :
    (Float.ofBits 0x3ff0000000000000).toModel.unpack =
      .finite .positive (2 ^ 52) (-52) (Nat.two_pow_pos 52) := by rfl

/-- A whole number that is written in digits is read as the float that it is. -/
theorem toModel_ofScientific (hpos : n ≠ 0) (hlt : n < 2 ^ 53) :
    (Float.ofScientific n false 0).toModel =
      .pack (.finite .positive (wholeMantissa n) (wholeExponent n)
        (isCanonical_whole hpos hlt).pos) := by
  have hcanonical := isCanonical_whole hpos hlt
  have hfast : n < 2 ^ 53 ∧ 0 ≤ 22 := ⟨hlt, by omega⟩
  rw [Float.ofScientific, dif_pos hfast]
  change Float.Model.pack (mul binary64 n.toUInt64.toFloat.toModel.unpack
    (Float.ofBits 0x3ff0000000000000).toModel.unpack) = _
  rw [unpack_toFloat hpos hlt, unpack_one]
  exact congrArg _ (hcanonical.roundWithAccuracy_eq .positive 52)

theorem parts_ofDecimal (hpos : n ≠ 0) (hlt : n < 2 ^ 53) :
    parts (ofDecimal n 0) = .finite false (wholeMantissa n) (wholeExponent n) := by
  have hlength : (digitChars n).length ≤ 16 :=
    (Nat.length_toDigits_le_iff (by decide) (by decide)).mpr (by omega)
  have hread : ofDecimal n 0 = Float.ofScientific n false 0 := by
    have hsmall : ¬(n = 0 ∨ ((digitChars n).length : Int) + 0 < -400) := by omega
    have hlarge : ¬(400 < ((digitChars n).length : Int) + 0) := by omega
    simp only [ofDecimal, hsmall, hlarge, ↓reduceIte, Int.le_refl, Int.toNat_zero]
  rw [hread]
  have hbinary := (isCanonical_whole hpos hlt).isBinary
  exact hbinary.parts_eq (toModel_ofScientific hpos hlt)

theorem truncatedMagnitude_whole (hpos : n ≠ 0) (hlt : n < 2 ^ 53) :
    truncatedMagnitude (wholeMantissa n) (wholeExponent n) = n := by
  have hlog2 : n.log2 < 53 := (Nat.log2_lt hpos).mpr hlt
  unfold truncatedMagnitude wholeMantissa wholeExponent
  simp only [Nat.pow_eq]
  split
  · next hexponent =>
    obtain hlog2' : n.log2 = 52 := by omega
    simp [hlog2']
  · next hexponent =>
    have hshift : (-((n.log2 : Int) - 52)).toNat = 52 - n.log2 := by omega
    rw [hshift]
    exact Nat.mul_div_cancel n (Nat.two_pow_pos _)

/-- **A count survives being written as a number**, as long as it is below `2 ^ 53`. -/
theorem clampToInt_ofDecimal (hlt : n < 2 ^ 53) :
    clampToInt 0 (UInt64.size - 1 : Nat) (ofDecimal n 0) = n := by
  by_cases hpos : n = 0
  · subst hpos
    decide +kernel
  · have hsize : UInt64.size = 2 ^ 64 := rfl
    simp only [clampToInt, parts_ofDecimal hpos hlt, truncatedMagnitude_whole hpos hlt,
      Bool.false_eq_true, ↓reduceIte]
    omega

/-! ## Integers -/

/-- A number with the parts of a whole number is that whole number, with its sign. -/
theorem toInt?_of_parts {x : Float} {negative : Bool} (hpos : n ≠ 0) (hlt : n < 2 ^ 53)
    (hx : parts x = .finite negative (wholeMantissa n) (wholeExponent n)) :
    toInt? x = some (if negative then -(n : Int) else n) := by
  have hexact : 0 ≤ wholeExponent n ∨
      wholeMantissa n % Nat.pow 2 (-wholeExponent n).toNat = 0 := by
    have hshift : (-wholeExponent n).toNat = 52 - n.log2 := by
      rw [wholeExponent]
      omega
    rw [hshift]
    exact .inr (Nat.mul_mod_left n _)
  rw [toInt?, hx]
  simp only [hexact, ↓reduceIte, truncatedMagnitude_whole hpos hlt]

theorem toInt?_ofNat (hlt : n < 2 ^ 53) : toInt? (Float.ofNat n) = some (n : Int) := by
  by_cases hpos : n = 0
  · subst hpos
    decide +kernel
  · have hparts : parts (Float.ofNat n) = .finite false (wholeMantissa n) (wholeExponent n) :=
      (isCanonical_whole hpos hlt).isBinary.parts_eq (toModel_ofScientific hpos hlt)
    exact toInt?_of_parts hpos hlt hparts

theorem toInt?_neg_ofNat (hpos : n ≠ 0) (hlt : n < 2 ^ 53) :
    toInt? (-Float.ofNat n) = some (-(n : Int)) := by
  have hbinary := (isCanonical_whole hpos hlt).isBinary
  have hmodel : Float.ofNat n = .ofModel (.pack (.finite .positive (wholeMantissa n)
      (wholeExponent n) hbinary.pos)) :=
    congrArg Float.ofModel (toModel_ofScientific hpos hlt)
  have hparts : parts (-Float.ofNat n) = .finite true (wholeMantissa n) (wholeExponent n) := by
    rw [hmodel, hbinary.neg_eq]
    exact hbinary.parts_eq rfl
  exact toInt?_of_parts hpos hlt hparts

/-- **An integer of at most `2 ^ 53` in magnitude is exact as a number.** -/
theorem toInt?_ofInt {i : Int} (h : i.natAbs ≤ 2 ^ 53) : toInt? (Float.ofInt i) = some i := by
  rcases Nat.lt_or_eq_of_le h with hlt | heq
  · cases i with
    | ofNat n => exact toInt?_ofNat hlt
    | negSucc n => exact toInt?_neg_ofNat (Nat.succ_ne_zero n) hlt
  · -- the bound itself has no canonical mantissa
    rcases Int.natAbs_eq_iff.mp heq with rfl | rfl
    · decide +kernel
    · decide +kernel

end GemLang.Number
