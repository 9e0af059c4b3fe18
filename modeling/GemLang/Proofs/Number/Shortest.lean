import GemLang.Number.Shortest
import GemLang.Proofs.Number.Reading

/-!
# The shortest decimal is read back

The shortest decimal of a number lies among the values that the number owns, so reading it gives the
number again (`IsBinary.shortest_spec`). Three things come together.

* The interval that is searched has its ends where the values begin and end that the number owns
  (`roundsTo_of_holds`).
* The point before the first digit is found exactly: the estimate by the number of bits is never too
  large, and eight steps up are enough for every number (`magnitude_bounds`). Therefore a decimal
  that is found on the grid of `count` digits has just so many digits.
* The grid of 17 digits is finer than the interval is wide, so a decimal is always found
  (`Interval.onGrid?_ne_none`).
-/

namespace GemLang.Number

theorem fraction_eq_zpow (base : Nat) (e : Int) :
    ((if 0 ≤ e then Nat.pow base e.toNat else 1 : Nat) : ℚ) /
      (if 0 ≤ e then 1 else Nat.pow base (-e).toNat : Nat) = (base : ℚ) ^ e := by
  split
  · next he =>
    obtain ⟨k, rfl⟩ := Int.eq_ofNat_of_zero_le he
    rw [Int.toNat_natCast, Nat.pow_eq, zpow_natCast, Nat.cast_one, div_one, Nat.cast_pow]
  · next he =>
    obtain ⟨k, hk⟩ := Int.eq_ofNat_of_zero_le (by omega : 0 ≤ -e)
    obtain rfl : e = -(k : Int) := by omega
    rw [hk, Int.toNat_natCast, Nat.pow_eq, zpow_neg, zpow_natCast, Nat.cast_one, one_div,
      Nat.cast_pow]

/-! ## The interval -/

namespace Interval

def low (i : Interval) : ℚ := ((i.value - i.below : Nat) : ℚ) / i.scale

def high (i : Interval) : ℚ := ((i.value + i.above : Nat) : ℚ) / i.scale

def center (i : Interval) : ℚ := (i.value : ℚ) / i.scale

theorem holds_iff {i : Interval} (hscale : 0 < i.scale) {numerator denominator : Nat}
    (hdenominator : 0 < denominator) :
    i.holds numerator denominator = true ↔
      if i.closed then i.low ≤ (numerator / denominator : ℚ) ∧
        (numerator / denominator : ℚ) ≤ i.high
      else i.low < (numerator / denominator : ℚ) ∧ (numerator / denominator : ℚ) < i.high := by
  have hs : (0 : ℚ) < i.scale := by exact_mod_cast hscale
  have hd : (0 : ℚ) < denominator := by exact_mod_cast hdenominator
  unfold holds low high
  rw [div_le_div_iff₀ hs hd, div_le_div_iff₀ hd hs, div_lt_div_iff₀ hs hd, div_lt_div_iff₀ hd hs]
  norm_cast
  split <;> simp

end Interval

variable {mantissa : Nat} {exponent : Int}

/-- The distance to the lower end of the interval, in quarters of the last place. -/
def quartersBelow (mantissa : Nat) : Nat := if mantissa = 2 ^ 52 then 1 else 2

/-- The interval of a number, with its last place written as a fraction. -/
theorem ofBinary_eq (mantissa : Nat) (exponent : Int) :
    ∃ up down : Nat, 0 < down ∧ (up / down : ℚ) = 2 ^ exponent ∧
      Interval.ofBinary mantissa exponent =
        ⟨4 * mantissa * up, quartersBelow mantissa * up, 2 * up, 4 * down, mantissa % 2 = 0⟩ := by
  refine ⟨_, _, ?_, fraction_eq_zpow 2 exponent, ?_⟩
  · split
    · exact one_pos
    · exact Nat.pow_pos two_pos
  · unfold Interval.ofBinary quartersBelow
    by_cases hexponent : 0 ≤ exponent <;> simp [hexponent]

theorem scale_ofBinary_pos (mantissa : Nat) (exponent : Int) :
    0 < (Interval.ofBinary mantissa exponent).scale := by
  obtain ⟨up, down, hdown, -, heq⟩ := ofBinary_eq mantissa exponent
  rw [heq]
  exact Nat.mul_pos (by decide) hdown

theorem center_ofBinary (mantissa : Nat) (exponent : Int) :
    (Interval.ofBinary mantissa exponent).center = mantissa * 2 ^ exponent := by
  obtain ⟨up, down, hdown, hunit, heq⟩ := ofBinary_eq mantissa exponent
  rw [heq, ← hunit, Interval.center]
  push_cast
  field_simp

theorem high_ofBinary (mantissa : Nat) (exponent : Int) :
    (Interval.ofBinary mantissa exponent).high = (mantissa + 1 / 2) * 2 ^ exponent := by
  obtain ⟨up, down, hdown, hunit, heq⟩ := ofBinary_eq mantissa exponent
  rw [heq, ← hunit, Interval.high]
  push_cast
  field_simp
  ring

theorem low_ofBinary (hpos : 0 < mantissa) (exponent : Int) :
    (Interval.ofBinary mantissa exponent).low =
      (mantissa - quartersBelow mantissa / 4) * 2 ^ exponent := by
  obtain ⟨up, down, hdown, hunit, heq⟩ := ofBinary_eq mantissa exponent
  have hbelow : quartersBelow mantissa ≤ 4 * mantissa := by
    unfold quartersBelow
    split <;> omega
  rw [heq, ← hunit, Interval.low]
  simp only [← Nat.sub_mul]
  rw [Nat.cast_mul, Nat.cast_sub hbelow]
  push_cast
  field_simp

theorem closed_ofBinary (mantissa : Nat) (exponent : Int) :
    (Interval.ofBinary mantissa exponent).closed = decide (mantissa % 2 = 0) := by
  obtain ⟨up, down, -, -, heq⟩ := ofBinary_eq mantissa exponent
  rw [heq]

/-- **The interval of a number holds what the number owns.** -/
theorem roundsTo_of_holds (hpos : 0 < mantissa) {numerator denominator : Nat}
    (hdenominator : 0 < denominator)
    (h : (Interval.ofBinary mantissa exponent).holds numerator denominator = true) :
    RoundsTo mantissa exponent (numerator / denominator) := by
  have hunit : (0 : ℚ) < 2 ^ exponent := by positivity
  have hquarters : (quartersBelow mantissa : ℚ) / 4 ≤ 1 / 2 := by
    unfold quartersBelow
    split <;> norm_num
  rw [Interval.holds_iff (scale_ofBinary_pos mantissa exponent) hdenominator,
    low_ofBinary hpos, high_ofBinary, closed_ofBinary, ← le_div_iff₀ hunit, ← div_le_iff₀ hunit,
    ← lt_div_iff₀ hunit, ← div_lt_iff₀ hunit] at h
  have hle : (mantissa : ℚ) - quartersBelow mantissa / 4 ≤ numerator / denominator / 2 ^ exponent ∧
      (numerator / denominator / 2 ^ exponent : ℚ) ≤ mantissa + 1 / 2 := by
    split at h
    · exact h
    · exact ⟨h.1.le, h.2.le⟩
  refine ⟨⟨by linarith, hle.2, fun hodd ↦ ?_⟩, fun hnarrow ↦ ?_⟩
  · rw [if_neg (by simp [hodd])] at h
    exact ⟨by linarith, h.2⟩
  · have hquarter : quartersBelow mantissa = 1 := if_pos hnarrow
    rw [hquarter] at hle
    exact_mod_cast hle.1

theorem holds_of_between {i : Interval} (hscale : 0 < i.scale) {numerator denominator : Nat}
    (hdenominator : 0 < denominator) (hlow : i.low < (numerator / denominator : ℚ))
    (hhigh : (numerator / denominator : ℚ) < i.high) : i.holds numerator denominator = true := by
  rw [Interval.holds_iff hscale hdenominator]
  split
  · exact ⟨hlow.le, hhigh.le⟩
  · exact ⟨hlow, hhigh⟩

/-! ## The grid -/

/-- The neighbours of a value on a grid with the unit `up / down`. -/
theorem neighbours (value : Nat) {scale up down : Nat} (hscale : 0 < scale) (hup : 0 < up)
    (hdown : 0 < down) :
    ((value * down / (scale * up) : Nat) * (up / down) : ℚ) ≤ value / scale ∧
      (value / scale : ℚ) < ((value * down / (scale * up) : Nat) + 1) * (up / down) := by
  have hs : (0 : ℚ) < scale := by exact_mod_cast hscale
  have hd : (0 : ℚ) < down := by exact_mod_cast hdown
  have hle : value * down / (scale * up) * (scale * up) ≤ value * down := Nat.div_mul_le_self _ _
  have hlt : value * down < (value * down / (scale * up) + 1) * (scale * up) := by
    rw [Nat.mul_comm _ (scale * up)]
    exact Nat.lt_mul_div_succ _ (Nat.mul_pos hscale hup)
  generalize value * down / (scale * up) = lower at hle hlt ⊢
  constructor
  · rw [← mul_div_assoc, div_le_div_iff₀ hd hs]
    exact_mod_cast (by linarith : lower * up * scale ≤ value * down)
  · rw [← mul_div_assoc, div_lt_div_iff₀ hs hd]
    exact_mod_cast (by linarith : value * down < (lower + 1) * up * scale)

/-- What is found on a grid, and what it means that nothing is found. -/
theorem Interval.onGrid?_spec {i : Interval} (hscale : 0 < i.scale) (point : Int) (count : Nat) :
    ∃ up down lower : Nat, 0 < down ∧ (up / down : ℚ) = 10 ^ (point - count) ∧
      (lower * (up / down) : ℚ) ≤ i.center ∧ i.center < (lower + 1) * (up / down) ∧
      (∀ digits, i.onGrid? point count = some digits →
        i.holds (digits * up) down = true ∧ (digits = lower ∨ digits = lower + 1)) ∧
      (i.onGrid? point count = none →
        i.holds (lower * up) down = false ∧ i.holds ((lower + 1) * up) down = false) := by
  have hunit := fraction_eq_zpow 10 (point - count)
  have hup : 0 < (if 0 ≤ point - count then Nat.pow 10 (point - count).toNat else 1) := by
    split <;> simp
  have hdown : 0 < (if 0 ≤ point - count then 1 else Nat.pow 10 (-(point - count)).toNat) := by
    split <;> simp
  simp only [Interval.onGrid?]
  generalize (if 0 ≤ point - count then Nat.pow 10 (point - count).toNat else 1) = up at *
  generalize (if 0 ≤ point - count then 1 else Nat.pow 10 (-(point - count)).toNat) = down at *
  obtain ⟨hlow, hhigh⟩ := neighbours i.value hscale hup hdown
  refine ⟨up, down, _, hdown, by exact_mod_cast hunit, hlow, hhigh, fun digits ↦ ?_, ?_⟩
  · split
    · next h =>
      rintro ⟨⟩
      rw [Bool.and_eq_true] at h
      exact ⟨h.1, .inr rfl⟩
    · split
      · next h =>
        rintro ⟨⟩
        exact ⟨h, .inl rfl⟩
      · simp
  · split
    · simp
    · split
      · simp
      · next h h' =>
        rw [Bool.not_eq_true] at h'
        rw [h'] at h ⊢
        simpa using h

/-- A grid that is finer than the interval is wide has a point in it. -/
theorem Interval.onGrid?_ne_none {i : Interval} (hscale : 0 < i.scale) {point : Int} {count : Nat}
    (hlow : i.low < i.center) (hhigh : i.center < i.high)
    (hfine : (10 : ℚ) ^ (point - count) < i.high - i.low) : i.onGrid? point count ≠ none := by
  intro hnone
  obtain ⟨up, down, lower, hdown, hunit, hle, hlt, -, hmiss⟩ := i.onGrid?_spec hscale point count
  obtain ⟨hlower, hupper⟩ := hmiss hnone
  have hd : (down : ℚ) ≠ 0 := by positivity
  -- then the interval lies between two points of the grid, one unit apart
  have hbelow : (lower * (up / down) : ℚ) ≤ i.low := by
    by_contra! hinside
    have hholds : i.holds (lower * up) down = true := by
      refine holds_of_between hscale hdown ?_ ?_ <;> push_cast <;> rw [mul_div_assoc] <;> linarith
    simp [hholds] at hlower
  have habove : i.high ≤ (lower + 1) * (up / down) := by
    by_contra! hinside
    have hholds : i.holds ((lower + 1) * up) down = true := by
      refine holds_of_between hscale hdown ?_ ?_ <;> push_cast <;> rw [mul_div_assoc] <;> linarith
    simp [hholds] at hupper
  linarith

/-! ## The first digit -/

theorem reached_iff {value scale : Nat} (hscale : 0 < scale) (start : Int) :
    (if 0 ≤ start then value < scale * Nat.pow 10 start.toNat
      else value * Nat.pow 10 (-start).toNat < scale) ↔ (value / scale : ℚ) < 10 ^ start := by
  have hs : (0 : ℚ) < scale := by exact_mod_cast hscale
  rw [div_lt_iff₀ hs]
  split
  · next hstart =>
    obtain ⟨k, rfl⟩ := Int.eq_ofNat_of_zero_le hstart
    rw [Int.toNat_natCast, Nat.pow_eq, zpow_natCast, mul_comm scale]
    exact_mod_cast Iff.rfl
  · next hstart =>
    obtain ⟨k, hk⟩ := Int.eq_ofNat_of_zero_le (by omega : 0 ≤ -start)
    obtain rfl : start = -(k : Int) := by omega
    rw [hk, Int.toNat_natCast, Nat.pow_eq, zpow_neg, zpow_natCast, inv_mul_eq_div,
      lt_div_iff₀ (by positivity)]
    exact_mod_cast Iff.rfl

/-- Counting up from an exponent that is not too large, with enough steps. -/
theorem magnitudeUp_bounds {value scale : Nat} (hscale : 0 < scale) (fuel : Nat) (start : Int)
    (hlow : (10 : ℚ) ^ (start - 1) ≤ value / scale)
    (hhigh : (value / scale : ℚ) < 10 ^ (start + fuel)) :
    (10 : ℚ) ^ (magnitudeUp value scale start fuel - 1) ≤ value / scale ∧
      (value / scale : ℚ) < 10 ^ magnitudeUp value scale start fuel := by
  induction fuel generalizing start with
  | zero =>
    rw [Nat.cast_zero, add_zero] at hhigh
    exact ⟨hlow, hhigh⟩
  | succ fuel ih =>
    rw [magnitudeUp]
    simp only [reached_iff hscale]
    by_cases hlt : (value / scale : ℚ) < 10 ^ start
    · rw [if_pos hlt]
      exact ⟨hlow, hlt⟩
    · rw [if_neg hlt]
      refine ih (start + 1) ?_ ?_
      · rw [add_sub_cancel_right]
        exact not_lt.mp hlt
      · rw [Nat.cast_succ, ← add_assoc, add_right_comm] at hhigh
        exact hhigh

/-- **The exponent of the first digit is found**, for all values in the range of numbers. -/
theorem magnitude_bounds {value scale : Nat} (hvalue : 0 < value) (hscale : 0 < scale)
    (hlow : (2 : ℚ) ^ (-1074 : Int) ≤ value / scale)
    (hhigh : (value / scale : ℚ) < 2 ^ (1024 : Int)) :
    (10 : ℚ) ^ (magnitude value scale - 1) ≤ value / scale ∧
      (value / scale : ℚ) < 10 ^ magnitude value scale := by
  have hquotient {a b : Nat} (ha : 0 < a) (hb : 0 < b) :
      (2 : ℚ) ^ ((a.log2 : Int) - b.log2 - 1) < a / b := by
    simpa [Float.Model.totalExponent, add_sub_add_right_eq_sub] using two_zpow_lt_quotient ha hb 0 0
  have hlow' := hquotient hvalue hscale
  have hhigh' := inv_strictAnti₀ (by positivity) (hquotient hscale hvalue)
  rw [inv_div, ← zpow_neg, show -((scale.log2 : Int) - value.log2 - 1) =
    value.log2 - scale.log2 + 1 by ring] at hhigh'
  have hbits := two_zpow_lt_iff.mp (hlow'.trans hhigh)
  have hbits' := two_zpow_lt_iff.mp (hlow.trans_lt hhigh')
  -- the estimate from the number of bits is not too large, and too small by at most eight
  unfold magnitude
  generalize (value.log2 : Int) - scale.log2 = bits at *
  refine magnitudeUp_bounds hscale 8 _ ?_ ?_
  · refine le_trans (ten_zpow_le_two_zpow ?_ ?_) hlow'.le <;> omega
  · refine lt_of_lt_of_le hhigh' (two_zpow_le_ten_zpow ?_ ?_) <;> omega

/-! ## The search -/

/-- The search ends at a grid with a hit, if there is one within reach. -/
theorem Interval.search_eq {i : Interval} {point : Int} (fuel count : Nat)
    (hlast : i.onGrid? point (count + fuel) ≠ none) :
    ∃ c digits, count ≤ c ∧ i.onGrid? point c = some digits ∧
      i.search point count (fuel + 1) =
        if digits = 10 ^ c then ⟨1, 1, point + 1⟩ else ⟨digits, c, point⟩ := by
  induction fuel generalizing count with
  | zero =>
    rw [Nat.add_zero] at hlast
    obtain ⟨digits, hdigits⟩ := Option.ne_none_iff_exists'.mp hlast
    exact ⟨count, digits, le_rfl, hdigits, by rw [Interval.search, hdigits]; rfl⟩
  | succ fuel ih =>
    rw [Interval.search]
    split
    · next digits hdigits => exact ⟨count, digits, le_rfl, hdigits, rfl⟩
    · obtain ⟨c, digits, hc, hdigits, heq⟩ := ih (count + 1) (by rwa [Nat.add_right_comm])
      exact ⟨c, digits, by omega, hdigits, heq⟩

/-- Where the point of the decimals of a number stands. -/
def pointOf (mantissa : Nat) (exponent : Int) : Int :=
  magnitude (Interval.ofBinary mantissa exponent).value (Interval.ofBinary mantissa exponent).scale

theorem shortest_eq (mantissa : Nat) (exponent : Int) : shortest mantissa exponent =
    (Interval.ofBinary mantissa exponent).search (pointOf mantissa exponent) 1 17 := rfl

variable (hb : IsBinary mantissa exponent)
include hb

/-- The interval of a number has the number inside, and is wider than one digit of seventeen. -/
theorem IsBinary.wide :
    (Interval.ofBinary mantissa exponent).low < (Interval.ofBinary mantissa exponent).center ∧
      (Interval.ofBinary mantissa exponent).center < (Interval.ofBinary mantissa exponent).high ∧
      (mantissa * 2 ^ exponent / 10 ^ 16 : ℚ) <
        (Interval.ofBinary mantissa exponent).high - (Interval.ofBinary mantissa exponent).low := by
  have hunit : (0 : ℚ) < 2 ^ exponent := by positivity
  rw [low_ofBinary hb.pos, high_ofBinary, center_ofBinary]
  have hquarters : (0 : ℚ) < quartersBelow mantissa ∧
      (mantissa / 10 ^ 16 : ℚ) < 1 / 2 + quartersBelow mantissa / 4 := by
    have hlt : (mantissa : ℚ) < 2 ^ 53 := by exact_mod_cast hb.lt
    by_cases hnarrow : mantissa = 2 ^ 52
    · rw [quartersBelow, if_pos hnarrow, hnarrow]
      norm_num
    · rw [quartersBelow, if_neg hnarrow, div_lt_iff₀ (by positivity)]
      norm_num at hlt ⊢
      linarith
  obtain ⟨hpos, hfine⟩ := hquarters
  refine ⟨by gcongr; linarith, by gcongr; linarith, ?_⟩
  calc (mantissa * 2 ^ exponent / 10 ^ 16 : ℚ) = mantissa / 10 ^ 16 * 2 ^ exponent := by ring
    _ < (1 / 2 + quartersBelow mantissa / 4) * 2 ^ exponent := by gcongr
    _ = _ := by ring

theorem IsBinary.pointOf_bounds :
    (10 : ℚ) ^ (pointOf mantissa exponent - 1) ≤ mantissa * 2 ^ exponent ∧
      (mantissa * 2 ^ exponent : ℚ) < 10 ^ pointOf mantissa exponent := by
  have hcenter := center_ofBinary mantissa exponent
  have hscale := scale_ofBinary_pos mantissa exponent
  have hunit : (0 : ℚ) < 2 ^ exponent := by positivity
  have hone : (1 : ℚ) ≤ mantissa := by exact_mod_cast hb.pos
  have hlt : (mantissa : ℚ) < 2 ^ (53 : Int) := by exact_mod_cast hb.lt
  have hleast : (2 : ℚ) ^ (-1074 : Int) ≤ 2 ^ exponent := zpow_le_zpow_right₀ one_le_two hb.lower
  have hgreatest : (2 : ℚ) ^ exponent ≤ 2 ^ (971 : Int) := zpow_le_zpow_right₀ one_le_two hb.upper
  rw [← hcenter, Interval.center]
  refine magnitude_bounds ?_ hscale ?_ ?_
  · obtain ⟨up, down, hdown, hup, heq⟩ := ofBinary_eq mantissa exponent
    have hpos : 0 < up := by
      refine Nat.pos_of_ne_zero fun hzero ↦ ?_
      simp [hzero, hunit.ne] at hup
    rw [heq]
    exact Nat.mul_pos (Nat.mul_pos (by decide) hb.pos) hpos
  · rw [← Interval.center, hcenter]
    exact hleast.trans (le_mul_of_one_le_left hunit.le hone)
  · rw [← Interval.center, hcenter]
    calc (mantissa * 2 ^ exponent : ℚ) < 2 ^ (53 : Int) * 2 ^ (971 : Int) :=
          mul_lt_mul hlt hgreatest hunit (by positivity)
      _ = 2 ^ (1024 : Int) := by
        rw [← zpow_add₀ two_ne_zero]
        norm_num

/-- A hit is a value that the number owns, and has as many digits as the grid, unless rounding up
has carried into one more. -/
theorem IsBinary.onGrid?_spec {count digits : Nat}
    (h : (Interval.ofBinary mantissa exponent).onGrid? (pointOf mantissa exponent) (count + 1) =
      some digits) :
    10 ^ count ≤ digits ∧ digits ≤ 10 ^ (count + 1) ∧
      RoundsTo mantissa exponent
        (digits * 10 ^ (pointOf mantissa exponent - (count + 1 : Nat))) := by
  have hscale := scale_ofBinary_pos mantissa exponent
  obtain ⟨hfirst, hnext⟩ := hb.pointOf_bounds
  generalize pointOf mantissa exponent = point at *
  obtain ⟨up, down, lower, hdown, hunit, hle, hlt, hhit, -⟩ :=
    Interval.onGrid?_spec hscale point (count + 1)
  obtain ⟨hholds, hdigits⟩ := hhit digits h
  have hroundsTo := roundsTo_of_holds hb.pos hdown hholds
  rw [center_ofBinary, hunit] at hle hlt
  have hpos : (0 : ℚ) < 10 ^ (point - (count + 1 : Nat)) := by positivity
  have hsplit (k : Nat) : (10 : ℚ) ^ ((k : Int) + (point - (count + 1 : Nat))) =
      10 ^ k * 10 ^ (point - (count + 1 : Nat)) := by
    rw [zpow_add₀ (by norm_num), zpow_natCast]
  have hlower : (10 : ℚ) ^ count < (lower + 1 : Nat) := by
    rw [show point - 1 = (count : Int) + (point - (count + 1 : Nat)) by push_cast; ring, hsplit]
      at hfirst
    push_cast
    exact lt_of_mul_lt_mul_right (hfirst.trans_lt hlt) hpos.le
  have hupper : (lower : ℚ) < 10 ^ (count + 1) := by
    rw [show point = ((count + 1 : Nat) : Int) + (point - (count + 1 : Nat)) by ring, hsplit]
      at hnext
    exact lt_of_mul_lt_mul_right (hle.trans_lt hnext) hpos.le
  norm_cast at hlower hupper
  refine ⟨by omega, by omega, ?_⟩
  rwa [Nat.cast_mul, mul_div_assoc, hunit] at hroundsTo

/-- Seventeen digits are enough. -/
theorem IsBinary.onGrid?_ne_none :
    (Interval.ofBinary mantissa exponent).onGrid? (pointOf mantissa exponent) (1 + 16) ≠ none := by
  obtain ⟨hlow, hhigh, hwide⟩ := hb.wide
  have hfine : (10 : ℚ) ^ (pointOf mantissa exponent - (1 + 16 : Nat)) ≤
      mantissa * 2 ^ exponent / 10 ^ 16 := by
    rw [show pointOf mantissa exponent - (1 + 16 : Nat) =
      pointOf mantissa exponent - 1 - (16 : Nat) by push_cast; ring, zpow_sub₀ (by norm_num),
      zpow_natCast]
    exact div_le_div_of_nonneg_right hb.pointOf_bounds.1 (by positivity)
  exact Interval.onGrid?_ne_none (scale_ofBinary_pos mantissa exponent) hlow hhigh
    (hfine.trans_lt hwide)

/-- **The shortest decimal of a number is among the values that the number owns**, and it has as
many digits as it says. -/
theorem IsBinary.shortest_spec :
    (shortest mantissa exponent).digits ≠ 0 ∧
      (digitChars (shortest mantissa exponent).digits).length = (shortest mantissa exponent).count ∧
      RoundsTo mantissa exponent ((shortest mantissa exponent).digits *
        10 ^ ((shortest mantissa exponent).point - (shortest mantissa exponent).count)) := by
  obtain ⟨c, digits, hc, hdigits, heq⟩ := Interval.search_eq 16 1 hb.onGrid?_ne_none
  obtain ⟨count, rfl⟩ : ∃ count, c = count + 1 := Nat.exists_eq_add_one.mpr hc
  obtain ⟨hlower, hupper, hroundsTo⟩ := hb.onGrid?_spec hdigits
  rw [shortest_eq, heq]
  split
  · -- rounding up has carried into a power of ten, which one digit is enough for
    next hcarry =>
    rw [hcarry, Nat.cast_pow, Nat.cast_ofNat, ← zpow_natCast, ← zpow_add₀ (by norm_num),
      add_sub_cancel] at hroundsTo
    refine ⟨one_ne_zero, (length_digitChars_eq_iff one_ne_zero).mpr (by decide), ?_⟩
    simpa using hroundsTo
  · next hcarry =>
    have hpos : digits ≠ 0 := by
      have : 0 < 10 ^ count := by positivity
      omega
    exact ⟨hpos, (length_digitChars_eq_iff hpos).mpr ⟨hlower, by omega⟩, hroundsTo⟩

end GemLang.Number
