import GemLang.Proofs.Number.Whole

/-!
# Rounding to the nearest number

Products and quotients are computed with more bits than a mantissa has, and rounded at the end. What
has been cut off on the way is kept in two bits, the *round bit* and the *sticky bit*: together they
say whether the value is the mantissa itself, or on which side of the middle to the next mantissa it
lies (`Describes`). Cutting off one more bit keeps this true, and it is all that rounding needs.

A number owns the values that are rounded to it (`RoundsTo`): those at most half a unit of its last
place away, with the two ends if its mantissa is even. Below the least full mantissa the next number
is only half a unit away, so there the values that round up to it begin a quarter of a unit below.

Main statement: an operation whose exact result a number owns gives that number, for products
(`RoundsTo.mul_eq`) and for quotients (`RoundsTo.div_eq`).
-/

namespace GemLang.Number

open Float.Model (Format totalExponent)
open Float.Model.Format (binary64)
open Float.Model.UnpackedFloat

/-! ## Round bit and sticky bit -/

/-- What a mantissa with its round bit and its sticky bit says about a value, in units of the last
place of the mantissa. -/
def Describes (em : ExtendedMantissa) (x : ℚ) : Prop :=
  match em.roundBit, em.stickyBit with
  | false, false => x = em.mantissa
  | false, true => em.mantissa < x ∧ x < em.mantissa + 1 / 2
  | true, false => x = em.mantissa + 1 / 2
  | true, true => em.mantissa + 1 / 2 < x ∧ x < em.mantissa + 1

variable {em : ExtendedMantissa} {x : ℚ}

/-- The mantissa is the whole part of the value. -/
theorem Describes.bounds (h : Describes em x) : em.mantissa ≤ x ∧ x < em.mantissa + 1 := by
  obtain ⟨m, roundBit, stickyBit⟩ := em
  cases roundBit <;> cases stickyBit <;> simp only [Describes] at h ⊢ <;> constructor <;> linarith

theorem Describes.shiftRightOne (h : Describes em x) : Describes em.shiftRightOne (x / 2) := by
  obtain ⟨m, roundBit, stickyBit⟩ := em
  rcases Nat.even_or_odd' m with ⟨k, rfl | rfl⟩
  · have hhalf : 2 * k / 2 = k := by omega
    have hbit : (2 * k % 2 != 0) = false := by simp
    cases roundBit <;> cases stickyBit <;>
      simp only [Describes, ExtendedMantissa.shiftRightOne, hhalf, hbit, Bool.or_false,
        Bool.or_true, Nat.cast_mul, Nat.cast_ofNat] at h ⊢
    · linarith
    all_goals
      constructor <;> linarith
  · have hhalf : (2 * k + 1) / 2 = k := by omega
    have hbit : ((2 * k + 1) % 2 != 0) = true := by simp [Nat.add_mod]
    cases roundBit <;> cases stickyBit <;>
      simp only [Describes, ExtendedMantissa.shiftRightOne, hhalf, hbit, Bool.or_false,
        Bool.or_true, Nat.cast_add, Nat.cast_mul, Nat.cast_ofNat, Nat.cast_one] at h ⊢
    · linarith
    all_goals
      constructor <;> linarith

theorem Describes.shiftRight (h : Describes em x) (shift : Nat) :
    Describes (em >>> shift) (x / 2 ^ shift) := by
  induction shift with
  | zero =>
    rw [pow_zero, div_one]
    exact h
  | succ shift ih =>
    rw [pow_succ, ← div_div]
    exact ih.shiftRightOne

/-- `n` is the whole number nearest to `x`, and the even one of two that are equally near. -/
structure IsNearest (n : Nat) (x : ℚ) : Prop where
  lower : (n : ℚ) - 1 / 2 ≤ x
  upper : x ≤ n + 1 / 2
  odd : n % 2 = 1 → (n : ℚ) - 1 / 2 < x ∧ x < n + 1 / 2

/-- **Rounding by the two bits is rounding to the nearest whole number.** -/
theorem Describes.roundedMantissa_eq (h : Describes em x) {n : Nat} (hn : IsNearest n x) :
    em.roundedMantissa = n := by
  obtain ⟨m, roundBit, stickyBit⟩ := em
  obtain ⟨hlower, hupper, hodd⟩ := hn
  cases roundBit with
  | false =>
    -- the value is below the middle, and its whole part is nearest
    have hm : (m : ℚ) ≤ x ∧ x < m + 1 / 2 := by
      cases stickyBit <;> simp only [Describes] at h <;> constructor <;> linarith
    have hle : (n : ℚ) < (m + 1 : Nat) := by
      push_cast
      linarith
    have hge : (m : ℚ) < (n + 1 : Nat) := by
      push_cast
      linarith
    rw [Nat.cast_lt] at hle hge
    have heq : m = n := by omega
    cases stickyBit <;> exact heq
  | true =>
    cases stickyBit with
    | false =>
      simp only [Describes] at h
      have hle : (n : ℚ) ≤ (m + 1 : Nat) := by
        push_cast
        linarith
      have hge : (m : ℚ) ≤ n := by linarith
      rw [Nat.cast_le] at hle hge
      -- exactly in the middle, where an odd number is not nearest
      have heven : n % 2 = 0 := by
        by_contra hne
        obtain ⟨hlower', hupper'⟩ := hodd (by omega)
        have hlt : (m : ℚ) < n := by linarith
        have hgt : (n : ℚ) < (m + 1 : Nat) := by
          push_cast
          linarith
        rw [Nat.cast_lt] at hlt hgt
        omega
      change m + m % 2 = n
      omega
    | true =>
      obtain ⟨hlow, hhigh⟩ := h
      have hle : (n : ℚ) < (m + 2 : Nat) := by
        push_cast
        linarith
      have hge : (m : ℚ) < n := by linarith
      rw [Nat.cast_lt] at hle hge
      change m + 1 = n
      omega

/-! ## The exponent of the result -/

theorem targetExponent_binary64 (total : Int) :
    binary64.targetExponent total = max (total - 53) (-1074) := rfl

section

variable {m : Nat} {e : Int} {accuracy : Accuracy}

theorem mantissa_ofMantissaAndAccuracy (m : Nat) (accuracy : Accuracy) :
    (ExtendedMantissa.ofMantissaAndAccuracy m accuracy).mantissa = m := by
  unfold ExtendedMantissa.ofMantissaAndAccuracy
  split <;> rfl

theorem Describes.lt_two_zpow
    (h : Describes (.ofMantissaAndAccuracy m accuracy) (x / 2 ^ e)) :
    x < 2 ^ totalExponent m e := by
  obtain ⟨-, hlt⟩ := h.bounds
  rw [mantissa_ofMantissaAndAccuracy, div_lt_iff₀ (by positivity)] at hlt
  have hm : (m : ℚ) + 1 ≤ 2 ^ ((m.log2 : Int) + 1) := by
    exact_mod_cast Nat.succ_le_of_lt Nat.lt_log2_self
  calc x < (m + 1) * 2 ^ e := hlt
    _ ≤ 2 ^ ((m.log2 : Int) + 1) * 2 ^ e := by gcongr
    _ = 2 ^ totalExponent m e := by rw [← zpow_add₀ two_ne_zero, totalExponent]

theorem Describes.two_zpow_le
    (h : Describes (.ofMantissaAndAccuracy m accuracy) (x / 2 ^ e)) (hm : m ≠ 0) :
    2 ^ (totalExponent m e - 1) ≤ x := by
  obtain ⟨hle, -⟩ := h.bounds
  rw [mantissa_ofMantissaAndAccuracy, le_div_iff₀ (by positivity)] at hle
  have hpow : (2 : ℚ) ^ (m.log2 : Int) ≤ m := by
    exact_mod_cast Nat.log2_self_le hm
  have htotal : totalExponent m e - 1 = m.log2 + e := by
    rw [totalExponent]
    omega
  calc (2 : ℚ) ^ (totalExponent m e - 1) = 2 ^ (m.log2 : Int) * 2 ^ e := by
        rw [htotal, zpow_add₀ two_ne_zero]
    _ ≤ m * 2 ^ e := by gcongr
    _ ≤ x := hle

theorem two_zpow_lt_iff {a b : Int} : (2 : ℚ) ^ a < 2 ^ b ↔ a < b :=
  zpow_lt_zpow_iff_right₀ one_lt_two

/-- The target exponent is the one with which the value has a full mantissa, or the least one. -/
theorem Describes.targetExponent_eq
    (h : Describes (.ofMantissaAndAccuracy m accuracy) (x / 2 ^ e))
    (hroom : e ≤ binary64.targetExponent (totalExponent m e)) {t : Int} (ht : -1074 ≤ t)
    (hlt : x < 2 ^ (53 + t)) (hge : 2 ^ (52 + t) ≤ x ∨ t = -1074) :
    binary64.targetExponent (totalExponent m e) = t := by
  have hupper : totalExponent m e - 53 ≤ t := by
    by_cases hm : m = 0
    · -- nothing is left of the value, so its exponent is small already
      subst hm
      rw [targetExponent_binary64] at hroom
      simp only [totalExponent, Nat.log2_zero] at hroom ⊢
      omega
    · have hpow := two_zpow_lt_iff.mp ((h.two_zpow_le hm).trans_lt hlt)
      omega
  have hlower : t ≤ totalExponent m e - 53 ∨ t = -1074 := by
    refine hge.imp_left fun hge ↦ ?_
    have hpow := two_zpow_lt_iff.mp (hge.trans_lt h.lt_two_zpow)
    omega
  rw [targetExponent_binary64]
  omega

theorem Describes.exists_shift (h : Describes (.ofMantissaAndAccuracy m accuracy) (x / 2 ^ e))
    {t : Int} (hroom : e ≤ t) (ht : binary64.targetExponent (totalExponent m e) = t) :
    ∃ em, shiftToTargetExponent binary64 m e accuracy = (em, t) ∧ Describes em (x / 2 ^ t) := by
  have hexponent : e + ((t - e).toNat : Int) = t := by omega
  refine ⟨_, by rw [shiftToTargetExponent, shiftToExponent, ht, hexponent], ?_⟩
  have hshift := h.shiftRight (t - e).toNat
  rwa [div_div, ← zpow_natCast, ← zpow_add₀ two_ne_zero, hexponent] at hshift

theorem IsBinary.shift_eq (h : IsBinary m e) :
    shiftToTargetExponent binary64 m e .exact = (⟨m, false, false⟩, e) := by
  have hlower := h.lower
  have htarget : binary64.targetExponent (totalExponent m e) = e := by
    have hlog2 : m.log2 < 53 := (Nat.log2_lt (Nat.ne_of_gt h.pos)).mpr h.lt
    have hfull := h.full.imp_left h.log2_eq_iff.mpr
    rw [targetExponent_binary64, totalExponent]
    omega
  have hamount : (e - e).toNat = 0 := by omega
  rw [shiftToTargetExponent, htarget, shiftToExponent, hamount]
  exact Prod.ext rfl (by simp)

theorem roundWithAccuracy_of_shifts {em : ExtendedMantissa} {n : Nat} {t t' : Int}
    (h : shiftToTargetExponent binary64 m e accuracy = (em, t))
    (h' : shiftToTargetExponent binary64 em.roundedMantissa t .exact = (⟨n, false, false⟩, t'))
    (hn : 0 < n) (sign : Sign) :
    roundWithAccuracy binary64 sign m e accuracy = .finite sign n t' hn := by
  simp only [roundWithAccuracy, h, h', Nat.ne_of_gt hn, ↓reduceDIte]

end

/-! ## The values that are rounded to a number -/

/-- The values that are rounded to `n · 2 ^ t`. -/
structure RoundsTo (n : Nat) (t : Int) (x : ℚ) : Prop where
  nearest : IsNearest n (x / 2 ^ t)
  narrow : n = 2 ^ 52 → (n : ℚ) - 1 / 4 ≤ x / 2 ^ t

variable {n : Nat} {t : Int}

/-- Values just below a full mantissa with all bits zero are rounded up to it, but with one bit more
at first. -/
theorem RoundsTo.of_carry (hb : IsBinary n t) (hx : RoundsTo n t x) (hlt : x < 2 ^ (52 + t))
    (ht : t ≠ -1074) :
    n = 2 ^ 52 ∧ (2 : ℚ) ^ (52 + (t - 1)) ≤ x ∧ IsNearest (2 ^ 52 * 2 ^ 1) (x / 2 ^ (t - 1)) := by
  have hpos : (0 : ℚ) < 2 ^ t := by positivity
  have hscaled : x / 2 ^ t < 2 ^ 52 := by
    rw [div_lt_iff₀ hpos]
    rwa [zpow_add₀ two_ne_zero] at hlt
  have hn : n = 2 ^ 52 := by
    have hfull := hb.full.resolve_right ht
    have hlower := hx.nearest.lower
    have hle : (n : ℚ) < (2 ^ 52 + 1 : Nat) := by
      push_cast
      linarith
    rw [Nat.cast_lt] at hle
    omega
  have hnarrow := hx.narrow hn
  have hdouble : x / 2 ^ (t - 1) = 2 * (x / 2 ^ t) := by
    rw [zpow_sub_one₀ two_ne_zero]
    field_simp
  subst hn
  push_cast at hnarrow
  refine ⟨rfl, ?_, ?_, ?_, ?_⟩
  · have hsplit : (2 : ℚ) ^ (52 + (t - 1)) = 2 ^ 51 * 2 ^ t := by
      rw [show 52 + (t - 1) = 51 + t by ring, zpow_add₀ two_ne_zero]
      norm_cast
    rw [hsplit, ← le_div_iff₀ hpos]
    linarith
  · rw [hdouble]
    push_cast
    linarith
  · rw [hdouble]
    push_cast
    linarith
  · intro hodd
    norm_num at hodd

/-- **A value is rounded to the number that owns it**, from any mantissa that describes it with bits
to spare. -/
theorem RoundsTo.roundWithAccuracy_eq (hb : IsBinary n t) (hx : RoundsTo n t x) {m : Nat} {e : Int}
    {accuracy : Accuracy} (h : Describes (.ofMantissaAndAccuracy m accuracy) (x / 2 ^ e))
    (hroom : e ≤ binary64.targetExponent (totalExponent m e)) (sign : Sign) :
    roundWithAccuracy binary64 sign m e accuracy = .finite sign n t hb.pos := by
  have hlower := hb.lower
  by_cases hcarry : x < 2 ^ (52 + t) ∧ t ≠ -1074
  · obtain ⟨hlt, ht⟩ := hcarry
    obtain ⟨rfl, hge, hnearest⟩ := hx.of_carry hb hlt ht
    have htarget := h.targetExponent_eq hroom (by omega)
      (by rwa [show 53 + (t - 1) = 52 + t by ring])
      (.inl hge)
    obtain ⟨em, hshift, hem⟩ := h.exists_shift (htarget ▸ hroom) htarget
    -- the rounded mantissa has 54 bits, and the last one is cut off again
    have hcanonical : IsCanonical (2 ^ 52) t := ⟨Nat.log2_two_pow, hb.lower, hb.upper⟩
    have hagain := hcanonical.shift_eq 1
    rw [← hem.roundedMantissa_eq hnearest] at hagain
    exact roundWithAccuracy_of_shifts hshift hagain hb.pos sign
  · have hge : 2 ^ (52 + t) ≤ x ∨ t = -1074 := by
      rwa [not_and_or, not_lt, not_not] at hcarry
    have hlt : x < 2 ^ (53 + t) := by
      have hupper := hx.nearest.upper
      have hn : (n : ℚ) + 1 ≤ 2 ^ (53 : Int) := by exact_mod_cast hb.lt
      rw [zpow_add₀ two_ne_zero, ← div_lt_iff₀ (by positivity)]
      linarith
    have htarget := h.targetExponent_eq hroom hlower hlt hge
    obtain ⟨em, hshift, hem⟩ := h.exists_shift (htarget ▸ hroom) htarget
    have hagain : shiftToTargetExponent binary64 em.roundedMantissa t .exact =
        (⟨n, false, false⟩, t) := by
      rw [hem.roundedMantissa_eq hx.nearest, hb.shift_eq]
    exact roundWithAccuracy_of_shifts hshift hagain hb.pos sign

/-! ## Products and quotients -/

section

variable {m₁ m₂ : Nat} {e₁ e₂ : Int} {h₁ : 0 < m₁} {h₂ : 0 < m₂} {s₁ s₂ : Sign}

/-- A product that is long enough is rounded to the number that owns it. -/
theorem RoundsTo.mul_eq (hb : IsBinary n t) (hlong : 2 ^ 52 ≤ m₁ * m₂)
    (hx : RoundsTo n t (m₁ * 2 ^ e₁ * (m₂ * 2 ^ e₂))) :
    mul binary64 (.finite s₁ m₁ e₁ h₁) (.finite s₂ m₂ e₂ h₂) =
      .finite (s₁ * s₂) n t hb.pos := by
  have hlog2 := (Nat.le_log2 (by omega)).mpr hlong
  refine hx.roundWithAccuracy_eq hb ?_ ?_ _
  · change _ = ((m₁ * m₂ : Nat) : ℚ)
    rw [zpow_add₀ two_ne_zero]
    push_cast
    field_simp
  · rw [targetExponent_binary64, totalExponent]
    omega

/-- The remainder of a division says on which side of the middle the exact quotient lies. -/
theorem describes_quotient (m : Nat) (h₂ : 0 < m₂) :
    Describes (.ofMantissaAndAccuracy (m / m₂) (accuracyOfFraction (m % m₂) m₂)) (m / m₂) := by
  have hpos : (0 : ℚ) < m₂ := by exact_mod_cast h₂
  have hsplit : (m : ℚ) / m₂ = (m / m₂ : Nat) + (m % m₂ : Nat) / m₂ := by
    rw [eq_comm, add_div_eq_mul_add_div _ _ hpos.ne']
    congr 1
    exact_mod_cast Nat.div_add_mod' m m₂
  have hless : ((m % m₂ : Nat) : ℚ) / m₂ < 1 := by
    rw [div_lt_one hpos]
    exact_mod_cast Nat.mod_lt m h₂
  rw [hsplit, accuracyOfFraction]
  generalize m % m₂ = rest at hless ⊢
  by_cases hrest : rest = 0
  · subst hrest
    simp [Describes, ExtendedMantissa.ofMantissaAndAccuracy]
  · have hsome : (0 : ℚ) < rest / m₂ := by positivity
    rw [if_neg hrest]
    rcases lt_trichotomy (2 * rest) m₂ with hside | hside | hside
    · have hhalf : (rest : ℚ) / m₂ < 1 / 2 := by
        rw [div_lt_div_iff₀ hpos two_pos]
        exact_mod_cast (by omega : rest * 2 < 1 * m₂)
      rw [Nat.compare_eq_lt.mpr hside]
      constructor <;> simp only [ExtendedMantissa.ofMantissaAndAccuracy] <;> linarith
    · have hhalf : (rest : ℚ) / m₂ = 1 / 2 := by
        rw [div_eq_div_iff hpos.ne' two_ne_zero]
        exact_mod_cast (by omega : rest * 2 = 1 * m₂)
      rw [Nat.compare_eq_eq.mpr hside, hhalf]
      rfl
    · have hhalf : 1 / 2 < (rest : ℚ) / m₂ := by
        rw [div_lt_div_iff₀ two_pos hpos]
        exact_mod_cast (by omega : 1 * m₂ < rest * 2)
      rw [Nat.compare_eq_gt.mpr hside]
      constructor <;> simp only [ExtendedMantissa.ofMantissaAndAccuracy] <;> linarith

/-- A quotient is larger than the quotient of the powers of two around its operands. -/
theorem two_zpow_lt_quotient (h₁ : 0 < m₁) (h₂ : 0 < m₂) (e₁ e₂ : Int) :
    (2 : ℚ) ^ (totalExponent m₁ e₁ - totalExponent m₂ e₂ - 1) < m₁ * 2 ^ e₁ / (m₂ * 2 ^ e₂) := by
  have hlow : (2 : ℚ) ^ (m₁.log2 : Int) ≤ m₁ := by
    exact_mod_cast Nat.log2_self_le (Nat.ne_of_gt h₁)
  have hhigh : (m₂ : ℚ) < 2 ^ ((m₂.log2 : Int) + 1) := by
    exact_mod_cast Nat.lt_log2_self
  have hpos : (0 : ℚ) < m₂ := by exact_mod_cast h₂
  have hexponent : totalExponent m₁ e₁ - totalExponent m₂ e₂ - 1 +
      ((m₂.log2 : Int) + 1 + e₂) = m₁.log2 + e₁ := by
    simp only [totalExponent]
    omega
  rw [lt_div_iff₀ (by positivity)]
  calc (2 : ℚ) ^ (totalExponent m₁ e₁ - totalExponent m₂ e₂ - 1) * (m₂ * 2 ^ e₂)
      < 2 ^ (totalExponent m₁ e₁ - totalExponent m₂ e₂ - 1) *
          (2 ^ ((m₂.log2 : Int) + 1) * 2 ^ e₂) := by gcongr
    _ = 2 ^ (m₁.log2 : Int) * 2 ^ e₁ := by
        rw [← zpow_add₀ two_ne_zero, ← zpow_add₀ two_ne_zero, ← zpow_add₀ two_ne_zero, hexponent]
    _ ≤ m₁ * 2 ^ e₁ := by gcongr

/-- A quotient is rounded to the number that owns it. -/
theorem RoundsTo.div_eq (hb : IsBinary n t)
    (hx : RoundsTo n t (m₁ * 2 ^ e₁ / (m₂ * 2 ^ e₂))) :
    div binary64 (.finite s₁ m₁ e₁ h₁) (.finite s₂ m₂ e₂ h₂) =
      .finite (s₁ / s₂) n t hb.pos := by
  simp only [div, divCore]
  generalize hE : min (e₁ - e₂)
    (binary64.targetExponent (totalExponent m₁ e₁ - totalExponent m₂ e₂)) = E
  have hdescribes : Describes (.ofMantissaAndAccuracy (m₁ <<< (e₁ - e₂ - E).toNat / m₂)
      (accuracyOfFraction (m₁ <<< (e₁ - e₂ - E).toNat % m₂) m₂))
      (m₁ * 2 ^ e₁ / (m₂ * 2 ^ e₂) / 2 ^ E) := by
    have hquotient := describes_quotient (m₁ <<< (e₁ - e₂ - E).toNat) h₂
    have hshift : ((m₁ <<< (e₁ - e₂ - E).toNat : Nat) : ℚ) / m₂ =
        m₁ * 2 ^ e₁ / (m₂ * 2 ^ e₂) / 2 ^ E := by
      have hexponent : ((e₁ - e₂ - E).toNat : Int) = e₁ - e₂ - E := by omega
      rw [Nat.shiftLeft_eq]
      push_cast
      rw [← zpow_natCast, hexponent, zpow_sub₀ two_ne_zero, zpow_sub₀ two_ne_zero]
      field_simp
    rwa [← hshift]
  refine hx.roundWithAccuracy_eq hb hdescribes ?_ _
  have hbetween := two_zpow_lt_iff.mp
    ((two_zpow_lt_quotient h₁ h₂ e₁ e₂).trans hdescribes.lt_two_zpow)
  rw [targetExponent_binary64] at hE ⊢
  omega

end

end GemLang.Number
