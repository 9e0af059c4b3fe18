import GemLang.Proofs.Number.Reading

/-!
# Decimals that are too large

A decimal without a sign is read as a finite number, or as infinity when it is too large. It is
never read as what is no number, and never as a negative infinity (`ofDecimal_eq_infinity`).

Rounding to a mantissa and an exponent has no bound on the exponent. The bound comes in when the
result is stored: what does not fit is stored as infinity, with the sign it has.
-/

namespace GemLang.Number

open Float.Model (Format)
open Float.Model.Format (binary64)
open Float.Model.UnpackedFloat

/-- A result of rounding a positive value, before it is stored. -/
inductive IsMagnitude : Float.Model.UnpackedFloat → Prop where
  | zero : IsMagnitude (.zero .positive)
  | finite {mantissa : Nat} {exponent : Int} (hpos : 0 < mantissa) :
    IsMagnitude (.finite .positive mantissa exponent hpos)
  | infinity : IsMagnitude (.infinity .positive)

theorem isMagnitude_roundWithAccuracy (mantissa : Nat) (exponent : Int)
    (accuracy : Accuracy) :
    IsMagnitude (roundWithAccuracy binary64 .positive mantissa exponent accuracy) := by
  unfold roundWithAccuracy
  dsimp only
  split
  · exact .zero
  · exact .finite _

/-! ## Storing -/

/-- A stored exponent that is not the largest one is that of a finite number. -/
theorem isFinite_unpack_packComponents {e : BitVec binary64.exponentBits}
    (he : e ≠ -BitVec.ofNat binary64.exponentBits 1) (sign : Sign)
    (m : BitVec binary64.mantissaBitsWithoutImplicit) :
    (unpack binary64 (packComponents binary64 sign e m)).isFinite = true := by
  simp only [unpack, unpackExponent_packComponents, he, ↓reduceIte]
  split
  · split <;> rfl
  · rfl

/-- **What does not fit is stored as infinity**, and all else as a finite number. -/
theorem IsMagnitude.isFinite_or_eq_infinity {u : Float.Model.UnpackedFloat} (h : IsMagnitude u) :
    (Float.ofModel (.pack u)).isFinite = true ∨ Float.ofModel (.pack u) = Number.infinity := by
  cases h with
  | zero => exact .inl rfl
  | infinity => exact .inr rfl
  | @finite mantissa exponent hpos =>
    have hbias : (binary64.exponentBias : Int) + (52 : Nat) = 1075 := by decide
    have hbiased : exponent + binary64.exponentBias + (52 : Nat) = exponent + 1075 := by omega
    by_cases hlarge : 2 ^ 11 ≤ (exponent + 1075).toNat + 1
    · have hpack : pack binary64 (.finite .positive mantissa exponent hpos) =
          packedInfinity binary64 .positive := by
        simp only [pack, hbiased, hlarge, ↓reduceIte]
      right
      refine eq_of_toNat_toBits ?_
      change (pack binary64 (.finite .positive mantissa exponent hpos)).toNat = _
      rw [hpack]
      decide +kernel
    · have hexponent : BitVec.ofNat 11 (exponent + 1075).toNat ≠ -BitVec.ofNat 11 1 := by
        intro heq
        have heq' := congrArg BitVec.toNat heq
        rw [BitVec.toNat_ofNat, Nat.mod_eq_of_lt (by omega)] at heq'
        change (exponent + 1075).toNat = 2047 at heq'
        omega
      left
      change (unpack binary64 (pack binary64 (.finite .positive mantissa exponent hpos))).isFinite =
        true
      simp only [pack, hbiased, hlarge, ↓reduceIte]
      split
      · exact isFinite_unpack_packComponents hexponent _ _
      · exact isFinite_unpack_packComponents (by decide) _ _

/-! ## Reading -/

variable {digits : Nat}

theorem isMagnitude_ofScientific (hpos : digits ≠ 0) (e : Int) :
    IsMagnitude (Float.Model.UnpackedFloat.ofScientific binary64 digits e) := by
  unfold Float.Model.UnpackedFloat.ofScientific
  rw [dif_neg hpos]
  split
  · exact .infinity
  split
  · exact .zero
  split
  · exact isMagnitude_roundWithAccuracy _ _ _
  · exact isMagnitude_roundWithAccuracy _ _ _

theorem exists_ofScientific_eq (hpos : digits ≠ 0) (s : Bool) (k : Nat) :
    ∃ u, IsMagnitude u ∧ Float.ofScientific digits s k = .ofModel (.pack u) := by
  by_cases hfast : digits < 2 ^ 53 ∧ k ≤ 22
  · -- one operation on two exact operands
    obtain ⟨hlt, hk⟩ := hfast
    have hsize : k < Float.exactlyRepresentablePowersOfTen.size := Nat.lt_succ_of_le hk
    have hdigits := unpack_toFloat hpos hlt
    have hpower := unpack_powerOfTen (Nat.lt_succ_of_le hk) hsize
    rw [Float.ofScientific, dif_pos ⟨hlt, hk⟩]
    cases s with
    | true =>
      refine ⟨div binary64 digits.toUInt64.toFloat.toModel.unpack
        Float.exactlyRepresentablePowersOfTen[k].toModel.unpack, ?_, rfl⟩
      rw [hdigits, hpower]
      exact isMagnitude_roundWithAccuracy _ _ _
    | false =>
      refine ⟨mul binary64 digits.toUInt64.toFloat.toModel.unpack
        Float.exactlyRepresentablePowersOfTen[k].toModel.unpack, ?_, rfl⟩
      rw [hdigits, hpower]
      exact isMagnitude_roundWithAccuracy _ _ _
  · rw [Float.ofScientific, dif_neg hfast]
    exact ⟨_, isMagnitude_ofScientific hpos _, rfl⟩

/-- **A decimal that is not read as a finite number is read as infinity.** -/
theorem ofDecimal_eq_infinity {e : Int} (h : (ofDecimal digits e).isFinite = false) :
    ofDecimal digits e = infinity := by
  have hzero : (0 : Float).isFinite = true := rfl
  have hrounded (hpos : digits ≠ 0) (s : Bool) (k : Nat)
      (heq : ofDecimal digits e = Float.ofScientific digits s k) :
      ofDecimal digits e = infinity := by
    obtain ⟨u, hu, hscientific⟩ := exists_ofScientific_eq hpos s k
    rw [heq, hscientific] at h ⊢
    exact hu.isFinite_or_eq_infinity.resolve_left (by simp [h])
  by_cases hsmall : digits = 0 ∨ ((digitChars digits).length : Int) + e < -400
  · simp [ofDecimal, hsmall, hzero] at h
  have hpos : digits ≠ 0 := fun heq ↦ hsmall (.inl heq)
  by_cases hlarge : 400 < ((digitChars digits).length : Int) + e
  · simp [ofDecimal, hsmall, hlarge]
  by_cases he : 0 ≤ e
  · exact hrounded hpos false e.toNat (by simp [ofDecimal, hsmall, hlarge, he])
  · exact hrounded hpos true (-e).toNat (by simp [ofDecimal, hsmall, hlarge, he])

end GemLang.Number
