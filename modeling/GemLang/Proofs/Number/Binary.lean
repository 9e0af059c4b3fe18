import GemLang.Number.Parts
import Mathlib

/-!
# Numbers and their bits

A finite number other than zero has a sign, a mantissa and an exponent, and these determine it. The
mantissa is *full*, with all its 53 bits, unless the exponent is the least one (`IsBinary`).

Where the mantissa is full its leading bit is not stored, and the exponent is stored with one more
added to it. So the bits of a number are in both cases, read as a natural number, its mantissa and
above it what its exponent exceeds the least one by (`IsBinary.toNat_pack`). Reading off the parts
of a number undoes this (`IsBinary.parts_eq`), and no two finite numbers have the same parts
(`eq_of_parts`).
-/

namespace GemLang.Number

open Float.Model (Format)
open Float.Model.Format (binary64)
open Float.Model.UnpackedFloat

/-- The mantissa and the exponent of a finite number other than zero. -/
structure IsBinary (mantissa : Nat) (exponent : Int) : Prop where
  pos : 0 < mantissa
  lt : mantissa < 2 ^ 53
  lower : -1074 ≤ exponent
  upper : exponent ≤ 971
  full : 2 ^ 52 ≤ mantissa ∨ exponent = -1074

/-- The sign that a minus, or none, stands for. -/
def signOf (negative : Bool) : Sign := if negative then .negative else .positive

theorem toNat_toBitVec_signOf (negative : Bool) :
    (signOf negative).toBitVec.toNat = if negative then 1 else 0 := by
  cases negative <;> rfl

variable {mantissa : Nat} {exponent : Int}

theorem IsBinary.log2_eq_iff (h : IsBinary mantissa exponent) :
    mantissa.log2 = 52 ↔ 2 ^ 52 ≤ mantissa := by
  have hlt := h.lt
  rw [Nat.log2_eq_iff (Nat.ne_of_gt h.pos)]
  omega

/-! ## Packing -/

/-- The exponent as it is stored: zero for a mantissa that is not full. -/
def storedExponent (mantissa : Nat) (exponent : Int) : Nat :=
  if 2 ^ 52 ≤ mantissa then (exponent + 1075).toNat else 0

theorem IsBinary.storedExponent_lt (h : IsBinary mantissa exponent) :
    storedExponent mantissa exponent < 2047 := by
  have hlower := h.lower
  have hupper := h.upper
  unfold storedExponent
  split <;> omega

theorem IsBinary.storedExponent_eq_zero_iff (h : IsBinary mantissa exponent) :
    storedExponent mantissa exponent = 0 ↔ mantissa < 2 ^ 52 := by
  have hlower := h.lower
  unfold storedExponent
  split <;> omega

/-- The stored exponent above the stored mantissa, whose leading bit is left out if it is full. -/
theorem IsBinary.stored_eq (h : IsBinary mantissa exponent) :
    storedExponent mantissa exponent * 2 ^ 52 + mantissa % 2 ^ 52 =
      (exponent + 1074).toNat * 2 ^ 52 + mantissa := by
  have hlower := h.lower
  have hlt := h.lt
  have hfull := h.full
  unfold storedExponent
  split <;> omega

theorem IsBinary.pack_eq (h : IsBinary mantissa exponent) (sign : Sign) :
    pack binary64 (.finite sign mantissa exponent h.pos) =
      packComponents binary64 sign (BitVec.ofNat 11 (storedExponent mantissa exponent))
        (BitVec.ofNat 52 mantissa) := by
  have hupper := h.upper
  have hlower := h.lower
  have hbias : (binary64.exponentBias : Int) + (52 : Nat) = 1075 := by decide
  have hbiased : exponent + binary64.exponentBias + (52 : Nat) = exponent + 1075 := by omega
  have hroom : ¬2 ^ 11 ≤ (exponent + 1075).toNat + 1 := by omega
  have hbits : (mantissa.log2 + 1 = binary64.mantissaBits) ↔ 2 ^ 52 ≤ mantissa := by
    rw [← h.log2_eq_iff]
    exact Nat.add_right_cancel_iff
  simp only [pack, hbiased, hroom, hbits, storedExponent, ↓reduceIte]
  split <;> rfl

/-- The bits of a number: its mantissa, and above it the exponent counted from the least one. -/
theorem IsBinary.toNat_pack (h : IsBinary mantissa exponent) (sign : Sign) :
    (pack binary64 (.finite sign mantissa exponent h.pos)).toNat =
      sign.toBitVec.toNat * 2 ^ 63 + (exponent + 1074).toNat * 2 ^ 52 + mantissa := by
  have hstored := h.storedExponent_lt
  have heq := h.stored_eq
  rw [h.pack_eq, packComponents, BitVec.toNat_append, BitVec.toNat_append,
    ← Nat.shiftLeft_add_eq_or_of_lt (BitVec.isLt _),
    ← Nat.shiftLeft_add_eq_or_of_lt (BitVec.isLt _)]
  simp only [BitVec.toNat_ofNat, Nat.shiftLeft_eq]
  have hmod : storedExponent mantissa exponent % 2 ^ 11 = storedExponent mantissa exponent :=
    Nat.mod_eq_of_lt (by omega)
  rw [hmod, Nat.add_mul, Nat.add_assoc, heq, Nat.mul_assoc, ← Nat.pow_add, Nat.add_assoc]

theorem unpackSign_packComponents {spec : Format} {sign : Sign} {e : BitVec spec.exponentBits}
    {m : BitVec spec.mantissaBitsWithoutImplicit} :
    unpackSign (packComponents spec sign e m) = sign.toBitVec := by
  ext i hi
  obtain rfl : i = 0 := by omega
  have habove : ¬spec.mantissaBitsWithoutImplicit + spec.exponentBits <
      spec.mantissaBitsWithoutImplicit := by omega
  simp [unpackSign, packComponents, BitVec.getLsbD_append, BitVec.getElem_append, habove]

theorem ofBitVec_toBitVec (sign : Sign) : Sign.ofBitVec sign.toBitVec = sign := by
  cases sign <;> rfl

theorem IsBinary.unpack_pack (h : IsBinary mantissa exponent) (sign : Sign) :
    unpack binary64 (pack binary64 (.finite sign mantissa exponent h.pos)) =
      .finite sign mantissa exponent h.pos := by
  have hlower := h.lower
  have hlt := h.lt
  have hstored := h.storedExponent_lt
  have hzero := h.storedExponent_eq_zero_iff
  have hbias : (binary64.exponentBias : Int) + (52 : Nat) = 1075 := by decide
  have htoNat : (BitVec.ofNat 11 (storedExponent mantissa exponent)).toNat =
      storedExponent mantissa exponent := by
    rw [BitVec.toNat_ofNat]
    omega
  have hinfinite : BitVec.ofNat 11 (storedExponent mantissa exponent) ≠ -1#11 := by
    intro heq
    have heq' := congrArg BitVec.toNat heq
    rw [htoNat] at heq'
    change storedExponent mantissa exponent = 2047 at heq'
    omega
  rw [h.pack_eq]
  by_cases hfull : 2 ^ 52 ≤ mantissa
  · -- the leading bit is put back
    have hsmall : BitVec.ofNat 11 (storedExponent mantissa exponent) ≠ 0#11 := by
      intro heq
      have heq' := congrArg BitVec.toNat heq
      rw [htoNat] at heq'
      change storedExponent mantissa exponent = 0 at heq'
      omega
    have hmantissa : (1#1 ++ BitVec.ofNat 52 mantissa).toNat = mantissa := by
      rw [BitVec.toNat_append, BitVec.toNat_ofNat, BitVec.toNat_ofNat,
        ← Nat.shiftLeft_add_eq_or_of_lt (Nat.mod_lt _ (Nat.two_pow_pos 52))]
      simp only [Nat.shiftLeft_eq]
      omega
    have hexponent : (storedExponent mantissa exponent : Int) -
        (binary64.exponentBias + (52 : Nat)) = exponent := by
      rw [storedExponent, if_pos hfull]
      omega
    simp only [unpack, unpackMantissa_packComponents, unpackExponent_packComponents,
      unpackSign_packComponents, ofBitVec_toBitVec, hinfinite, hsmall, ↓reduceIte, htoNat,
      hexponent, hmantissa]
  · -- the exponent is the least one, and stored as zero
    have hsmall : storedExponent mantissa exponent = 0 := hzero.mpr (by omega)
    have hexponent : ((BitVec.ofNat 11 0).toNat : Int) - (binary64.exponentBias + (52 : Nat)) + 1 =
        exponent := by
      have hleast := h.full.resolve_left hfull
      rw [hleast]
      decide
    have hmantissa : (BitVec.ofNat 52 mantissa).toNat = mantissa := by
      rw [BitVec.toNat_ofNat]
      omega
    have hpos : BitVec.ofNat 52 mantissa ≠ 0#52 := by
      intro heq
      have heq' := congrArg BitVec.toNat heq
      rw [hmantissa] at heq'
      exact Nat.ne_of_gt h.pos heq'
    rw [hsmall] at hinfinite ⊢
    simp only [unpack, unpackMantissa_packComponents, unpackExponent_packComponents,
      unpackSign_packComponents, ofBitVec_toBitVec, hinfinite, hpos, ↓reduceIte, ↓reduceDIte,
      hexponent, hmantissa]

/-! ## Parts -/

theorem IsBinary.parts_eq (h : IsBinary mantissa exponent) {x : Float} {negative : Bool}
    (hx : x.toModel = .pack (.finite (signOf negative) mantissa exponent h.pos)) :
    parts x = .finite negative mantissa exponent := by
  have hupper := h.upper
  have hlower := h.lower
  have hlt := h.lt
  have hfull := h.full
  have hbits : x.toBits.toNat = (if negative then 1 else 0) * 2 ^ 63 +
      (exponent + 1074).toNat * 2 ^ 52 + mantissa := by
    rw [Float.toBits, hx, ← toNat_toBitVec_signOf]
    exact h.toNat_pack _
  have hsign : decide (x.toBits.toNat / Nat.pow 2 63 = 1) = negative := by
    rw [hbits, Nat.pow_eq]
    cases negative with
    | true => exact decide_eq_true (by simp only [↓reduceIte]; omega)
    | false => exact decide_eq_false (by simp only [Bool.false_eq_true, ↓reduceIte]; omega)
  have hlow : x.toBits.toNat % 2 ^ 63 = (exponent + 1074).toNat * 2 ^ 52 + mantissa := by
    rw [hbits]
    omega
  simp only [parts, hsign]
  simp only [Nat.pow_eq]
  by_cases hnormal : 2 ^ 52 ≤ mantissa
  · have hexponent : x.toBits.toNat / 2 ^ 52 % 2 ^ 11 = (exponent + 1075).toNat := by omega
    have hfraction : x.toBits.toNat % 2 ^ 52 = mantissa - 2 ^ 52 := by omega
    have hinfinite : (exponent + 1075).toNat ≠ 2047 := by omega
    have hsmall : (exponent + 1075).toNat ≠ 0 := by omega
    have hmantissa : 2 ^ 52 + (mantissa - 2 ^ 52) = mantissa := by omega
    have hexponent' : ((exponent + 1075).toNat : Int) - 1075 = exponent := by omega
    simp only [hexponent, hfraction, hinfinite, hsmall, hmantissa, hexponent', if_false]
  · have hleast := hfull.resolve_left hnormal
    have hexponent : x.toBits.toNat / 2 ^ 52 % 2 ^ 11 = 0 := by omega
    have hfraction : x.toBits.toNat % 2 ^ 52 = mantissa := by omega
    have hinfinite : (0 : Nat) ≠ 2047 := by omega
    simp only [hexponent, hfraction, hinfinite, hleast, if_true, if_false]

theorem toNat_toBits_of_parts {x : Float} {negative : Bool}
    (hx : parts x = .finite negative mantissa exponent) :
    mantissa < 2 ^ 53 ∧ -1074 ≤ exponent ∧ exponent ≤ 971 ∧
      (2 ^ 52 ≤ mantissa ∨ exponent = -1074) ∧
      x.toBits.toNat = (if negative then 1 else 0) * 2 ^ 63 +
        (exponent + 1074).toNat * 2 ^ 52 + mantissa := by
  have hbits : x.toBits.toNat < 2 ^ 64 := x.toBits.toNat_lt
  simp only [parts, Nat.pow_eq] at hx
  split at hx
  · split at hx <;> simp at hx
  · split at hx
    all_goals
      simp only [Parts.finite.injEq] at hx
      obtain ⟨rfl, rfl, rfl⟩ := hx
      refine ⟨by omega, by omega, by omega, by omega, ?_⟩
      simp only [decide_eq_true_eq]
      split <;> omega

theorem isBinary_of_parts {x : Float} {negative : Bool}
    (hx : parts x = .finite negative mantissa exponent) (hpos : mantissa ≠ 0) :
    IsBinary mantissa exponent := by
  obtain ⟨hlt, hlower, hupper, hfull, -⟩ := toNat_toBits_of_parts hx
  exact ⟨Nat.pos_of_ne_zero hpos, hlt, hlower, hupper, hfull⟩

theorem eq_of_toNat_toBits {x y : Float} (h : x.toBits.toNat = y.toBits.toNat) : x = y := by
  obtain ⟨⟨bits, _⟩⟩ := x
  obtain ⟨⟨bits', _⟩⟩ := y
  obtain rfl : bits = bits' := UInt64.toNat_inj.mp h
  rfl

/-- **The parts of a number other than zero determine it.** -/
theorem eq_of_parts {x : Float} {negative : Bool}
    (hx : parts x = .finite negative mantissa exponent) (h : IsBinary mantissa exponent) :
    x = .ofModel (.pack (.finite (signOf negative) mantissa exponent h.pos)) := by
  refine eq_of_toNat_toBits ?_
  obtain ⟨-, -, -, -, hbits⟩ := toNat_toBits_of_parts hx
  rw [hbits, ← toNat_toBitVec_signOf]
  exact (h.toNat_pack _).symm

theorem eq_of_parts_zero {x : Float} {negative : Bool}
    (hx : parts x = .finite negative 0 exponent) : x = if negative then -0 else 0 := by
  refine eq_of_toNat_toBits ?_
  obtain ⟨-, -, -, hfull, hbits⟩ := toNat_toBits_of_parts hx
  obtain rfl : exponent = -1074 := hfull.resolve_left (by omega)
  rw [hbits]
  cases negative with
  | true => decide +kernel
  | false => decide +kernel

/-- Bits whose exponent is the largest one are those of no finite number. -/
theorem isFinite_unpack_eq_false (bits : BitVec binary64.numBits)
    (h : bits.toNat / 2 ^ 52 % 2 ^ 11 = 2047) : (unpack binary64 bits).isFinite = false := by
  have hones : unpackExponent bits = -1#11 := by
    refine BitVec.eq_of_toNat_eq ?_
    simpa [unpackExponent, Nat.shiftRight_eq_div_pow] using h
  simp only [unpack, hones, ↓reduceIte]
  split <;> rfl

theorem exists_parts_of_isFinite {x : Float} (h : x.isFinite = true) :
    ∃ negative mantissa exponent, parts x = .finite negative mantissa exponent := by
  have hexponent : x.toBits.toNat / 2 ^ 52 % 2 ^ 11 ≠ 2047 := by
    intro hmax
    change (unpack binary64 x.toBits.toBitVec).isFinite = true at h
    rw [isFinite_unpack_eq_false _ hmax] at h
    exact Bool.false_ne_true h
  simp only [parts, Nat.pow_eq, hexponent, ↓reduceIte]
  split <;> exact ⟨_, _, _, rfl⟩

/-- Changing the sign of a number changes nothing else. -/
theorem IsBinary.neg_eq (h : IsBinary mantissa exponent) :
    -Float.ofModel (.pack (.finite .positive mantissa exponent h.pos)) =
      .ofModel (.pack (.finite .negative mantissa exponent h.pos)) := by
  change Float.ofModel (.pack (Float.Model.UnpackedFloat.neg
    (unpack binary64 (pack binary64 (.finite .positive mantissa exponent h.pos))))) = _
  rw [h.unpack_pack]
  rfl

theorem isFinite_zero_sub {x : Float} (h : x.isFinite = true) : (0 - x).isFinite = true := by
  obtain ⟨negative, mantissa, exponent, hparts⟩ := exists_parts_of_isFinite h
  by_cases hzero : mantissa = 0
  · subst hzero
    rw [eq_of_parts_zero hparts]
    cases negative <;> decide +kernel
  · have hb := isBinary_of_parts hparts hzero
    have hunpack : unpack binary64 (0 : Float).toBits.toBitVec = .zero .positive := rfl
    have hsub : 0 - x = .ofModel (.pack (.finite (-signOf negative) mantissa exponent hb.pos)) := by
      rw [eq_of_parts hparts hb]
      change Float.ofModel (.pack (Float.Model.UnpackedFloat.sub binary64
        (unpack binary64 (0 : Float).toBits.toBitVec) (unpack binary64
          (pack binary64 (.finite (signOf negative) mantissa exponent hb.pos))))) = _
      rw [hb.unpack_pack, hunpack]
      rfl
    rw [hsub]
    change (unpack binary64 (pack binary64
      (.finite (-signOf negative) mantissa exponent hb.pos))).isFinite = true
    rw [hb.unpack_pack]
    rfl

end GemLang.Number
