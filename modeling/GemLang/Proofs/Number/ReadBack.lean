import GemLang.Proofs.Compile.Operand
import GemLang.Proofs.Number.Shortest

/-!
# A number is what its text reads as

Writing a finite number and reading the text gives the number again, the sign of zero included
(`read?_text`). So a number that is carried through code as a text arrives unchanged
(`literal_text`).

The text is positional. Its digits, read as one natural number, and the places after the point give
a decimal with the value of the shortest decimal of the number, whichever way the point falls.
-/

namespace GemLang

open Number

/-! ## Positional notation -/

theorem digitsValue_append (cs ds : List Char) :
    digitsValue (cs ++ ds) = 10 ^ ds.length * digitsValue cs + digitsValue ds := by
  change Nat.ofDigitChars 10 (cs ++ ds) 0 = _
  rw [Nat.ofDigitChars_append, Nat.ofDigitChars_eq_ofDigitChars_zero]
  rfl

theorem digitsValue_zeros (count : Nat) : digitsValue (List.replicate count '0') = 0 := by
  change Nat.ofDigitChars 10 (List.replicate count '0') 0 = 0
  rw [Nat.ofDigitChars_replicate_zero, Nat.mul_zero]

theorem readUnsigned?_positional (d : Decimal) (hpos : d.digits ≠ 0)
    (hcount : (digitChars d.digits).length = d.count) :
    ∃ (digits : Nat) (e : Int), digits ≠ 0 ∧
      (digits * 10 ^ e : ℚ) = d.digits * 10 ^ (d.point - d.count) ∧
      readUnsigned? (positional d) = some (ofDecimal digits e) := by
  have hdigits (c : Char) (hc : c ∈ digitChars d.digits) := isDigit_of_mem_digitChars hc
  have hvalue := digitsValue_digitChars d.digits
  simp only [positional, hcount]
  by_cases hpoint : d.point ≤ 0
  · -- all digits are behind the point, after some zeros
    have hread := readUnsigned?_point (List.cons_ne_nil '0' [])
      (List.forall_mem_singleton.mpr rfl)
      (List.forall_mem_append.mpr ⟨isDigit_of_mem_zeros (-d.point).toNat, hdigits⟩)
    rw [digitsValue_append, digitsValue_append, digitsValue_zeros, hvalue, List.length_append,
      List.length_replicate, hcount] at hread
    rw [if_pos hpoint, List.append_assoc]
    refine ⟨d.digits, d.point - d.count, hpos, rfl, hread.trans ?_⟩
    have hexponent : -(((-d.point).toNat + d.count : Nat) : Int) = d.point - d.count := by omega
    rw [hexponent]
    simp [digitsValue]
  rw [if_neg hpoint]
  by_cases hshort : d.count ≤ d.point.toNat
  · -- all digits are before the point, and zeros follow
    rw [if_pos hshort, readUnsigned?_whole (by simp [digitChars_ne_nil])
      (List.forall_mem_append.mpr ⟨hdigits, isDigit_of_mem_zeros _⟩), digitsValue_append,
      digitsValue_zeros, hvalue, List.length_replicate]
    refine ⟨_, 0, by positivity, ?_, rfl⟩
    have hexponent : d.point - d.count = ((d.point.toNat - d.count : Nat) : Int) := by omega
    rw [hexponent, zpow_natCast, zpow_zero]
    push_cast
    ring
  · -- the point stands between two digits
    have htake : (digitChars d.digits).take d.point.toNat ≠ [] := by
      have hne : d.point.toNat ≠ 0 := by omega
      simp [digitChars_ne_nil, hne]
    have hdrop : ∀ c ∈ (digitChars d.digits).drop d.point.toNat, c.isDigit = true :=
      fun c hc ↦ hdigits c (List.mem_of_mem_drop hc)
    have hread := readUnsigned?_point htake (fun c hc ↦ hdigits c (List.mem_of_mem_take hc)) hdrop
    rw [List.take_append_drop, hvalue, List.length_drop, hcount] at hread
    rw [if_neg hshort, List.append_assoc]
    refine ⟨d.digits, d.point - d.count, hpos, rfl, hread.trans ?_⟩
    have hexponent : -((d.count - d.point.toNat : Nat) : Int) = d.point - d.count := by omega
    rw [hexponent]

/-! ## Finite numbers -/

/-- **A finite number is what its text reads as.** -/
theorem read?_text {x : Float} (h : x.isFinite = true) : read? (text x) = some x := by
  obtain ⟨negative, mantissa, exponent, hparts⟩ := exists_parts_of_isFinite h
  rw [text, textChars, hparts]
  by_cases hzero : mantissa = 0
  · subst hzero
    have hread : read? (String.ofList ((if negative then ['-'] else []) ++ ['0'])) =
        some (if negative then -0 else 0) := by
      cases negative <;> decide +kernel
    rw [eq_of_parts_zero hparts]
    exact hread
  · have hb := isBinary_of_parts hparts hzero
    obtain ⟨hpos, hcount, hroundsTo⟩ := hb.shortest_spec
    obtain ⟨digits, e, hdigits, hvalue, hread⟩ := readUnsigned?_positional _ hpos hcount
    rw [← hvalue] at hroundsTo
    simp only [hzero, ↓reduceIte]
    rw [(isPositional_positional _).read?_eq, hread, hroundsTo.ofDecimal_eq hb hdigits,
      Option.map_some, eq_of_parts hparts hb]
    cases negative with
    | true => exact congrArg some hb.neg_eq
    | false => rfl

theorem literal_text {x : Float} (h : x.isFinite = true) : literal (text x) = .ok (.number x) := by
  obtain ⟨negative, mantissa, exponent, hparts⟩ := exists_parts_of_isFinite h
  obtain ⟨cs, hcs, htext⟩ := textChars_finite hparts
  have hread := read?_text h
  rw [text, htext] at hread ⊢
  exact hcs.literal_eq negative hread

end GemLang
