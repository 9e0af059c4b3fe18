import GemLang.Proofs.Number.Whole
import GemLang.Value

/-!
# Keys

Two things about keys that everything on tables rests on.

Keys are compared as what they hold is, and a number that is no number differs from itself. So
equality of keys is symmetric and transitive, and reflexive on all keys but one.

A key is *normal* if it is in the form that values index with: an integer that is exact as a number,
or a number that is no such integer. The keys that values index with are all normal, and a key is
reported as a value that indexes with it again exactly if it is normal (`toKey_ofKey_iff`). An
integer key past `2 ^ 53` is not: the number it is reported as need not be that integer, and where
it is, it indexes as a number.
-/

namespace GemLang

namespace Key

/-! ## Equality -/

/-- Whether a key is the number that is no number. -/
def isNaN : Key → Bool
  | .double x => x.isNaN
  | _ => false

@[simp] theorem int_beq_int (i j : Int64) : (Key.int i == Key.int j) = (i == j) := rfl

@[simp] theorem double_beq_double (x y : Float) : (Key.double x == Key.double y) = (x == y) := rfl

@[simp] theorem text_beq_text (s t : String) : (Key.text s == Key.text t) = (s == t) := rfl

instance : PartialEquivBEq Key where
  symm {a b} h := by
    match a, b with
    | .int i, .int j =>
      rw [int_beq_int] at h ⊢
      exact BEq.symm h
    | .double x, .double y =>
      rw [double_beq_double] at h ⊢
      exact BEq.symm h
    | .text s, .text t =>
      rw [text_beq_text] at h ⊢
      exact BEq.symm h
  trans {a b c} hab hbc := by
    match a, b, c with
    | .int i, .int j, .int l =>
      rw [int_beq_int] at hab hbc ⊢
      exact BEq.trans hab hbc
    | .double x, .double y, .double z =>
      rw [double_beq_double] at hab hbc ⊢
      exact BEq.trans hab hbc
    | .text s, .text t, .text u =>
      rw [text_beq_text] at hab hbc ⊢
      exact BEq.trans hab hbc

/-- Only a key that is no number differs from itself. -/
theorem beq_self_iff {k : Key} : k == k ↔ k.isNaN = false := by
  cases k with
  | int i => simp [isNaN]
  | double x => simp [isNaN]
  | text s => simp [isNaN]

/-! ## Normal keys -/

/-- Whether an integer is in the range where every integer is a number. -/
abbrev IsExact (i : Int) : Prop := -maxExact ≤ i ∧ i ≤ maxExact

/-- A key in the form that values index with. -/
def IsNormal : Key → Prop
  | .int i => IsExact i.toInt
  | .double x => x.isNaN = false ∧ ∀ i, Number.toInt? x = some i → ¬IsExact i
  | .text _ => True

instance (k : Key) : Decidable k.IsNormal :=
  match k with
  | .int i => inferInstanceAs (Decidable (IsExact i.toInt))
  | .double x =>
    inferInstanceAs (Decidable (x.isNaN = false ∧ ∀ i ∈ Number.toInt? x, ¬IsExact i))
  | .text _ => .isTrue trivial

theorem toInt_ofInt_of_isExact {i : Int} (h : IsExact i) : (Int64.ofInt i).toInt = i := by
  have hmax : maxExact = 2 ^ 53 := rfl
  refine Int64.toInt_ofInt_of_le ?_ ?_
  · omega
  · omega

theorem ofNumber_of_isExact {x : Float} {i : Int} (hx : Number.toInt? x = some i)
    (hi : IsExact i) : ofNumber x = .int (Int64.ofInt i) := by
  simp only [ofNumber, hx, hi, and_self, ↓reduceIte]

theorem ofNumber_of_not_isExact {x : Float} (hx : ∀ i, Number.toInt? x = some i → ¬IsExact i) :
    ofNumber x = .double x := by
  rw [ofNumber]
  split
  · next i hi => exact if_neg (hx i hi)
  · rfl

theorem isNormal_ofNumber {x : Float} (hx : x.isNaN = false) : (ofNumber x).IsNormal := by
  by_cases h : ∃ i, Number.toInt? x = some i ∧ IsExact i
  · obtain ⟨i, hi, hexact⟩ := h
    rw [ofNumber_of_isExact hi hexact, IsNormal, toInt_ofInt_of_isExact hexact]
    exact hexact
  · have hnone : ∀ i, Number.toInt? x = some i → ¬IsExact i := fun i hi hexact ↦ h ⟨i, hi, hexact⟩
    rw [ofNumber_of_not_isExact hnone]
    exact ⟨hx, hnone⟩

/-- Equal numbers index with the same key. Zero and negative zero are equal but not the same, and
they are one integer. -/
theorem ofNumber_congr {x y : Float} (h : x == y) : ofNumber x = ofNumber y := by
  have hzero : ofNumber 0 = ofNumber (-0) := by
    have hpos : Number.toInt? 0 = some 0 := by decide +kernel
    have hneg : Number.toInt? (-0) = some 0 := by decide +kernel
    rw [ofNumber_of_isExact hpos (by decide), ofNumber_of_isExact hneg (by decide)]
  obtain ⟨-, -, rfl | ⟨rfl, rfl⟩ | ⟨rfl, rfl⟩⟩ := Float.beq_iff_ne_nan_and_eq.mp h
  · rfl
  · exact hzero
  · exact hzero.symm

/-- A key that tables come to have: one that values index with, or any integer, since integers are
also counted up. -/
def IsProper : Key → Prop
  | .int _ => True
  | .double x => (Key.double x).IsNormal
  | .text _ => True

theorem IsNormal.isProper {k : Key} (h : k.IsNormal) : k.IsProper := by
  cases k with
  | int i => trivial
  | double x => exact h
  | text s => trivial

theorem IsProper.isNaN {k : Key} (h : k.IsProper) : k.isNaN = false := by
  cases k with
  | int i => rfl
  | double x => exact h.1
  | text s => rfl

/-- The keys that tables come to have are normal but for integers that are not exact. -/
theorem IsProper.isNormal_iff {k : Key} (h : k.IsProper) :
    k.IsNormal ↔ ∀ i, k = .int i → IsExact i.toInt := by
  cases k with
  | int i => simp [IsNormal]
  | double x => exact iff_of_true h nofun
  | text s => exact iff_of_true trivial nofun

end Key

/-! ## Reported keys -/

namespace Value

theorem isNormal_of_toKey {v : Value} {k : Key} (h : v.toKey = .ok k) : k.IsNormal := by
  match v with
  | .number x =>
    rw [toKey] at h
    split at h
    · cases h
    · next hx =>
      obtain rfl := Except.ok.inj h
      exact Key.isNormal_ofNumber (Bool.eq_false_iff.mpr hx)
  | .text payload =>
    obtain rfl := Except.ok.inj h
    trivial
  | .bool _ | .table _ | .script _ | .native _ | .foreign _ => cases h

theorem toKey_number {x : Float} (hx : x.isNaN = false) :
    (Value.number x).toKey = .ok (.ofNumber x) := by
  rw [toKey, hx]
  rfl

theorem isNaN_of_toInt? {x : Float} {i : Int} (h : Number.toInt? x = some i) : x.isNaN = false := by
  rw [Float.isNaN_eq_decide_eq_nan, decide_eq_false_iff_not]
  rintro rfl
  have hnan : Number.toInt? .nan = none := by decide +kernel
  rw [hnan] at h
  cases h

/-- **A reported key reads back** exactly if it is a normal one. -/
theorem toKey_ofKey_iff {k : Key} : (ofKey k).toKey = .ok k ↔ k.IsNormal := by
  refine ⟨isNormal_of_toKey, fun h ↦ ?_⟩
  match k with
  | .int i =>
    have hread : Number.toInt? (Float.ofInt i.toInt) = some i.toInt := by
      have hmax : Key.maxExact = 2 ^ 53 := rfl
      obtain ⟨hlower, hupper⟩ := h
      refine Number.toInt?_ofInt ?_
      omega
    rw [ofKey, toKey_number (isNaN_of_toInt? hread), Key.ofNumber_of_isExact hread h,
      Int64.ofInt_toInt]
  | .double x => rw [ofKey, toKey_number h.1, Key.ofNumber_of_not_isExact h.2]
  | .text s => rw [ofKey, quoted, toKey, Text.unquote_enquote]

/-- Equal values index with the same key, if with any. -/
theorem toKey_congr {v w : Value} (h : v == w) : v.toKey = w.toKey := by
  change v.beq w = true at h
  match v, w with
  | .number x, .number y =>
    rw [Value.beq] at h
    obtain ⟨hx, hy, -⟩ := Float.beq_iff_ne_nan_and_eq.mp h
    rw [toKey_number (by simpa using hx), toKey_number (by simpa using hy), Key.ofNumber_congr h]
  | .text s, .text t =>
    rw [Value.beq, beq_iff_eq] at h
    rw [h]
  | .bool _, .bool _ | .table _, .table _ | .script _, .script _ | .native _, .native _
  | .foreign _, .foreign _ => rfl

/-- **Different keys are reported as different values**, if the keys are normal. -/
theorem ofKey_inj {k k' : Key} (hk : k.IsNormal) (hk' : k'.IsNormal)
    (h : ofKey k == ofKey k') : k = k' := by
  have hread := toKey_congr h
  rw [toKey_ofKey_iff.mpr hk, toKey_ofKey_iff.mpr hk'] at hread
  exact Except.ok.inj hread

end Value

end GemLang
