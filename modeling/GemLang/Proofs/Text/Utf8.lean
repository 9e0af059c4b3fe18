import GemLang.Text.Utf8
import Mathlib

/-!
# Text that was written is read

Reading bytes as text accepts anything, but on bytes that were written from a text it gives that
text back (`lossyText_utf8`). A character is read off the front of the bytes that follow it, so what
is needed is one equation for each of the lengths that a character can have.

A zero byte is only ever written for a zero character (`zero_not_mem_utf8`), so a text without one
can be ended by one.
-/

namespace GemLang.Text

variable {n : Nat} {lead b c d : UInt8}

/-! ## Characters by their length -/

theorem isContinuation_of_toNat_eq (hb : b.toNat = n % 64 + 0x80) : isContinuation b = true := by
  simp only [isContinuation, UInt8.le_iff_toNat_le, UInt8.reduceToNat, Bool.and_eq_true,
    decide_eq_true_eq]
  omega

theorem nextChar_one (hlead : lead.toNat = n) (hupper : n ≤ 0x7f) (rest : List UInt8) :
    nextChar lead rest = (some (Char.ofNat n), rest) := by
  simp only [nextChar, UInt8.lt_iff_toNat_lt, UInt8.reduceToNat, hlead]
  rw [if_pos (by omega)]

theorem nextChar_two (hlead : lead.toNat = n / 64 % 32 + 0xc0) (hb : b.toNat = n % 64 + 0x80)
    (hlower : 0x80 ≤ n) (hupper : n ≤ 0x7ff) (rest : List UInt8) :
    nextChar lead (b :: rest) = (some (Char.ofNat n), rest) := by
  have hvalue : (n / 64 % 32 + 0xc0) % 32 * 64 + (n % 64 + 0x80) % 64 = n := by omega
  simp only [nextChar, isContinuation_of_toNat_eq hb, UInt8.lt_iff_toNat_lt,
    UInt8.le_iff_toNat_le, UInt8.reduceToNat, Bool.and_eq_true, decide_eq_true_eq, hlead, hb,
    hvalue, ↓reduceIte]
  rw [if_neg (by omega), if_pos (by omega)]

/-- The second byte reaches as far as any other, except after four lead bytes: there it would make
a character that could be shorter, a surrogate, or a character past the last one. -/
theorem isSecondByte_of_bounds (hb : 0x80 ≤ b.toNat ∧ b.toNat ≤ 0xbf)
    (hthree : lead.toNat = 0xe0 → 0xa0 ≤ b.toNat) (hsurrogate : lead.toNat = 0xed → b.toNat ≤ 0x9f)
    (hfour : lead.toNat = 0xf0 → 0x90 ≤ b.toNat) (hlast : lead.toNat = 0xf4 → b.toNat ≤ 0x8f) :
    isSecondByte lead b = true := by
  simp only [isSecondByte, UInt8.le_iff_toNat_le, ← UInt8.toNat_inj, UInt8.reduceToNat]
  repeat' split
  all_goals simp only [Bool.and_eq_true, decide_eq_true_eq]
  all_goals omega

theorem nextChar_three (hlead : lead.toNat = n / 4096 % 16 + 0xe0)
    (hb : b.toNat = n / 64 % 64 + 0x80) (hc : c.toNat = n % 64 + 0x80) (hlower : 0x800 ≤ n)
    (hupper : n ≤ 0xffff) (hsurrogate : n < 0xd800 ∨ 0xdfff < n) (rest : List UInt8) :
    nextChar lead (b :: c :: rest) = (some (Char.ofNat n), rest) := by
  have hvalue : (n / 4096 % 16 + 0xe0) % 16 * 4096 + (n / 64 % 64 + 0x80) % 64 * 64 +
      (n % 64 + 0x80) % 64 = n := by omega
  have hsecond : isSecondByte lead b = true :=
    isSecondByte_of_bounds (by omega) (by omega) (by omega) (by omega) (by omega)
  simp only [nextChar, hsecond, isContinuation_of_toNat_eq hc, UInt8.lt_iff_toNat_lt,
    UInt8.le_iff_toNat_le, UInt8.reduceToNat, Bool.and_eq_true, decide_eq_true_eq, hlead, hb, hc,
    hvalue, ↓reduceIte]
  rw [if_neg (by omega), if_neg (by omega), if_pos (by omega)]

theorem nextChar_four (hlead : lead.toNat = n / 262144 % 8 + 0xf0)
    (hb : b.toNat = n / 4096 % 64 + 0x80) (hc : c.toNat = n / 64 % 64 + 0x80)
    (hd : d.toNat = n % 64 + 0x80) (hlower : 0xffff < n) (hupper : n < 0x110000)
    (rest : List UInt8) : nextChar lead (b :: c :: d :: rest) = (some (Char.ofNat n), rest) := by
  have hvalue : (n / 262144 % 8 + 0xf0) % 8 * 262144 + (n / 4096 % 64 + 0x80) % 64 * 4096 +
      (n / 64 % 64 + 0x80) % 64 * 64 + (n % 64 + 0x80) % 64 = n := by omega
  have hsecond : isSecondByte lead b = true :=
    isSecondByte_of_bounds (by omega) (by omega) (by omega) (by omega) (by omega)
  simp only [nextChar, hsecond, isContinuation_of_toNat_eq hc, isContinuation_of_toNat_eq hd,
    UInt8.lt_iff_toNat_lt, UInt8.le_iff_toNat_le, UInt8.reduceToNat, Bool.and_eq_true,
    decide_eq_true_eq, hlead, hb, hc, hd, hvalue, ↓reduceIte]
  rw [if_neg (by omega), if_neg (by omega), if_neg (by omega), if_pos (by omega)]

/-! ## Texts -/

theorem decodeLossy_utf8EncodeChar (x : Char) (rest : List UInt8) :
    decodeLossy (String.utf8EncodeChar x ++ rest) = x :: decodeLossy rest := by
  have hvalid : x.val.toNat < 0xd800 ∨ 0xdfff < x.val.toNat ∧ x.val.toNat < 0x110000 := x.valid
  have hchar : Char.ofNat x.val.toNat = x := Char.ofNat_toNat x
  have hread {lead : UInt8} {more : List UInt8}
      (h : nextChar lead (more ++ rest) = (some (Char.ofNat x.val.toNat), rest)) :
      decodeLossy (lead :: more ++ rest) = x :: decodeLossy rest := by
    rw [List.cons_append, decodeLossy, h, hchar]
    rfl
  have hbyte {k : Nat} (hk : k < 256) : (UInt8.ofNat k).toNat = k := UInt8.toNat_ofNat_of_lt hk
  unfold String.utf8EncodeChar
  dsimp only
  split
  · exact hread (nextChar_one (hbyte (by omega)) (by omega) rest)
  split
  · exact hread (nextChar_two (hbyte (by omega)) (hbyte (by omega)) (by omega) (by omega) rest)
  split
  · exact hread (nextChar_three (hbyte (by omega)) (hbyte (by omega)) (hbyte (by omega)) (by omega)
      (by omega) (by omega) rest)
  · exact hread (nextChar_four (hbyte (by omega)) (hbyte (by omega)) (hbyte (by omega))
      (hbyte (by omega)) (by omega) (by omega) rest)

/-- **A text that was written is read back.** -/
theorem lossyText_utf8 (s : String) : lossyText (utf8 s) = s := by
  have hread (cs : List Char) : decodeLossy (cs.flatMap String.utf8EncodeChar) = cs := by
    induction cs with
    | nil => rw [List.flatMap_nil, decodeLossy]
    | cons x cs ih => rw [List.flatMap_cons, decodeLossy_utf8EncodeChar, ih]
  rw [lossyText, utf8, hread, String.ofList_toList]

/-- Only the zero character is written with a zero in it. -/
theorem ne_zero_of_mem_utf8EncodeChar {x : Char} (hx : x ≠ '\x00') :
    ∀ b ∈ String.utf8EncodeChar x, b ≠ 0 := by
  have hpos : 0 < x.val.toNat := by
    rw [Nat.pos_iff_ne_zero]
    intro hzero
    exact hx ((Char.ofNat_toNat x).symm.trans (congrArg Char.ofNat hzero))
  have hbyte {k : Nat} (hk : 0 < k) (hupper : k < 256) : UInt8.ofNat k ≠ 0 := by
    intro hzero
    have hnat : (UInt8.ofNat k).toNat = 0 := congrArg UInt8.toNat hzero
    rw [UInt8.toNat_ofNat_of_lt' hupper] at hnat
    omega
  unfold String.utf8EncodeChar
  dsimp only
  repeat' split
  all_goals
    simp only [List.forall_mem_cons]
    repeat' apply And.intro
    any_goals exact List.forall_mem_nil _
    all_goals exact hbyte (by omega) (by omega)

/-- **A text without a zero is written without one.** -/
theorem zero_not_mem_utf8 {s : String} (h : '\x00' ∉ s.toList) : 0 ∉ utf8 s := by
  intro hzero
  obtain ⟨x, hx, hbyte⟩ := List.mem_flatMap.mp hzero
  have hne : x ≠ '\x00' := fun heq ↦ h (heq ▸ hx)
  exact ne_zero_of_mem_utf8EncodeChar hne 0 hbyte rfl
end GemLang.Text
