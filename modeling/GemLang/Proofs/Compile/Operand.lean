import GemLang.Compile.Lower
import GemLang.Machine.Step
import GemLang.Proofs.Bytecode.Legible
import GemLang.Text.Numeral

/-!
# Operands of compiled code

What the compiler writes after an opcode is a name, a quoted text, a number, a hidden name or the
path of a library. Each is a single word (`isWord_…`), and each can be pushed: as a literal it is
well formed (`IsPushable`).

For numbers this is where writing and reading meet. A number is written in positional notation, so
its text starts with digits, with at most a minus in front and at most one point inside, and every
such text is read as some number. Infinities and what is no number are written as words, and a word
is a text.
-/

namespace GemLang

open Bytecode

/-! ## Names -/

/-- A text that the scanner takes for a name or a keyword. -/
def IsName (x : String) : Prop :=
  ∃ c cs, x.toList = c :: cs ∧ Text.isNameStart c = true ∧ ∀ d ∈ cs, Text.isNameChar d = true

/-- Whether the characters of a text make it a name. -/
def isNameChars : List Char → Bool
  | [] => false
  | c :: cs => Text.isNameStart c && cs.all Text.isNameChar

theorem isName_iff {x : String} : IsName x ↔ isNameChars x.toList = true := by
  unfold IsName
  cases x.toList with
  | nil => simp [isNameChars]
  | cons c cs =>
    rw [isNameChars, Bool.and_eq_true, List.all_eq_true]
    constructor
    · rintro ⟨_, _, heq, hname⟩
      obtain ⟨rfl, rfl⟩ := List.cons.inj heq
      exact hname
    · exact fun hname ↦ ⟨c, cs, rfl, hname⟩

instance (x : String) : Decidable (IsName x) := decidable_of_decidable_of_iff isName_iff.symm

/-- Ranges that lie apart from the ranges of blanks. -/
def apartFromBlanks (ranges : List (Nat × Nat)) : Bool :=
  ranges.all fun r ↦ Text.blankRanges.all fun b ↦ r.2 < b.1 || b.2 < r.1

theorem isBlank_eq_false_of_inRanges {ranges : List (Nat × Nat)}
    (hapart : apartFromBlanks ranges = true) {c : Char} (h : Text.inRanges ranges c = true) :
    Text.isBlank c = false := by
  rw [Bool.eq_false_iff]
  intro hblank
  obtain ⟨r, hr, hlow, hhigh⟩ := Text.inRanges_iff.mp h
  obtain ⟨b, hb, hlow', hhigh'⟩ := Text.inRanges_iff.mp hblank
  simp only [apartFromBlanks, List.all_eq_true, Bool.or_eq_true, decide_eq_true_eq] at hapart
  have hrb := hapart r hr b hb
  omega

theorem apartFromBlanks_letterRanges : apartFromBlanks Text.letterRanges = true := by
  decide +kernel

theorem apartFromBlanks_numeralRanges : apartFromBlanks Text.numeralRanges = true := by
  decide +kernel

theorem isBlank_eq_false_of_isAlphanum {c : Char} (h : c.isAlphanum = true) :
    Text.isBlank c = false := by
  have hranges : Text.inRanges [(0x41, 0x5a), (0x61, 0x7a), (0x30, 0x39)] c = true := by
    simp only [Char.isAlphanum, Char.isAlpha, Char.isUpper, Char.isLower, Char.isDigit,
      Bool.or_eq_true, Bool.and_eq_true, decide_eq_true_eq, UInt32.le_iff_toNat_le,
      ge_iff_le] at h
    change ((65 ≤ c.toNat ∧ c.toNat ≤ 90) ∨ (97 ≤ c.toNat ∧ c.toNat ≤ 122)) ∨
      (48 ≤ c.toNat ∧ c.toNat ≤ 57) at h
    simpa [Text.inRanges, or_assoc] using h
  exact isBlank_eq_false_of_inRanges (by decide) hranges

theorem isBlank_eq_false_of_isDigit {c : Char} (h : c.isDigit = true) : Text.isBlank c = false :=
  isBlank_eq_false_of_isAlphanum (by simp [Char.isAlphanum, h])

theorem isBlank_eq_false_of_isNameChar {c : Char} (h : Text.isNameChar c = true) :
    Text.isBlank c = false := by
  simp only [Text.isNameChar, Text.isAlphanumeric, Text.isLetter, Text.isNumeral, Bool.or_eq_true,
    beq_iff_eq] at h
  rcases h with (h | h) | rfl
  · split at h
    · exact isBlank_eq_false_of_isAlphanum (by simp [Char.isAlphanum, h])
    · exact isBlank_eq_false_of_inRanges apartFromBlanks_letterRanges h
  · split at h
    · exact isBlank_eq_false_of_isDigit h
    · exact isBlank_eq_false_of_inRanges apartFromBlanks_numeralRanges h
  · decide

theorem ne_quote_of_isNameChar {c : Char} (h : Text.isNameChar c = true) : c ≠ '"' := by
  rintro rfl
  exact absurd h (by decide)

theorem IsName.isBareWord {x : String} (h : IsName x) : IsBareWord x := by
  obtain ⟨c, cs, hx, hc, hcs⟩ := h
  refine ⟨by simp [hx], fun d hd ↦ ?_⟩
  have hd' : Text.isNameChar d = true := by
    rw [hx] at hd
    rcases List.mem_cons.mp hd with rfl | hd
    · exact Text.isNameChar_of_isNameStart hc
    · exact hcs d hd
  exact ⟨isBlank_eq_false_of_isNameChar hd', ne_quote_of_isNameChar hd'⟩

theorem IsName.isWord {x : String} (h : IsName x) : IsWord x := .inl h.isBareWord

theorem IsName.ne_colon {x : String} (h : IsName x) : x ≠ ":" := by
  rintro rfl
  obtain ⟨c, cs, hx, hc, -⟩ := h
  obtain ⟨rfl, -⟩ := List.cons.inj hx
  exact absurd hc (by decide)

/-! ## Literals -/

/-- A text that can be pushed. -/
def IsPushable (x : String) : Prop := ∃ v, literal x = .ok v

theorem unescape_escape_append (cs ds : List Char) :
    Text.unescape (Text.escape cs ++ ds) = cs ++ Text.unescape ds := by
  induction cs with
  | nil => rfl
  | cons c cs ih =>
    rw [Text.escape, List.flatMap_cons, List.append_assoc, Text.unescape_escapeChar]
    exact congrArg (c :: ·) ih

/-- A text is pushed as it was before it was quoted. -/
theorem literal_quote (s : String) : literal (Text.quote s) = .ok (.quoted s) := by
  have hquote : (Text.quote s).toList.head? = some '"' := by simp [Text.quote]
  have hdecode : Text.decodeEscapes (Text.quote s) = Text.enquote s := by
    rw [Text.decodeEscapes, Text.quote, String.toList_ofList, Text.enquote]
    exact congrArg (fun cs ↦ String.ofList ('"' :: cs)) (unescape_escape_append s.toList ['"'])
  rw [literal, if_pos hquote, hdecode]
  rfl

theorem isPushable_quote (s : String) : IsPushable (Text.quote s) := ⟨_, literal_quote s⟩

theorem isPushable_of_looksNumeric_eq_false {x : String} (h : looksNumeric x.toList = false) :
    IsPushable x := by
  unfold IsPushable literal
  split
  · exact ⟨_, rfl⟩
  · simp [h]

theorem isPushable_of_read? {x : String} (h : (Number.read? x).isSome = true) : IsPushable x := by
  obtain ⟨y, hy⟩ := Option.isSome_iff_exists.mp h
  unfold IsPushable literal
  split
  · exact ⟨_, rfl⟩
  · split
    · exact ⟨_, by rw [hy]⟩
    · exact ⟨_, rfl⟩

theorem not_isDigit_of_isNameStart {c : Char} (h : Text.isNameStart c = true) :
    c.isDigit = false := by
  rw [Bool.eq_false_iff]
  intro hdigit
  have hrange : 48 ≤ c.toNat ∧ c.toNat ≤ 57 := by
    simp only [Char.isDigit, Bool.and_eq_true, decide_eq_true_eq, UInt32.le_iff_toNat_le,
      ge_iff_le] at hdigit
    exact hdigit
  simp only [Text.isNameStart, Text.isLetter, Bool.or_eq_true, beq_iff_eq] at h
  rcases h with h | rfl
  · rw [if_pos (by omega)] at h
    simp only [Char.isAlpha, Char.isUpper, Char.isLower, Bool.or_eq_true, Bool.and_eq_true,
      decide_eq_true_eq, UInt32.le_iff_toNat_le, ge_iff_le] at h
    change (65 ≤ c.toNat ∧ c.toNat ≤ 90) ∨ (97 ≤ c.toNat ∧ c.toNat ≤ 122) at h
    omega
  · exact absurd hdigit (by decide)

theorem IsName.isPushable {x : String} (h : IsName x) : IsPushable x := by
  obtain ⟨c, cs, hx, hc, -⟩ := h
  refine isPushable_of_looksNumeric_eq_false ?_
  have hdigit := not_isDigit_of_isNameStart hc
  have hminus : c ≠ '-' := by
    rintro rfl
    exact absurd hc (by decide)
  have hpoint : c ≠ '.' := by
    rintro rfl
    exact absurd hc (by decide)
  rw [hx]
  unfold looksNumeric
  split <;> simp_all

/-! ## Numbers -/

/-- Digits, and after them nothing or a point and more digits. -/
def IsPositional (cs : List Char) : Prop :=
  ∃ whole, whole ≠ [] ∧ (∀ c ∈ whole, c.isDigit = true) ∧
    (cs = whole ∨
      ∃ fraction, (∀ c ∈ fraction, c.isDigit = true) ∧ cs = whole ++ '.' :: fraction)

theorem isDigit_of_mem_digitChars {n : Nat} {c : Char} (h : c ∈ Number.digitChars n) :
    c.isDigit = true :=
  Nat.isDigit_of_mem_toDigits (by decide) (by decide) h

theorem digitChars_ne_nil (n : Nat) : Number.digitChars n ≠ [] := Nat.toDigits_ne_nil

theorem isPositional_digitChars (n : Nat) : IsPositional (Number.digitChars n) :=
  ⟨_, digitChars_ne_nil n, fun _ ↦ isDigit_of_mem_digitChars, .inl rfl⟩

theorem isDigit_of_mem_zeros (n : Nat) : ∀ c ∈ List.replicate n '0', c.isDigit = true := by
  intro c hc
  rw [List.eq_of_mem_replicate hc]
  rfl

theorem isPositional_positional (d : Number.Decimal) : IsPositional (Number.positional d) := by
  have hdigits (c : Char) (hc : c ∈ Number.digitChars d.digits) := isDigit_of_mem_digitChars hc
  unfold Number.positional
  simp only
  split
  · refine ⟨['0'], by simp, List.forall_mem_singleton.mpr rfl,
      .inr ⟨List.replicate (-d.point).toNat '0' ++ _, ?_, rfl⟩⟩
    exact List.forall_mem_append.mpr ⟨isDigit_of_mem_zeros _, hdigits⟩
  split
  · refine ⟨_, ?_, List.forall_mem_append.mpr ⟨hdigits, isDigit_of_mem_zeros _⟩, .inl rfl⟩
    simp [digitChars_ne_nil]
  · next hpoint hlength =>
    refine ⟨(Number.digitChars d.digits).take d.point.toNat, ?_,
      fun c hc ↦ hdigits c (List.mem_of_mem_take hc),
      .inr ⟨(Number.digitChars d.digits).drop d.point.toNat,
        fun c hc ↦ hdigits c (List.mem_of_mem_drop hc), by simp⟩⟩
    have hpos : 0 < d.point.toNat := by omega
    simp [digitChars_ne_nil, Nat.ne_of_gt hpos]

theorem takeWhile_append_of_all {p : Char → Bool} {xs : List Char} (h : ∀ x ∈ xs, p x = true)
    (ys : List Char) (hys : ∀ y ∈ ys.head?, p y = false) :
    (xs ++ ys).takeWhile p = xs ∧ (xs ++ ys).dropWhile p = ys := by
  have hys' : ys.takeWhile p = [] ∧ ys.dropWhile p = ys := by
    cases ys with
    | nil => simp
    | cons y ys => simp [hys y rfl]
  rw [List.takeWhile_append_of_pos h, List.dropWhile_append_of_pos h, hys'.1, hys'.2]
  simp

theorem readUnsigned?_whole {whole : List Char} (hne : whole ≠ [])
    (hwhole : ∀ c ∈ whole, c.isDigit = true) :
    Number.readUnsigned? whole = some (Number.ofDecimal (Number.digitsValue whole) 0) := by
  have hsplit := takeWhile_append_of_all hwhole [] (by simp)
  rw [List.append_nil] at hsplit
  simp [Number.readUnsigned?, hsplit, hne, Number.readExponent?]

theorem readUnsigned?_point {whole fraction : List Char} (hne : whole ≠ [])
    (hwhole : ∀ c ∈ whole, c.isDigit = true) (hfraction : ∀ c ∈ fraction, c.isDigit = true) :
    Number.readUnsigned? (whole ++ '.' :: fraction) =
      some (Number.ofDecimal (Number.digitsValue (whole ++ fraction)) (-fraction.length)) := by
  have hsplit := takeWhile_append_of_all hwhole ('.' :: fraction) (by simp)
  have hsplit' := takeWhile_append_of_all hfraction [] (by simp)
  rw [List.append_nil] at hsplit'
  simp [Number.readUnsigned?, hsplit, hsplit', hne, Number.readExponent?]

theorem IsPositional.isSome_readUnsigned? {cs : List Char} (h : IsPositional cs) :
    (Number.readUnsigned? cs).isSome = true := by
  obtain ⟨whole, hne, hwhole, rfl | ⟨fraction, hfraction, rfl⟩⟩ := h
  · rw [readUnsigned?_whole hne hwhole]
    rfl
  · rw [readUnsigned?_point hne hwhole hfraction]
    rfl

theorem IsPositional.exists_cons {cs : List Char} (h : IsPositional cs) :
    ∃ c ds, cs = c :: ds ∧ c.isDigit = true := by
  obtain ⟨whole, hne, hwhole, hcs⟩ := h
  obtain ⟨c, ds, rfl⟩ := List.exists_cons_of_ne_nil hne
  have hc := hwhole c List.mem_cons_self
  rcases hcs with rfl | ⟨fraction, -, rfl⟩
  · exact ⟨c, ds, rfl, hc⟩
  · exact ⟨c, ds ++ '.' :: fraction, rfl, hc⟩

theorem toLower_eq_of_isDigit {c : Char} (h : c.isDigit = true) : c.toLower = c := by
  have hrange : 48 ≤ c.toNat ∧ c.toNat ≤ 57 := by
    simp only [Char.isDigit, Bool.and_eq_true, decide_eq_true_eq, UInt32.le_iff_toNat_le,
      ge_iff_le] at h
    exact h
  have hupper : ¬(65 ≤ c.toNat ∧ c.toNat ≤ 90) := by omega
  unfold Char.toLower
  rw [dif_neg]
  simp only [UInt32.le_iff_toNat_le, ge_iff_le]
  exact hupper

/-- What starts with a digit, but for a minus, is read as a decimal and not as one of the words for
numbers. -/
theorem read?_eq_of_isDigit {c : Char} (hc : c.isDigit = true) (ds : List Char) (negative : Bool) :
    Number.read? (String.ofList ((if negative then ['-'] else []) ++ c :: ds)) =
      (Number.readUnsigned? (c :: ds)).map fun x ↦ if negative then -x else x := by
  have hsign : Number.readSign ((if negative then ['-'] else []) ++ c :: ds) =
      (negative, c :: ds) := by
    cases negative with
    | true => rfl
    | false =>
      unfold Number.readSign
      split
      · next heq =>
        obtain ⟨rfl, -⟩ := List.cons.inj heq
        exact absurd hc (by decide)
      · next heq =>
        obtain ⟨rfl, -⟩ := List.cons.inj heq
        exact absurd hc (by decide)
      · rfl
  have hword (d : Char) (word : List Char) (hd : d.isDigit = false) :
      String.ofList ((c :: ds).map Char.toLower) ≠ String.ofList (d :: word) := by
    intro heq
    rw [String.ofList_inj, List.map_cons, toLower_eq_of_isDigit hc] at heq
    obtain ⟨rfl, -⟩ := List.cons.inj heq
    simp [hc] at hd
  simp only [Number.read?, String.toList_ofList, hsign]
  refine congrArg (Option.map _) ?_
  split
  · next heq => exact absurd heq (hword 'i' ['n', 'f'] (by decide))
  · next heq => exact absurd heq (hword 'i' ['n', 'f', 'i', 'n', 'i', 't', 'y'] (by decide))
  · next heq => exact absurd heq (hword 'n' ['a', 'n'] (by decide))
  · rfl

theorem IsPositional.read?_eq {cs : List Char} (h : IsPositional cs) (negative : Bool) :
    Number.read? (String.ofList ((if negative then ['-'] else []) ++ cs)) =
      (Number.readUnsigned? cs).map fun x ↦ if negative then -x else x := by
  obtain ⟨c, ds, rfl, hc⟩ := h.exists_cons
  exact read?_eq_of_isDigit hc ds negative

theorem IsPositional.looksNumeric {cs : List Char} (h : IsPositional cs) (negative : Bool) :
    looksNumeric ((if negative then ['-'] else []) ++ cs) = true := by
  obtain ⟨c, ds, rfl, hc⟩ := h.exists_cons
  have hminus : c ≠ '-' := by
    rintro rfl
    exact absurd hc (by decide)
  have hpoint : c ≠ '.' := by
    rintro rfl
    exact absurd hc (by decide)
  unfold GemLang.looksNumeric
  cases negative <;> split <;> grind

theorem IsPositional.head?_ne {cs : List Char} (h : IsPositional cs) (negative : Bool) :
    ((if negative then ['-'] else []) ++ cs).head? ≠ some '"' := by
  obtain ⟨c, ds, rfl, hc⟩ := h.exists_cons
  have hquote : c ≠ '"' := by
    rintro rfl
    exact absurd hc (by decide)
  cases negative <;> simp [hquote]

theorem IsPositional.literal_eq {cs : List Char} (h : IsPositional cs) (negative : Bool) {x : Float}
    (hread : Number.read? (String.ofList ((if negative then ['-'] else []) ++ cs)) = some x) :
    literal (String.ofList ((if negative then ['-'] else []) ++ cs)) = .ok (.number x) := by
  rw [literal, hread, String.toList_ofList, if_neg (h.head?_ne negative),
    if_pos (h.looksNumeric negative)]

theorem IsPositional.isSome_read? {cs : List Char} (h : IsPositional cs) (negative : Bool) :
    (Number.read? (String.ofList ((if negative then ['-'] else []) ++ cs))).isSome = true := by
  rw [h.read?_eq, Option.isSome_map]
  exact h.isSome_readUnsigned?

/-- The text of a finite number is positional, with a minus in front of a negative one. -/
theorem textChars_finite {x : Float} {negative : Bool} {mantissa : Nat} {exponent : Int}
    (h : Number.parts x = .finite negative mantissa exponent) :
    ∃ cs, IsPositional cs ∧ Number.textChars x = (if negative then ['-'] else []) ++ cs := by
  refine ⟨_, ?_, by rw [Number.textChars, h]⟩
  split
  · exact ⟨['0'], by simp, List.forall_mem_singleton.mpr rfl, .inl rfl⟩
  · exact isPositional_positional _

/-- **A number that was written can be pushed.** -/
theorem isPushable_text (x : Float) : IsPushable (Number.text x) := by
  cases hparts : Number.parts x with
  | nan =>
    refine isPushable_of_looksNumeric_eq_false ?_
    simp [Number.text, Number.textChars, hparts, looksNumeric]
  | infinite negative =>
    refine isPushable_of_looksNumeric_eq_false ?_
    cases negative <;> simp [Number.text, Number.textChars, hparts, looksNumeric]
  | finite negative mantissa exponent =>
    obtain ⟨cs, hcs, htext⟩ := textChars_finite hparts
    refine isPushable_of_read? ?_
    rw [Number.text, htext]
    exact hcs.isSome_read? negative

/-- A character of a number: a digit, a sign, a point or one of the letters of a word. -/
def isNumberChar (c : Char) : Bool := c.isAlphanum || c == '-' || c == '.'

theorem isBareWord_of_isNumberChar {cs : List Char} (hne : cs ≠ [])
    (h : ∀ c ∈ cs, isNumberChar c = true) : IsBareWord (String.ofList cs) := by
  refine ⟨by simpa using hne, fun c hc ↦ ?_⟩
  rw [String.toList_ofList] at hc
  have hchar := h c hc
  simp only [isNumberChar, Bool.or_eq_true, beq_iff_eq] at hchar
  rcases hchar with (hchar | rfl) | rfl
  · refine ⟨isBlank_eq_false_of_isAlphanum hchar, ?_⟩
    rintro rfl
    exact absurd hchar (by decide)
  · decide
  · decide

theorem isNumberChar_of_isDigit {c : Char} (h : c.isDigit = true) : isNumberChar c = true := by
  simp [isNumberChar, Char.isAlphanum, h]

theorem IsPositional.isNumberChar {cs : List Char} (h : IsPositional cs) {c : Char}
    (hc : c ∈ cs) : isNumberChar c = true := by
  obtain ⟨whole, -, hwhole, rfl | ⟨fraction, hfraction, rfl⟩⟩ := h
  · exact isNumberChar_of_isDigit (hwhole c hc)
  · rcases List.mem_append.mp hc with hc | hc
    · exact isNumberChar_of_isDigit (hwhole c hc)
    · rcases List.mem_cons.mp hc with rfl | hc
      · decide
      · exact isNumberChar_of_isDigit (hfraction c hc)

theorem isNumberChar_of_mem_textChars {x : Float} {c : Char} (hc : c ∈ Number.textChars x) :
    isNumberChar c = true := by
  cases hparts : Number.parts x with
  | nan =>
    simp only [Number.textChars, hparts, List.mem_cons, List.not_mem_nil, or_false] at hc
    rcases hc with rfl | rfl | rfl <;> decide
  | infinite negative =>
    simp only [Number.textChars, hparts, List.mem_append] at hc
    rcases hc with hc | hc
    · cases negative <;> simp_all [isNumberChar]
    · simp only [List.mem_cons, List.not_mem_nil, or_false] at hc
      rcases hc with rfl | rfl | rfl <;> decide
  | finite negative mantissa exponent =>
    obtain ⟨cs, hcs, htext⟩ := textChars_finite hparts
    rw [htext] at hc
    rcases List.mem_append.mp hc with hc | hc
    · cases negative <;> simp_all [isNumberChar]
    · exact hcs.isNumberChar hc

theorem textChars_ne_nil (x : Float) : Number.textChars x ≠ [] := by
  cases hparts : Number.parts x with
  | nan => simp [Number.textChars, hparts]
  | infinite negative => simp [Number.textChars, hparts]
  | finite negative mantissa exponent =>
    obtain ⟨cs, hcs, htext⟩ := textChars_finite hparts
    obtain ⟨d, ds, rfl, -⟩ := hcs.exists_cons
    simp [htext]

theorem isWord_text (x : Float) : IsWord (Number.text x) :=
  .inl (isBareWord_of_isNumberChar (textChars_ne_nil x) fun _ ↦ isNumberChar_of_mem_textChars)

/-! ## Counts and hidden names -/

theorem isWord_toString (n : Nat) : IsWord (toString n) := by
  rw [Nat.toString_eq_ofList_toDigits]
  exact .inl (isBareWord_of_isNumberChar Nat.toDigits_ne_nil
    fun _ hc ↦ isNumberChar_of_isDigit (isDigit_of_mem_digitChars hc))

theorem digitsValue_digitChars (n : Nat) : Number.digitsValue (Number.digitChars n) = n :=
  Nat.ofDigitChars_ten_toDigits

theorem literal_toString (n : Nat) :
    literal (toString n) = .ok (.number (Number.ofDecimal n 0)) := by
  have hpositional := isPositional_digitChars n
  have hread := hpositional.read?_eq false
  rw [readUnsigned?_whole (digitChars_ne_nil n) fun _ ↦ isDigit_of_mem_digitChars,
    digitsValue_digitChars] at hread
  rw [Nat.toString_eq_ofList_toDigits]
  exact hpositional.literal_eq false hread

theorem isPushable_toString (n : Nat) : IsPushable (toString n) := ⟨_, literal_toString n⟩

/-- A count that was written is read back, if it is in range. -/
theorem keyCount?_toString (n : Nat) :
    keyCount? (toString n) = if n < UInt64.size then some n else none := by
  have hdigits : ∀ c ∈ Number.digitChars n, c.isDigit = true := fun _ ↦ isDigit_of_mem_digitChars
  have htext : (toString n).toList = Number.digitChars n := by
    rw [Nat.toString_eq_ofList_toDigits, String.toList_ofList, Number.digitChars]
  obtain ⟨d, ds, hcs⟩ := List.exists_cons_of_ne_nil (digitChars_ne_nil n)
  have hvalue := digitsValue_digitChars n
  rw [hcs] at htext hdigits hvalue
  obtain ⟨hd, hds⟩ := List.forall_mem_cons.mp hdigits
  have hplus : d ≠ '+' := by
    rintro rfl
    simp at hd
  simp only [keyCount?, htext]
  simp +contextual [hplus, hvalue, hd, hds]

theorem hiddenName_eq (n : Nat) : Lower.hiddenName n = String.ofList ('0' :: 'x' ::
    (List.replicate (8 - (Nat.toDigits 10 n).length) '0' ++ Nat.toDigits 10 n ++ ['b'])) := by
  refine String.toList_injective ?_
  simp [Lower.hiddenName]

/-- A hidden name starts with a digit. -/
theorem not_isName_hiddenName (n : Nat) : ¬IsName (Lower.hiddenName n) := by
  have hstart : Text.isNameStart '0' = false := by decide
  rw [hiddenName_eq, isName_iff, String.toList_ofList, isNameChars, hstart, Bool.false_and]
  exact Bool.false_ne_true

theorem isWord_hiddenName (n : Nat) : IsWord (Lower.hiddenName n) := by
  rw [hiddenName_eq]
  refine .inl (isBareWord_of_isNumberChar (by simp) ?_)
  simp only [List.forall_mem_cons, List.forall_mem_append]
  refine ⟨by decide, by decide, ⟨?_, ?_⟩, by decide, by simp⟩
  · intro c hc
    rw [List.eq_of_mem_replicate hc]
    decide
  · intro c hc
    exact isNumberChar_of_isDigit (isDigit_of_mem_digitChars hc)

/-! ## Libraries -/

/-- The path of a library that can be written as an operand: it is not empty, and has no quote
unless it has a blank too. -/
def IsLibraryText (path : String) : Prop :=
  path ≠ "" ∧ ((∃ c ∈ path.toList, Text.isBlank c = true) ∨ '"' ∉ path.toList)

theorem isWord_libraryOperand {path : String} (h : IsLibraryText path) :
    IsWord (Lower.libraryOperand path) := by
  obtain ⟨hne, htext⟩ := h
  unfold Lower.libraryOperand
  split
  · exact .inr ⟨path, rfl⟩
  · next hblank =>
    simp only [List.any_eq_true, not_exists, not_and] at hblank
    refine .inl ⟨by simpa using hne, fun c hc ↦ ⟨by simpa using hblank c hc, ?_⟩⟩
    rintro rfl
    rcases htext with ⟨d, hd, hd'⟩ | hquote
    · exact hblank d hd hd'
    · exact hquote hc

end GemLang
