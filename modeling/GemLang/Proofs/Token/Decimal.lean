import GemLang.Proofs.Compile.Literal
import GemLang.Proofs.Syntax.Consumed

/-!
# Number tokens are numbers

A number token with its underscores taken out is a decimal: digits, with a fraction and an exponent
if it has them, and no run of digits is empty. This rests on what the scanner looks ahead for: it
begins a run only where the next character is a digit, so there is no run of underscores alone,
although they may stand almost anywhere else.

A decimal is read as some number. So every number token is, and the parser, which could find fault
with one that is not, never does (`number_tokens_are_numbers`).
-/

namespace GemLang

/-! ## Decimals -/

/-- A run of digits, of one at least. -/
def IsDigits (cs : List Char) : Prop := cs ≠ [] ∧ ∀ c ∈ cs, c.isDigit = true

/-- The fraction of a decimal: none, or a point and digits. -/
inductive IsFraction : List Char → Prop where
  | none : IsFraction []
  | point {ds : List Char} (hdigits : IsDigits ds) : IsFraction ('.' :: ds)

/-- The exponent of a decimal: none, or a letter `e`, a sign or none, and digits. -/
inductive IsExponent : List Char → Prop where
  | none : IsExponent []
  | unsigned {e : Char} {ds : List Char} (he : e = 'e' ∨ e = 'E') (hdigits : IsDigits ds) :
      IsExponent (e :: ds)
  | signed {e sign : Char} {ds : List Char} (he : e = 'e' ∨ e = 'E')
      (hsign : sign = '+' ∨ sign = '-') (hdigits : IsDigits ds) : IsExponent (e :: sign :: ds)

/-- A decimal without a sign: digits, a fraction and an exponent. -/
inductive IsDecimal : List Char → Prop where
  | mk {whole fraction exponent : List Char} (hwhole : IsDigits whole)
      (hfraction : IsFraction fraction) (hexponent : IsExponent exponent) :
      IsDecimal (whole ++ (fraction ++ exponent))

theorem IsDigits.exists_cons {cs : List Char} (h : IsDigits cs) :
    ∃ c ds, cs = c :: ds ∧ c.isDigit = true := by
  obtain ⟨c, ds, rfl⟩ := List.exists_cons_of_ne_nil h.1
  exact ⟨c, ds, rfl, h.2 c List.mem_cons_self⟩

theorem ne_of_isDigit {c d : Char} (hc : c.isDigit = true) (hd : d.isDigit = false) : c ≠ d := by
  rintro rfl
  rw [hc] at hd
  cases hd

/-! ## Reading -/

theorem readSign_digits {ds : List Char} (h : IsDigits ds) : Number.readSign ds = (false, ds) := by
  obtain ⟨c, cs, rfl, hc⟩ := h.exists_cons
  unfold Number.readSign
  split
  · next heq => exact absurd (List.cons.inj heq).1 (ne_of_isDigit hc (by decide))
  · next heq => exact absurd (List.cons.inj heq).1 (ne_of_isDigit hc (by decide))
  · rfl

theorem IsExponent.exists_readExponent? {cs : List Char} (h : IsExponent cs) :
    ∃ n, Number.readExponent? cs = some n := by
  cases h with
  | none => exact ⟨0, rfl⟩
  | unsigned he hdigits =>
    have hall := List.all_eq_true.mpr hdigits.2
    simp [Number.readExponent?, he, readSign_digits hdigits, hdigits.1, hall]
  | @signed e sign ds he hsign hdigits =>
    obtain ⟨negative, hread⟩ : ∃ negative, Number.readSign (sign :: ds) = (negative, ds) := by
      rcases hsign with rfl | rfl
      · exact ⟨false, rfl⟩
      · exact ⟨true, rfl⟩
    have hall := List.all_eq_true.mpr hdigits.2
    simp [Number.readExponent?, he, hread, hdigits.1, hall]

/-- An exponent starts with no digit and no point, so digits in front of it end there. -/
theorem IsExponent.head_ne {cs : List Char} (h : IsExponent cs) :
    ∀ c ∈ cs.head?, c.isDigit = false ∧ c ≠ '.' := by
  intro c hc
  cases h with
  | none => cases hc
  | unsigned he _ | signed he _ _ =>
    obtain rfl := Option.some.inj hc
    rcases he with rfl | rfl <;> decide

theorem IsDecimal.exists_cons {cs : List Char} (h : IsDecimal cs) :
    ∃ c ds, cs = c :: ds ∧ c.isDigit = true := by
  obtain ⟨hwhole, -, -⟩ := h
  obtain ⟨c, ds, rfl, hc⟩ := hwhole.exists_cons
  exact ⟨c, _, List.cons_append, hc⟩

theorem IsDecimal.exists_readUnsigned? {cs : List Char} (h : IsDecimal cs) :
    ∃ x, Number.readUnsigned? cs = some x := by
  obtain @⟨whole, fraction, exponent, hwhole, hfraction, hexponent⟩ := h
  obtain ⟨n, hread⟩ := hexponent.exists_readExponent?
  have hdigit (c : Char) (hc : c ∈ exponent.head?) := (hexponent.head_ne c hc).1
  cases hfraction with
  | none =>
    have hsplit := takeWhile_append_of_all hwhole.2 exponent hdigit
    simp only [List.nil_append, Number.readUnsigned?, hsplit]
    split
    · exact absurd rfl (hexponent.head_ne '.' rfl).2
    · simp [hwhole.1, hread]
  | @point ds hdigits =>
    have hsplit := takeWhile_append_of_all hwhole.2 ('.' :: (ds ++ exponent)) (by simp)
    have hsplit' := takeWhile_append_of_all hdigits.2 exponent hdigit
    simp [Number.readUnsigned?, hsplit, hsplit', hwhole.1, hread]

/-- **A decimal is read as a number.** -/
theorem IsDecimal.exists_read? {cs : List Char} (h : IsDecimal cs) :
    ∃ x, Number.read? (String.ofList cs) = some x := by
  obtain ⟨x, hx⟩ := h.exists_readUnsigned?
  obtain ⟨c, ds, rfl, hc⟩ := h.exists_cons
  have hread := read?_eq_of_isDigit hc ds false
  rw [hx] at hread
  exact ⟨x, hread⟩

/-! ## Scanning -/

/-- A text without its underscores. -/
def ungrouped (cs : List Char) : List Char := cs.filter (· != '_')

theorem ungrouped_append (cs ds : List Char) :
    ungrouped (cs ++ ds) = ungrouped cs ++ ungrouped ds := List.filter_append ..

theorem ungrouped_cons {c : Char} (hc : c ≠ '_') (cs : List Char) :
    ungrouped (c :: cs) = c :: ungrouped cs := List.filter_cons_of_pos (by simpa using hc)

theorem exists_cons_of_any_head? {cs : List Char} (h : cs.head?.any Char.isDigit = true) :
    ∃ c ds, cs = c :: ds ∧ c.isDigit = true := by
  cases cs with
  | nil => cases h
  | cons c ds => exact ⟨c, ds, rfl, h⟩

/-- A run that starts with a digit has digits when its underscores are taken out. -/
theorem isDigits_ungrouped {c : Char} (hc : c.isDigit = true) (cs : List Char) :
    IsDigits (ungrouped ((c :: cs).takeWhile isDigitOrGap)) := by
  constructor
  · rw [List.takeWhile_cons_of_pos (by simp [isDigitOrGap, hc]),
      ungrouped_cons (ne_of_isDigit hc (by decide))]
    exact List.cons_ne_nil _ _
  · intro d hd
    obtain ⟨hrun, hgap⟩ := List.mem_filter.mp hd
    have hdigit := List.all_eq_true.mp List.all_takeWhile d hrun
    simp only [isDigitOrGap, Bool.or_eq_true, beq_iff_eq] at hdigit
    exact hdigit.resolve_right (by simpa using hgap)

theorem isExponent_ungrouped (cs : List Char) : IsExponent (ungrouped (cutExponent cs).1) := by
  unfold cutExponent
  split
  · next e d more =>
    split
    · next he =>
      have hletter : e ≠ '_' := by rcases he with rfl | rfl <;> decide
      split
      · next hd =>
        rw [ungrouped_cons hletter]
        exact .unsigned he (isDigits_ungrouped hd more)
      split
      · next hsigned =>
        obtain ⟨hsign, hmore⟩ := hsigned
        have hd : d ≠ '_' := by rcases hsign with rfl | rfl <;> decide
        obtain ⟨c, ds, rfl, hc⟩ := exists_cons_of_any_head? hmore
        rw [ungrouped_cons hletter, ungrouped_cons hd]
        exact .signed he hsign (isDigits_ungrouped hc ds)
      · exact .none
    · exact .none
  · exact .none

/-- A number as it stands in a text in front of `rest`. -/
structure IsNumber (text rest : List Char) : Prop where
  first : ∃ c ds, text = c :: ds ∧ c.isDigit = true
  last : text.getLast? ≠ some '_'
  apart : ∀ c ∈ rest.head?, Text.isAlphanumeric c = false ∧ c ≠ '.'
  decimal : IsDecimal (ungrouped text)

theorem finishNumber_of_piece {text rest : List Char}
    (h : (finishNumber text rest).piece = .token .number) :
    finishNumber text rest = ⟨.token .number, text, rest⟩ ∧ text.getLast? ≠ some '_' ∧
      ∀ c ∈ rest.head?, Text.isAlphanumeric c = false ∧ c ≠ '.' := by
  unfold finishNumber at h ⊢
  split at h
  · cases h
  · next hgood =>
    rw [if_neg hgood]
    simp only [Bool.or_eq_true, beq_iff_eq, not_or, Bool.not_eq_true] at hgood
    refine ⟨rfl, hgood.2, fun c hc ↦ ?_⟩
    have hglued := hgood.1
    rw [Option.mem_def.mp hc, Option.any_some] at hglued
    simpa [isGlued] using hglued

theorem isNumber_numberTail {text rest whole fraction : List Char}
    (hfirst : ∃ c ds, text = c :: ds ∧ c.isDigit = true)
    (hparts : ungrouped text = whole ++ fraction) (hwhole : IsDigits whole)
    (hfraction : IsFraction fraction) (h : (numberTail text rest).piece = .token .number) :
    IsNumber (numberTail text rest).text (numberTail text rest).rest := by
  obtain ⟨hfinish, hlast, happart⟩ := finishNumber_of_piece h
  obtain ⟨c, ds, rfl, hc⟩ := hfirst
  rw [numberTail, hfinish]
  refine ⟨⟨c, _, List.cons_append, hc⟩, hlast, happart, ?_⟩
  rw [ungrouped_append, hparts, List.append_assoc]
  exact .mk hwhole hfraction (isExponent_ungrouped rest)

theorem isNumber_numberLexeme {c : Char} {cs : List Char} (hc : c.isDigit = true)
    (h : (numberLexeme (c :: cs)).piece = .token .number) :
    IsNumber (numberLexeme (c :: cs)).text (numberLexeme (c :: cs)).rest := by
  have hwhole := isDigits_ungrouped hc cs
  have hrun : (c :: cs).takeWhile isDigitOrGap = c :: cs.takeWhile isDigitOrGap :=
    List.takeWhile_cons_of_pos (by simp [isDigitOrGap, hc])
  rw [hrun] at hwhole
  revert h
  unfold numberLexeme
  rw [hrun]
  dsimp only
  split
  · next more _ =>
    split
    · next hmore =>
      obtain ⟨d, ds, rfl, hd⟩ := exists_cons_of_any_head? hmore
      refine isNumber_numberTail ⟨c, _, List.cons_append, hc⟩ ?_ hwhole
        (.point (isDigits_ungrouped hd ds))
      have hpoint : '.' ≠ '_' := by decide
      rw [ungrouped_append, ungrouped_cons hpoint]
    · intro h
      cases h
  · exact isNumber_numberTail ⟨c, _, rfl, hc⟩ (List.append_nil _).symm hwhole .none

/-! ## Number tokens -/

theorem lexeme_of_isDigit {c : Char} (hc : c.isDigit = true) (cs : List Char) :
    lexeme c cs = numberLexeme (c :: cs) := by
  have hhash : c ≠ '#' := ne_of_isDigit hc (by decide)
  have hdelimiter : isTextDelimiter c = false := by
    simp [isTextDelimiter, ne_of_isDigit hc]
  rw [lexeme, if_neg (by simp [isBlank_eq_false_of_isDigit hc]), if_neg fun h ↦ hhash h.1,
    if_neg (by simp [hdelimiter]), if_pos hc]

/-- **A number token is a number, at the place where it stands.** -/
theorem isNumber_of_mem_scan {source : String} {t : Token} (ht : t ∈ scan source)
    (hkind : t.kind = .number) :
    ∃ before rest, source.toList = before ++ (t.text.toList ++ rest) ∧
      t.position = Position.start.after before ∧ IsNumber t.text.toList rest := by
  obtain ⟨before, c, ds, hsource, hpiece, htext, hposition⟩ :=
    isCutFrom_of_mem_scanFrom ht (by simp [hkind])
  rw [hkind] at hpiece
  have hc := isDigit_of_piece_lexeme hpiece
  have hlexeme := lexeme_of_isDigit hc ds
  refine ⟨before, (lexeme c ds).rest, ?_, hposition, ?_⟩
  · rw [htext, String.toList_ofList, lexeme_append, hsource]
  · rw [hlexeme] at hpiece
    rw [htext, String.toList_ofList, hlexeme]
    exact isNumber_numberLexeme hc hpiece

/-! Underscores alone are no digits of an exponent, so here they are glued to the number. -/

example : (scan "1e_5").map (·.kind) = [.error .badNumber, .eof] := by cbv

/-- **Every number token is a number, so it can be read, and the parser never finds fault with
one.** The token starts with a digit, does not end in an underscore, and no letter, numeral or point
follows it. Without its underscores it is a decimal, with digits in each of its parts. -/
theorem number_tokens_are_numbers (source : String) :
    (∀ t ∈ scan source, t.kind = .number →
      (∃ before rest, source.toList = before ++ (t.text.toList ++ rest) ∧
        t.position = Position.start.after before ∧ IsNumber t.text.toList rest) ∧
      ∃ x, numberValue? t.text = some x) ∧
    ∀ file name line column,
      parseSource source file ≠ .error (.parse name line column .badNumber) := by
  have hread {t : Token} (ht : t ∈ scan source) (hkind : t.kind = .number) :
      ∃ x, numberValue? t.text = some x := by
    obtain ⟨before, rest, -, -, hnumber⟩ := isNumber_of_mem_scan ht hkind
    exact hnumber.decimal.exists_read?
  refine ⟨fun t ht hkind ↦ ⟨isNumber_of_mem_scan ht hkind, hread ht hkind⟩, ?_⟩
  intro file name line column hrefused
  obtain ⟨t, ht, hkind, hunread⟩ := exists_isUnreadable hrefused
  obtain ⟨x, hx⟩ := hread ht hkind
  rw [hunread] at hx
  cases hx

/-- A number with underscores almost anywhere. -/
theorem number_tokens_are_numbers_grouped :
    (⟨.number, "1_.5_0_e-1__0", .start⟩ : Token) ∈ scan "1_.5_0_e-1__0;" ∧
      IsDecimal (ungrouped "1_.5_0_e-1__0".toList) ∧
      ∃ x, numberValue? "1_.5_0_e-1__0" = some x := by
  have htoken : (⟨.number, "1_.5_0_e-1__0", .start⟩ : Token) ∈ scan "1_.5_0_e-1__0;" := by
    have hscan : scan "1_.5_0_e-1__0;" = [⟨.number, "1_.5_0_e-1__0", .start⟩,
        ⟨.semicolon, ";", ⟨1, 14⟩⟩, ⟨.eof, "", ⟨1, 15⟩⟩] := by cbv
    rw [hscan]
    exact List.mem_cons_self
  obtain ⟨⟨before, rest, -, -, hnumber⟩, hread⟩ :=
    (number_tokens_are_numbers "1_.5_0_e-1__0;").1 _ htoken rfl
  exact ⟨htoken, hnumber.decimal, hread⟩

end GemLang
