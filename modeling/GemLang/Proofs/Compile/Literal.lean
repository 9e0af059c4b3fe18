import GemLang.Proofs.Machine.Folding
import GemLang.Proofs.Number.Overflow
import GemLang.Proofs.Token.Placed

/-!
# Number literals arrive

A number literal is written three times: in the source text, where underscores group its digits and
an exponent may follow; in bytecode, in positional notation; and it becomes a value when the machine
reads the operand. Along the way a constant may be computed from it.

A finite number arrives as it is. A literal that is too large is read as infinity, whose text is a
word and no longer a number, so that the machine takes it for a bare word
(`literals_arrive_iff_finite`). The same holds of a computed constant, and the only constants that
are not finite are such literals, with signs in front.
-/

namespace GemLang

open Bytecode

/-! ## Number tokens -/

theorem isDigit_of_piece_lexeme {c : Char} {cs : List Char}
    (h : (lexeme c cs).piece = .token .number) : c.isDigit = true := by
  by_contra hdigit
  have hother {x : Lexeme} (hx : ∃ kind, x.piece = .token kind ∧ kind ≠ .number) :
      x.piece ≠ .token .number := by
    obtain ⟨kind, hpiece, hkind⟩ := hx
    rw [hpiece]
    simpa using hkind
  revert h
  -- the case of a number is gone, since `c` is no digit
  rw [lexeme, if_neg hdigit]
  split
  · simp
  split
  · unfold commentLexeme
    split
    · split <;> simp
    · simp
  split
  · unfold textLexeme
    split <;> simp
  split
  · unfold minusLexeme
    split
    · simp
    · exact hother (exists_symbolLexeme _ (by decide) (by decide))
  split
  · refine hother ⟨_, rfl, ?_⟩
    exact ofWord_of_keywords (P := (· ≠ .number)) (by decide) (by decide) _
  · exact hother (exists_otherLexeme (by decide) (by decide) (by simp) c cs)

theorem exists_digit_of_mem_scanFrom {p : Position} {cs : List Char} {t : Token}
    (ht : t ∈ scanFrom p cs) (hkind : t.kind = .number) :
    ∃ c ds, t.text = String.ofList (c :: ds) ∧ c.isDigit = true := by
  obtain ⟨before, c, ds, -, hpiece, htext, -⟩ :=
    isCutFrom_of_mem_scanFrom ht (by simp [hkind])
  obtain ⟨es, hstart⟩ := exists_text_lexeme c ds
  rw [hkind] at hpiece
  exact ⟨c, es, by rw [htext, hstart], isDigit_of_piece_lexeme hpiece⟩

theorem exists_ofDecimal_of_readUnsigned? {cs : List Char} {x : Float}
    (h : Number.readUnsigned? cs = some x) : ∃ digits e, x = Number.ofDecimal digits e := by
  simp only [Number.readUnsigned?, Option.ite_none_left_eq_some, Option.map_eq_some_iff] at h
  obtain ⟨-, e, -, rfl⟩ := h
  exact ⟨_, _, rfl⟩

/-- **A number token is read as a finite number or as infinity.** -/
theorem isFinite_or_eq_infinity_of_mem_scan {source : String} {t : Token} (ht : t ∈ scan source)
    (hkind : t.kind = .number) {x : Float} (hx : numberValue? t.text = some x) :
    x.isFinite = true ∨ x = Number.infinity := by
  obtain ⟨c, ds, htext, hc⟩ := exists_digit_of_mem_scanFrom ht hkind
  have hgap : c ≠ '_' := by
    rintro rfl
    exact absurd hc (by decide)
  have hfilter : (c :: ds).filter (· != '_') = c :: ds.filter (· != '_') := by simp [hgap]
  rw [numberValue?, htext, String.toList_ofList, hfilter] at hx
  have hread := read?_eq_of_isDigit hc (ds.filter (· != '_')) false
  simp only [Bool.false_eq_true, ↓reduceIte, List.nil_append, Option.map_id_fun', id_eq] at hread
  rw [hread] at hx
  obtain ⟨digits, e, rfl⟩ := exists_ofDecimal_of_readUnsigned? hx
  cases hfinite : (Number.ofDecimal digits e).isFinite with
  | true => exact .inl rfl
  | false => exact .inr (Number.ofDecimal_eq_infinity hfinite)

/-! ## Constants -/

/-- A number literal with signs in front. -/
inductive Expr.IsSigned (y : Float) : Expr → Prop where
  | number : IsSigned y (.number y)
  | negate {operand : Expr} (h : IsSigned y operand) : IsSigned y (.unary .negate operand)

/-- What is computed is finite. A sign is put in front of any literal, though. -/
theorem isFinite_or_isSigned_of_constant? {e : Expr} {x : Float} (h : e.constant? = some x) :
    x.isFinite = true ∨ ∃ y : Float, y.isFinite = false ∧ e.IsSigned y := by
  fun_induction Expr.constant? e generalizing x with
  | case1 value =>
    cases hvalue : value.isFinite with
    | true =>
      cases h
      exact .inl hvalue
    | false => exact .inr ⟨value, hvalue, .number⟩
  | case2 operand ih =>
    obtain ⟨y, hy, rfl⟩ := Option.map_eq_some_iff.mp h
    rcases ih hy with hfinite | ⟨z, hz, hsigned⟩
    · exact .inl (Number.isFinite_zero_sub hfinite)
    · exact .inr ⟨z, hz, .negate hsigned⟩
  | case3 op left right a b ha hb => exact .inl (binary_of_compute? h).2
  | case4 | case5 => cases h

/-! ## Operands -/

theorem isFinite_of_parts {x : Float} {negative : Bool} {mantissa : Nat} {exponent : Int}
    (h : Number.parts x = .finite negative mantissa exponent) : x.isFinite = true := by
  by_cases hzero : mantissa = 0
  · subst hzero
    rw [Number.eq_of_parts_zero h]
    cases negative <;> decide +kernel
  · have hb := Number.isBinary_of_parts h hzero
    rw [Number.eq_of_parts h hb]
    exact congrArg Float.Model.UnpackedFloat.isFinite (hb.unpack_pack _)

/-- The text of what is not a finite number is a word. -/
theorem literal_text_of_not_isFinite {x : Float} (h : x.isFinite = false) :
    literal (Number.text x) = .ok (.text (Number.text x)) := by
  have hword {cs : List Char} (hcs : Number.textChars x = cs) (hquote : cs.head? ≠ some '"')
      (hnumeric : looksNumeric cs = false) :
      literal (Number.text x) = .ok (.text (Number.text x)) := by
    rw [literal, Number.text, hcs, String.toList_ofList, if_neg hquote, hnumeric]
    rfl
  cases hparts : Number.parts x with
  | nan => exact hword (by rw [Number.textChars, hparts]) (by decide) (by decide)
  | infinite negative =>
    refine hword (by rw [Number.textChars, hparts]) ?_ ?_ <;> cases negative <;> decide
  | finite negative mantissa exponent =>
    rw [isFinite_of_parts hparts] at h
    cases h

/-- **A number literal arrives exactly if it is finite**, and so does a constant that is computed
when a program is compiled. A number token is read as a finite number, or as infinity when it is too
large; infinity then arrives as the bare word `inf`. A constant that is not finite is such a
literal with signs in front. -/
theorem literals_arrive_iff_finite (source : String) :
    (∀ t ∈ scan source, t.kind = .number → ∀ x, numberValue? t.text = some x → ∀ optimize n,
      codeOf (Lower.expr optimize (.number x) n).1 = [.op .push, .operand (Number.text x)] ∧
        (x.isFinite = true ∧ literal (Number.text x) = .ok (.number x) ∨
          x = Number.infinity ∧ literal (Number.text x) = .ok (.text "inf"))) ∧
      ∀ e x, Expr.constant? e = some x → ∀ n,
        codeOf (Lower.expr true e n).1 = [.op .push, .operand (Number.text x)] ∧
          (x.isFinite = true ∧ literal (Number.text x) = .ok (.number x) ∨
            x.isFinite = false ∧ literal (Number.text x) = .ok (.text (Number.text x)) ∧
              ∃ y : Float, y.isFinite = false ∧ e.IsSigned y) := by
  constructor
  · intro t ht hkind x hx optimize n
    refine ⟨by rw [Lower.expr]; rfl, ?_⟩
    rcases isFinite_or_eq_infinity_of_mem_scan ht hkind hx with hfinite | rfl
    · exact .inl ⟨hfinite, literal_text hfinite⟩
    · have htext : Number.text Number.infinity = "inf" := by decide +kernel
      have hword := literal_text_of_not_isFinite (x := Number.infinity) (by decide +kernel)
      exact .inr ⟨rfl, htext ▸ hword⟩
  · intro e x h n
    refine ⟨by rw [Lower.lines_constant h]; rfl, ?_⟩
    cases hfinite : x.isFinite with
    | true => exact .inl ⟨rfl, literal_text hfinite⟩
    | false =>
      have hsigned := isFinite_or_isSigned_of_constant? h
      rw [hfinite] at hsigned
      exact .inr ⟨rfl, literal_text_of_not_isFinite hfinite, hsigned.resolve_left (by simp)⟩

/-- A literal with an underscore and an exponent, and a sum that is computed from it. -/
theorem literals_arrive_grouped :
    numberValue? "1_0e1" = some 100 ∧ literal (Number.text 100) = .ok (.number 100) ∧
      (Expr.binary .add (.number 100) (.number 1)).constant? = some 101 ∧
      literal (Number.text 101) = .ok (.number 101) := by
  have htoken : (⟨.number, "1_0e1", .start⟩ : Token) ∈ scan "1_0e1" := by
    have hscan : scan "1_0e1" = [⟨.number, "1_0e1", .start⟩, ⟨.eof, "", ⟨1, 6⟩⟩] := by cbv
    rw [hscan]
    exact List.mem_cons_self
  have hvalue : numberValue? "1_0e1" = some 100 := by decide +kernel
  have hconstant : (Expr.binary .add (.number 100) (.number 1)).constant? = some 101 := by
    decide +kernel
  have hfinite : (100 : Float).isFinite = true ∧ (101 : Float).isFinite = true := by decide +kernel
  have hinfinite : (100 : Float) ≠ Number.infinity := by decide +kernel
  obtain ⟨hliterals, hconstants⟩ := literals_arrive_iff_finite "1_0e1"
  obtain ⟨-, hliteral⟩ := hliterals _ htoken rfl 100 hvalue true 0
  obtain ⟨-, hsum⟩ := hconstants _ 101 hconstant 0
  refine ⟨hvalue, (hliteral.resolve_right fun h ↦ hinfinite h.1).2, hconstant, ?_⟩
  exact (hsum.resolve_right fun h ↦ by simp [hfinite.2] at h).2

/-- A literal that is too large arrives as a bare word. -/
theorem large_literal_arrives_as_word :
    ¬∀ (source : String), ∀ t ∈ scan source, t.kind = .number →
      ∀ x, numberValue? t.text = some x → literal (Number.text x) = .ok (.number x) := by
  intro h
  have hscan : scan "1e999" = [⟨.number, "1e999", .start⟩, ⟨.eof, "", ⟨1, 6⟩⟩] := by cbv
  have htoken : (⟨.number, "1e999", .start⟩ : Token) ∈ scan "1e999" := by
    rw [hscan]
    exact List.mem_cons_self
  have hvalue : numberValue? "1e999" = some Number.infinity := by decide +kernel
  have hnumber := h "1e999" _ htoken rfl Number.infinity hvalue
  have hword := literal_text_of_not_isFinite (x := Number.infinity) (by decide +kernel)
  rw [hword] at hnumber
  cases hnumber

end GemLang
