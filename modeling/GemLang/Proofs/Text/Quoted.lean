import GemLang.Proofs.Bytecode.Layout
import GemLang.Proofs.Compile.Operand
import GemLang.Token.Lexeme

/-!
# One way of quoting, four readers

Quoted text is written in one way and read in four places: where bytecode is cut into words, where a
literal is pushed, where a source text is cut into tokens, and where the text of a string literal is
taken out of its token. Each of them goes through the characters by itself and has its own idea of
what a backslash does. They agree on all that quoting writes.

The reason is the same for all of them. Escaping writes every character either as itself, and then
it is neither a quote nor a backslash, or as a backslash with one more character behind it. A reader
that steps over one such piece at a time comes to the closing quote just when the text is over.
-/

namespace GemLang

open Bytecode

/-! ## String literals -/

/-- An escaped character neither closes a string literal nor leaves a backslash for what follows. -/
theorem cutText_escapeChar_append (c : Char) {cs text rest : List Char}
    (h : cutText '"' cs = some (text, rest)) :
    cutText '"' (Text.escapeChar c ++ cs) = some (Text.escapeChar c ++ text, rest) := by
  unfold Text.escapeChar
  split
  case h_7 hquote hbackslash _ _ _ _ =>
    rw [List.cons_append, List.nil_append, cutText, if_neg hquote, h]
    · rfl
    · exact fun hc _ ↦ hbackslash hc
    · exact fun _ _ hc ↦ absurd hc hbackslash
  all_goals simp [cutText, h]

theorem cutText_escape_append (cs rest : List Char) :
    cutText '"' (Text.escape cs ++ '"' :: rest) = some (Text.escape cs ++ ['"'], rest) := by
  induction cs with
  | nil =>
    rw [Text.escape, List.flatMap_nil, List.nil_append, cutText, if_pos rfl]
    · rfl
    · simp
    · simp
  | cons c cs ih =>
    have hescape : Text.escape (c :: cs) = Text.escapeChar c ++ Text.escape cs := rfl
    rw [hescape, List.append_assoc, cutText_escapeChar_append c ih, List.append_assoc]

theorem scan_quote (s : String) :
    scan (Text.quote s) =
      [⟨.text, Text.quote s, .start⟩, ⟨.eof, "", Position.start.after (Text.quote s).toList⟩] := by
  have hlexeme : lexeme '"' (Text.escape s.toList ++ ['"']) =
      ⟨.token .text, (Text.quote s).toList, []⟩ := by
    have hcut := cutText_escape_append s.toList []
    rw [lexeme, if_neg (by decide), if_neg (by simp), if_pos (by decide), textLexeme, hcut,
      toList_quote]
  rw [scan, toList_quote, scanFrom, hlexeme, ← toList_quote]
  dsimp only
  rw [String.ofList_toList, scanFrom]

theorem literalText_quote (s : String) : Text.literalText (Text.quote s) = s := by
  rw [Text.literalText, toList_quote, List.drop_one, List.tail_cons, List.dropLast_concat,
    Text.unescape_escape, String.ofList_toList]

/-! ## Words -/

/-- A quoted text is one word, wherever it stands. -/
theorem split_quote (s : String) {before after : String}
    (hbefore : ∀ c ∈ before.toList, Text.isBlank c = true)
    (hafter : ∀ c ∈ after.toList, Text.isBlank c = true) :
    split (before ++ Text.quote s ++ after) = .ok [Text.quote s] := by
  have hquote : IsWord (Text.quote s) := .inr ⟨s, rfl⟩
  have hgap : IsGap after.toList := fun c hc ↦ hafter c (List.mem_of_mem_head? hc)
  have hnone : wordsOf after.toList = .ok [] := by
    have hblanks := wordsOf_blanks_append hafter []
    rwa [List.append_nil, wordsOf] at hblanks
  rw [split, String.toList_append, String.toList_append, List.append_assoc,
    wordsOf_blanks_append hbefore]
  exact hquote.wordsOf_append hgap hnone

/-- **Every reader of quoted text gets back what was quoted**: bytecode has it as one word, which is
pushed as the text between double quotes; a source has it as one token, whose text is the text. -/
theorem quote_read_back (s before after : String)
    (hbefore : ∀ c ∈ before.toList, Text.isBlank c = true)
    (hafter : ∀ c ∈ after.toList, Text.isBlank c = true) :
    split (before ++ Text.quote s ++ after) = .ok [Text.quote s] ∧
      literal (Text.quote s) = .ok (.text (Text.enquote s)) ∧
      Text.unquote (Text.enquote s) = s ∧
      scan (Text.quote s) =
        [⟨.text, Text.quote s, .start⟩,
          ⟨.eof, "", Position.start.after (Text.quote s).toList⟩] ∧
      Text.literalText (Text.quote s) = s :=
  ⟨split_quote s hbefore hafter, literal_quote s, Text.unquote_enquote s, scan_quote s,
    literalText_quote s⟩

/-- A text of quotes, backslashes and line ends, with a backslash at its end. -/
theorem quote_read_back_backslash :
    split "\n\t\"\\\"\\\\\\n\\\\\" " = .ok ["\"\\\"\\\\\\n\\\\\""] ∧
      Text.literalText "\"\\\"\\\\\\n\\\\\"" = "\"\\\n\\" :=
  have h := quote_read_back "\"\\\n\\" "\n\t" " "
    (List.all_eq_true.mp (by decide)) (List.all_eq_true.mp (by decide))
  ⟨h.1, h.2.2.2.2⟩

end GemLang
