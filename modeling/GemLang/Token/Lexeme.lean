import GemLang.Text.Blank
import GemLang.Text.Numeral
import GemLang.Token

/-!
# Cutting a source text

A source text is cut into lexemes from left to right. Blanks and comments are lexemes too; they are
dropped only when the tokens are collected. So nothing of the text is ever lost: a lexeme and what
follows it are the text it was cut from (`lexeme_append`), and a position is always the one reached
by walking over all that came before.

A comment starts with `##` and ends with its line, or starts with `##*` and ends with `*##`.
-/

namespace GemLang

/-- What a lexeme is. -/
inductive Piece where
  | blank
  | comment
  | token (kind : TokenKind)
  deriving DecidableEq

/-- A lexeme cut off the front of a text: what it is, its characters, and the rest of the text. -/
structure Lexeme where
  piece : Piece
  text : List Char
  rest : List Char

/-- A lexeme is cut from `cs`: its text is not empty, and with the rest makes up `cs`. -/
def Lexeme.CutFrom (x : Lexeme) (cs : List Char) : Prop :=
  x.text ≠ [] ∧ x.text ++ x.rest = cs

/-! ## Comments -/

/-- Cuts a block comment after its last characters `*##`. -/
def cutBlockComment : List Char → Option (List Char × List Char)
  | '*' :: '#' :: '#' :: cs => some (['*', '#', '#'], cs)
  | c :: cs => (cutBlockComment cs).map fun (text, rest) ↦ (c :: text, rest)
  | [] => none

theorem cutBlockComment_append {cs text rest : List Char}
    (h : cutBlockComment cs = some (text, rest)) : text ++ rest = cs := by
  induction cs using cutBlockComment.induct generalizing text rest with
  | case1 cs =>
    simp only [cutBlockComment, Option.some.injEq, Prod.mk.injEq] at h
    simp [← h.1, ← h.2]
  | case2 c cs hne ih =>
    rw [cutBlockComment] at h
    · simp only [Option.map_eq_some_iff, Prod.mk.injEq, Prod.exists] at h
      obtain ⟨t, r, hcut, rfl, rfl⟩ := h
      simp [ih hcut]
    · exact hne
  | case3 => simp [cutBlockComment] at h

/-- The comment at the front of `'#' :: '#' :: cs`. -/
def commentLexeme (cs : List Char) : Lexeme :=
  match cs with
  | '*' :: body =>
    match cutBlockComment body with
    | some (text, rest) => ⟨.comment, '#' :: '#' :: '*' :: text, rest⟩
    | none => ⟨.token (.error .openComment), '#' :: '#' :: '*' :: body, []⟩
  | _ =>
    ⟨.comment, '#' :: '#' :: cs.takeWhile (· != '\n'), cs.dropWhile (· != '\n')⟩

theorem commentLexeme_cutFrom (cs : List Char) :
    (commentLexeme cs).CutFrom ('#' :: '#' :: cs) := by
  unfold commentLexeme
  split
  · next body =>
    split
    · next text rest h =>
      simp [Lexeme.CutFrom, cutBlockComment_append h]
    · simp [Lexeme.CutFrom]
  · simp [Lexeme.CutFrom]

/-! ## String literals -/

/-- Cuts a string literal after its closing delimiter. A backslash takes the character after it
along. -/
def cutText (delimiter : Char) : List Char → Option (List Char × List Char)
  | [] => none
  | ['\\'] => none
  | '\\' :: c :: cs =>
    (cutText delimiter cs).map fun (text, rest) ↦ ('\\' :: c :: text, rest)
  | c :: cs =>
    if c = delimiter then some ([c], cs)
    else (cutText delimiter cs).map fun (text, rest) ↦ (c :: text, rest)

theorem cutText_append {delimiter : Char} {cs text rest : List Char}
    (h : cutText delimiter cs = some (text, rest)) : text ++ rest = cs := by
  induction cs using cutText.induct delimiter generalizing text rest with
  | case1 => simp [cutText] at h
  | case2 => simp [cutText] at h
  | case3 c cs ih =>
    simp only [cutText, Option.map_eq_some_iff, Prod.mk.injEq, Prod.exists] at h
    obtain ⟨t, r, hcut, rfl, rfl⟩ := h
    simp [ih hcut]
  | case4 cs h1 h2 =>
    rw [cutText] at h
    · simp only [↓reduceIte, Option.some.injEq, Prod.mk.injEq] at h
      simp [← h.1, ← h.2]
    · exact h1
    · exact h2
  | case5 c cs h1 h2 hne ih =>
    rw [cutText] at h
    · simp only [hne, ↓reduceIte, Option.map_eq_some_iff, Prod.mk.injEq, Prod.exists] at h
      obtain ⟨t, r, hcut, rfl, rfl⟩ := h
      simp [ih hcut]
    · exact h1
    · exact h2

/-- The string literal that starts with `delimiter`. -/
def textLexeme (delimiter : Char) (cs : List Char) : Lexeme :=
  match cutText delimiter cs with
  | some (text, rest) => ⟨.token .text, delimiter :: text, rest⟩
  | none => ⟨.token (.error .openText), delimiter :: cs, []⟩

theorem textLexeme_cutFrom (delimiter : Char) (cs : List Char) :
    (textLexeme delimiter cs).CutFrom (delimiter :: cs) := by
  unfold textLexeme
  split
  · next h => simp [Lexeme.CutFrom, cutText_append h]
  · simp [Lexeme.CutFrom]

/-! ## Numbers -/

/-- Whether `c` is a digit, or an underscore that groups digits. -/
def isDigitOrGap (c : Char) : Bool := c.isDigit || c == '_'

/-- Whether `c` cannot stand right after a number. -/
def isGlued (c : Char) : Bool := Text.isAlphanumeric c || c == '.'

/-- Whether `c` belongs to what is glued to a number. -/
def isGlueTail (c : Char) : Bool := Text.isAlphanumeric c || c == '_' || c == '.'

/-- Cuts an exponent: `e`, an optional sign, digits. Without a digit there is none. -/
def cutExponent (cs : List Char) : List Char × List Char :=
  match cs with
  | e :: d :: more =>
    if e = 'e' ∨ e = 'E' then
      if d.isDigit then
        (e :: (d :: more).takeWhile isDigitOrGap, (d :: more).dropWhile isDigitOrGap)
      else if (d = '+' ∨ d = '-') ∧ (more.head?.any Char.isDigit) then
        (e :: d :: more.takeWhile isDigitOrGap, more.dropWhile isDigitOrGap)
      else
        ([], cs)
    else
      ([], cs)
  | _ => ([], cs)

theorem cutExponent_append (cs : List Char) : (cutExponent cs).1 ++ (cutExponent cs).2 = cs := by
  unfold cutExponent
  split
  · repeat' split
    all_goals simp
  · rfl

/-- A number whose text is `text`, unless something is glued to it or it ends in an underscore. -/
def finishNumber (text rest : List Char) : Lexeme :=
  if rest.head?.any isGlued || text.getLast? == some '_' then
    ⟨.token (.error .badNumber), text ++ rest.takeWhile isGlueTail, rest.dropWhile isGlueTail⟩
  else
    ⟨.token .number, text, rest⟩

/-- A number whose whole and fraction parts are `text`, with the exponent that follows. -/
def numberTail (text rest : List Char) : Lexeme :=
  finishNumber (text ++ (cutExponent rest).1) (cutExponent rest).2

/-- The number at the front of `cs`, which starts with a digit. A point belongs to it only when a
digit follows; otherwise the number is bad up to and including the point. -/
def numberLexeme (cs : List Char) : Lexeme :=
  let whole := cs.takeWhile isDigitOrGap
  let rest := cs.dropWhile isDigitOrGap
  match rest with
  | '.' :: more =>
    if more.head?.any Char.isDigit then
      numberTail (whole ++ '.' :: more.takeWhile isDigitOrGap) (more.dropWhile isDigitOrGap)
    else
      ⟨.token (.error .badNumber), whole ++ ['.'], more⟩
  | _ => numberTail whole rest

theorem numberTail_cutFrom {text : List Char} (rest : List Char) (h : text ≠ []) :
    (numberTail text rest).CutFrom (text ++ rest) := by
  have happ := cutExponent_append rest
  unfold numberTail finishNumber
  split <;> simp [Lexeme.CutFrom, h, happ]

theorem numberLexeme_cutFrom {c : Char} (cs : List Char) (h : isDigitOrGap c = true) :
    (numberLexeme (c :: cs)).CutFrom (c :: cs) := by
  have hne : (c :: cs).takeWhile isDigitOrGap ≠ [] := by simp [h]
  have hsplit := List.takeWhile_append_dropWhile (p := isDigitOrGap) (l := c :: cs)
  unfold numberLexeme
  simp only
  split
  · next more hrest =>
    rw [hrest] at hsplit
    split
    · have hpoint :
          (c :: cs).takeWhile isDigitOrGap ++ '.' :: more.takeWhile isDigitOrGap ≠ [] := by
        simp
      have hcut := numberTail_cutFrom (more.dropWhile isDigitOrGap) hpoint
      rw [List.append_assoc, List.cons_append, List.takeWhile_append_dropWhile, hsplit] at hcut
      exact hcut
    · refine ⟨by simp, ?_⟩
      simpa using hsplit
  · have hcut := numberTail_cutFrom ((c :: cs).dropWhile isDigitOrGap) hne
    rwa [hsplit] at hcut

/-! ## Words and symbols -/

/-- The name or keyword at the front of `cs`. -/
def wordLexeme (cs : List Char) : Lexeme :=
  let text := cs.takeWhile Text.isNameChar
  ⟨.token (.ofWord (String.ofList text)), text, cs.dropWhile Text.isNameChar⟩

theorem wordLexeme_cutFrom {c : Char} (cs : List Char) (h : Text.isNameChar c = true) :
    (wordLexeme (c :: cs)).CutFrom (c :: cs) := by
  simp [wordLexeme, Lexeme.CutFrom, h]

/-- The symbol of two characters that `c` starts if `second` follows it, else the symbol that `c` is
by itself. -/
def symbolLexeme (c second : Char) (two one : TokenKind) (cs : List Char) : Lexeme :=
  match cs with
  | d :: rest => if d = second then ⟨.token two, [c, d], rest⟩ else ⟨.token one, [c], cs⟩
  | [] => ⟨.token one, [c], []⟩

theorem symbolLexeme_cutFrom (c second : Char) (two one : TokenKind) (cs : List Char) :
    (symbolLexeme c second two one cs).CutFrom (c :: cs) := by
  unfold symbolLexeme
  split
  · split <;> simp [Lexeme.CutFrom]
  · simp [Lexeme.CutFrom]

/-- The symbols of one character. -/
def singleSymbols : List (Char × TokenKind) :=
  [('(', .leftParen), (')', .rightParen), ('\x7b', .leftBrace), ('\x7d', .rightBrace),
    ('[', .leftBracket), (']', .rightBracket), (';', .semicolon), (',', .comma), ('.', .dot)]

/-- The symbols that a second character may extend: the first character, the second one, the kind
with it and the kind without. -/
def doubleSymbols : List (Char × Char × TokenKind × TokenKind) :=
  [(':', ':', .doubleColon, .colon), ('+', '=', .plusEqual, .plus),
    ('*', '=', .starEqual, .star), ('/', '=', .slashEqual, .slash),
    ('^', '=', .caretEqual, .caret), ('%', '=', .percentEqual, .percent),
    ('!', '=', .bangEqual, .bang), ('=', '=', .equalEqual, .equal),
    ('<', '=', .lessEqual, .less), ('>', '=', .greaterEqual, .greater),
    ('&', '&', .and, .error (.unexpectedChar '&')),
    ('|', '|', .or, .error (.unexpectedChar '|'))]

/-- The symbol that starts with a minus. -/
def minusLexeme (cs : List Char) : Lexeme :=
  match cs with
  | '>' :: rest => ⟨.token .arrow, ['-', '>'], rest⟩
  | _ => symbolLexeme '-' '=' .minusEqual .minus cs

theorem minusLexeme_cutFrom (cs : List Char) : (minusLexeme cs).CutFrom ('-' :: cs) := by
  unfold minusLexeme
  split
  · simp [Lexeme.CutFrom]
  · exact symbolLexeme_cutFrom ..

/-- A symbol, or a character that starts no token. -/
def otherLexeme (c : Char) (cs : List Char) : Lexeme :=
  match singleSymbols.find? (·.1 == c) with
  | some (_, kind) => ⟨.token kind, [c], cs⟩
  | none =>
    match doubleSymbols.find? (·.1 == c) with
    | some (_, second, two, one) => symbolLexeme c second two one cs
    | none => ⟨.token (.error (.unexpectedChar c)), [c], cs⟩

theorem otherLexeme_cutFrom (c : Char) (cs : List Char) :
    (otherLexeme c cs).CutFrom (c :: cs) := by
  unfold otherLexeme
  split
  · simp [Lexeme.CutFrom]
  · split
    · exact symbolLexeme_cutFrom ..
    · simp [Lexeme.CutFrom]

/-! ## Lexemes -/

/-- Whether `c` delimits string literals. -/
def isTextDelimiter (c : Char) : Bool := c == '"' || c == '\'' || c == '\x60'

/-- The lexeme at the front of `c :: cs`. -/
def lexeme (c : Char) (cs : List Char) : Lexeme :=
  if Text.isBlank c then ⟨.blank, [c], cs⟩
  else if c = '#' ∧ cs.head? = some '#' then commentLexeme cs.tail
  else if isTextDelimiter c then textLexeme c cs
  else if c.isDigit then numberLexeme (c :: cs)
  else if c = '-' then minusLexeme cs
  else if Text.isNameStart c then wordLexeme (c :: cs)
  else otherLexeme c cs

theorem lexeme_cutFrom (c : Char) (cs : List Char) : (lexeme c cs).CutFrom (c :: cs) := by
  unfold lexeme
  split
  · simp [Lexeme.CutFrom]
  split
  · next h =>
    obtain ⟨rfl, hcs⟩ := h
    cases cs with
    | nil => simp at hcs
    | cons d ds =>
      obtain rfl : d = '#' := by simpa using hcs
      exact commentLexeme_cutFrom ds
  split
  · exact textLexeme_cutFrom c cs
  split
  · next h => exact numberLexeme_cutFrom cs (by simp [isDigitOrGap, h])
  split
  · next h => exact h ▸ minusLexeme_cutFrom cs
  split
  · next h => exact wordLexeme_cutFrom cs (Text.isNameChar_of_isNameStart h)
  · exact otherLexeme_cutFrom c cs

/-- A lexeme and what follows it are the text it was cut from. -/
theorem lexeme_append (c : Char) (cs : List Char) :
    (lexeme c cs).text ++ (lexeme c cs).rest = c :: cs :=
  (lexeme_cutFrom c cs).2

theorem lexeme_rest_length_lt (c : Char) (cs : List Char) :
    (lexeme c cs).rest.length < (c :: cs).length := by
  have h := congrArg List.length (lexeme_append c cs)
  have hpos := List.length_pos_iff.mpr (lexeme_cutFrom c cs).1
  rw [List.length_append] at h
  omega

/-! ## Tokens of a text -/

/-- The tokens of `cs`, which starts at position `p`. -/
def scanFrom (p : Position) : List Char → List Token
  | [] => [⟨.eof, "", p⟩]
  | c :: cs =>
    let x := lexeme c cs
    let following := scanFrom (p.after x.text) x.rest
    match x.piece with
    | .token kind => ⟨kind, String.ofList x.text, p⟩ :: following
    | _ => following
termination_by cs => cs.length
decreasing_by exact lexeme_rest_length_lt c cs

/-- The tokens of a source text, the last one marking its end. -/
def scan (source : String) : List Token := scanFrom .start source.toList

end GemLang
