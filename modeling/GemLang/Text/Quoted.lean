/-!
# Quoted text

Text travels through bytecode between double quotes. Inside them a backslash escapes the next
character, so that a quote, a backslash or a line end in the text cannot be taken for the end of
the operand. The same escapes are read in string literals of the source.

`unescape` undoes `escape` (`unescape_escape`); `unquote` only drops the quotes.
-/

namespace GemLang.Text

/-! ## Escapes -/

/-- How one character is written between quotes. -/
def escapeChar : Char → List Char
  | '"' => ['\\', '"']
  | '\\' => ['\\', '\\']
  | '\n' => ['\\', 'n']
  | '\t' => ['\\', 't']
  | '\r' => ['\\', 'r']
  | '\x00' => ['\\', '0']
  | c => [c]

/-- Text as it is written between quotes. -/
def escape (cs : List Char) : List Char := cs.flatMap escapeChar

/-- The character that a backslash followed by `c` stands for. -/
def unescapeChar : Char → Char
  | 'n' => '\n'
  | 't' => '\t'
  | 'r' => '\r'
  | '0' => '\x00'
  | c => c

/-- Reads backslash escapes. A backslash at the very end stands for itself. -/
def unescape : List Char → List Char
  | [] => []
  | ['\\'] => ['\\']
  | '\\' :: c :: cs => unescapeChar c :: unescape cs
  | c :: cs => c :: unescape cs

/-- An escaped character reads as itself, whatever follows. -/
theorem unescape_escapeChar (c : Char) (cs : List Char) :
    unescape (escapeChar c ++ cs) = c :: unescape cs := by
  unfold escapeChar
  split
  case h_7 _ hBackslash _ _ _ _ =>
    rw [List.cons_append, List.nil_append, unescape]
    · exact fun h _ ↦ hBackslash h
    · exact fun _ _ h ↦ absurd h hBackslash
  all_goals simp [unescape, unescapeChar]

theorem unescape_escape (cs : List Char) : unescape (escape cs) = cs := by
  induction cs with
  | nil => rfl
  | cons c cs ih =>
    rw [escape, List.flatMap_cons, unescape_escapeChar]
    exact congrArg (c :: ·) ih

/-! ## Quotes -/

/-- The text between double quotes, escaped. -/
def quote (s : String) : String :=
  String.ofList ('"' :: escape s.toList ++ ['"'])

/-- The text between double quotes, as it stands. -/
def enquote (s : String) : String :=
  String.ofList ('"' :: s.toList ++ ['"'])

/-- Drops one pair of surrounding double quotes, if there is one. -/
def unquote (s : String) : String :=
  match s.toList with
  | '"' :: cs => if cs.getLast? = some '"' then String.ofList cs.dropLast else s
  | _ => s

/-- Reads the backslash escapes of a text. -/
def decodeEscapes (s : String) : String :=
  String.ofList (unescape s.toList)

/-- The text of a string literal: its two delimiters dropped and its escapes read. -/
def literalText (raw : String) : String :=
  String.ofList (unescape (raw.toList.drop 1).dropLast)

theorem unquote_enquote (s : String) : unquote (enquote s) = s := by
  simp [unquote, enquote]

end GemLang.Text
