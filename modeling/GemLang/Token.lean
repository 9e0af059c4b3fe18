import GemLang.Error

/-!
# Tokens

The pieces that a source text is cut into. A stretch of characters that is no token is itself a
token, of kind `error`, so that scanning goes on after it and the parser decides when it matters.
-/

namespace GemLang

/-- The kinds of tokens. -/
inductive TokenKind where
  | leftParen
  | rightParen
  | leftBrace
  | rightBrace
  | leftBracket
  | rightBracket
  | comma
  | dot
  | colon
  | doubleColon
  | semicolon
  | arrow
  | plus
  | minus
  | star
  | slash
  | caret
  | percent
  | equal
  | plusEqual
  | minusEqual
  | starEqual
  | slashEqual
  | caretEqual
  | percentEqual
  | bang
  | bangEqual
  | equalEqual
  | greater
  | greaterEqual
  | less
  | lessEqual
  | and
  | or
  | identifier
  | text
  | number
  | kwVar
  | kwFn
  | kwIf
  | kwElif
  | kwElse
  | kwFor
  | kwIn
  | kwWhile
  | kwReturn
  | kwBreak
  | kwContinue
  | kwReflect
  | kwShine
  | kwExtern
  | kwDelete
  | kwTrue
  | kwFalse
  | error (fault : ScanFault)
  | eof
  deriving DecidableEq

/-- The words that are not names. -/
def keywords : List (String × TokenKind) :=
  [("var", .kwVar), ("fn", .kwFn), ("if", .kwIf), ("elif", .kwElif), ("else", .kwElse),
    ("for", .kwFor), ("in", .kwIn), ("while", .kwWhile), ("return", .kwReturn),
    ("break", .kwBreak), ("continue", .kwContinue), ("reflect", .kwReflect), ("shine", .kwShine),
    ("extern", .kwExtern), ("delete", .kwDelete), ("true", .kwTrue), ("false", .kwFalse),
    ("and", .and), ("or", .or)]

/-- The kind of a word: a keyword, or else a name. -/
def TokenKind.ofWord (word : String) : TokenKind :=
  ((keywords.find? (·.1 == word)).map (·.2)).getD .identifier

/-! ## Positions -/

/-- A place in a source text; lines and columns count from one, columns in characters. -/
structure Position where
  line : Nat
  column : Nat
  deriving DecidableEq

/-- The start of a text. -/
def Position.start : Position := ⟨1, 1⟩

def Position.next (p : Position) (c : Char) : Position :=
  if c = '\n' then ⟨p.line + 1, 1⟩ else ⟨p.line, p.column + 1⟩

def Position.after (p : Position) (cs : List Char) : Position := cs.foldl Position.next p

@[simp] theorem Position.after_nil (p : Position) : p.after [] = p := rfl

theorem Position.after_append (p : Position) (cs ds : List Char) :
    p.after (cs ++ ds) = (p.after cs).after ds := by
  simp [Position.after]

/-- A token: its kind, the source text it was cut from, and where that starts. -/
structure Token where
  kind : TokenKind
  text : String
  position : Position
  deriving DecidableEq

/-- What is shown for a token: the message of an error, the source text of any other. -/
def Token.raw (t : Token) : String :=
  match t.kind with
  | .error fault => fault.message
  | _ => t.text

end GemLang
