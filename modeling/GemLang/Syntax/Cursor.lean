import GemLang.Token

/-!
# Walking over tokens

A cursor is the token being looked at and the tokens after it. Past the last token the walk goes on
seeing the end of the file. The steps below say in their types that they move forward: `Shrunk c`
is a cursor with fewer tokens left than `c`, and `Kept c` one with no more. The parser needs no
other reason to end.

Stepping *onto* a token that is an error fails; looking at one that is still ahead does not.
-/

namespace GemLang

/-- The token being looked at, and the tokens after it. -/
structure Cursor where
  current : Token
  rest : List Token

namespace Cursor

/-- The number of tokens left, not counting the end of the file being looked at. -/
def remaining (c : Cursor) : Nat :=
  c.rest.length + if c.current.kind = .eof then 0 else 1

/-- A cursor with fewer tokens left than `c`. -/
abbrev Shrunk (c : Cursor) := { c' : Cursor // c'.remaining < c.remaining }

/-- A cursor with no more tokens left than `c`. -/
abbrev Kept (c : Cursor) := { c' : Cursor // c'.remaining ≤ c.remaining }

/-- Moving forward twice is moving forward. -/
theorem remaining_lt_trans {c₀ c₁ c₂ : Cursor} (h₁ : c₁.remaining < c₀.remaining)
    (h₂ : c₂.remaining < c₁.remaining) : c₂.remaining < c₀.remaining :=
  Nat.lt_trans h₂ h₁

/-- The kind of the next token, if there is one. -/
def peek? (c : Cursor) : Option TokenKind := c.rest.head?.map (·.kind)

/-- Fails on a token that is an error. -/
def checkLexical (file : String) (t : Token) : Except Error Unit :=
  match t.kind with
  | .error fault => .error (.lexical file t.position.line t.position.column fault)
  | _ => .ok ()

/-- The error that the token being looked at is out of place. -/
def fail (file : String) (c : Cursor) (fault : ParseFault) : Error :=
  .parse file c.current.position.line c.current.position.column fault

/-- The error that `what` should stand where the cursor is. -/
def expected (file : String) (c : Cursor) (what : String) : Error :=
  c.fail file (.expected what (if c.current.kind = .eof then none else some c.current.text))

/-- Steps to the next token; past the last one stands the end of the file. -/
def advance (file : String) (c : Cursor) (h : c.current.kind ≠ .eof) : Except Error (Shrunk c) :=
  match hrest : c.rest with
  | t :: ts =>
    match checkLexical file t with
    | .error e => .error e
    | .ok () =>
      .ok ⟨⟨t, ts⟩, by
        simp only [remaining, hrest, h, List.length_cons, ↓reduceIte]
        split <;> omega⟩
  | [] => .ok ⟨⟨⟨.eof, "", c.current.position⟩, []⟩, by simp [remaining, hrest, h]⟩

/-- Steps over a token of the given kind, if the cursor is on one. The end of the file is never
stepped over. -/
def takeIf (file : String) (c : Cursor) (kind : TokenKind) : Except Error (Option (Shrunk c)) :=
  if h : c.current.kind = kind ∧ kind ≠ .eof then
    match c.advance file (h.1 ▸ h.2) with
    | .error e => .error e
    | .ok c' => .ok (some c')
  else
    .ok none

/-- Steps over a token of the given kind and hands it back; anything else is out of place. -/
def consume (file : String) (c : Cursor) (kind : TokenKind) (what : String) :
    Except Error (Token × Shrunk c) :=
  if h : c.current.kind = kind ∧ kind ≠ .eof then
    match c.advance file (h.1 ▸ h.2) with
    | .error e => .error e
    | .ok c' => .ok (c.current, c')
  else
    .error (c.expected file what)

def identifier (file : String) (c : Cursor) : Except Error (String × Shrunk c) :=
  match c.consume file .identifier "identifier" with
  | .error e => .error e
  | .ok (t, c') => .ok (t.text, c')

def skipSemicolons (file : String) (c : Cursor) : Except Error (Kept c) :=
  match c.takeIf file .semicolon with
  | .error e => .error e
  | .ok none => .ok ⟨c, Nat.le_refl _⟩
  | .ok (some ⟨c₁, h₁⟩) =>
    match c₁.skipSemicolons file with
    | .error e => .error e
    | .ok ⟨c₂, h₂⟩ => .ok ⟨c₂, by omega⟩
termination_by c.remaining

/-- The names of a list after its first, up to and including the token that closes it. -/
def moreNames (file : String) (close : TokenKind) (c : Cursor) :
    Except Error (List String × Shrunk c) := do
  let ⟨name, ⟨c₁, h₁⟩⟩ ← c.identifier file
  match ← c₁.takeIf file close with
  | some ⟨c₂, h₂⟩ => return ([name], ⟨c₂, remaining_lt_trans h₁ h₂⟩)
  | none =>
    let ⟨_, ⟨c₂, h₂⟩⟩ ← c₁.consume file .comma "','"
    let ⟨names, ⟨c₃, h₃⟩⟩ ← moreNames file close c₂
    return (name :: names, ⟨c₃, by omega⟩)
termination_by c.remaining

/-- Names parted by commas, up to and including the token that closes the list. -/
def nameList (file : String) (close : TokenKind) (c : Cursor) :
    Except Error (List String × Shrunk c) := do
  match ← c.takeIf file close with
  | some c₁ => return ([], c₁)
  | none => moreNames file close c

end Cursor

end GemLang
