import GemLang.Number.Text
import GemLang.Syntax
import GemLang.Syntax.Cursor
import GemLang.Text.Quoted
import GemLang.Token.Lexeme

/-!
# Parsing

Recursive descent over a cursor. From loosest to tightest the operators are

```text
||    &&    == != > < >= <=    + -    * / %      left-associative, one level each
- !                                             in front of an operand
^                                               right-associative; its exponent may be signed
.name  [index]  (arguments)                     after an operand
```

The five levels of left-associative operators are data (`Level`), so one pair of functions serves
them all.

## Where the recursion is

Every function hands back a cursor with fewer tokens left. A construct that holds expressions or
statements meets them only after it has moved on, so its parser is an ordinary function of *the
parsers for shorter inputs*: the arguments `expr` and `body` below, which may be used on cursors
with fewer tokens left than a cursor `b`. The knot is tied once, at the end, by recursion on the
number of tokens left. Facts about the grammar can be shown construct by construct in the same way.

The first error ends parsing.
-/

namespace GemLang

/-! ## Levels of binary operators -/

/-- The levels of left-associative operators, from loosest to tightest. -/
inductive Level where
  | or
  | and
  | comparison
  | additive
  | multiplicative
  deriving DecidableEq

/-- The operator of a level that a token stands for. -/
def Level.operator? : Level → TokenKind → Option BinaryOp
  | .or, .or => some .or
  | .and, .and => some .and
  | .comparison, .equalEqual => some .eq
  | .comparison, .bangEqual => some .notEq
  | .comparison, .greater => some .greater
  | .comparison, .less => some .less
  | .comparison, .greaterEqual => some .greaterEq
  | .comparison, .lessEqual => some .lessEq
  | .additive, .plus => some .add
  | .additive, .minus => some .sub
  | .multiplicative, .star => some .mul
  | .multiplicative, .slash => some .div
  | .multiplicative, .percent => some .mod
  | _, _ => none

theorem Level.operator?_eof (level : Level) : level.operator? .eof = none := by
  cases level <;> rfl

def unaryOperator? : TokenKind → Option UnaryOp
  | .minus => some .negate
  | .bang => some .not
  | _ => none

/-- The assignment that a token stands for: a plain one, or one through an operator. -/
def assignment? : TokenKind → Option (Option BinaryOp)
  | .equal => some none
  | .plusEqual => some (some .add)
  | .minusEqual => some (some .sub)
  | .starEqual => some (some .mul)
  | .slashEqual => some (some .div)
  | .caretEqual => some (some .pow)
  | .percentEqual => some (some .mod)
  | _ => none

/-- The value of a number token; underscores only group digits. -/
def numberValue? (raw : String) : Option Float :=
  Number.read? (String.ofList (raw.toList.filter (· != '_')))

/-- Whether a table entry with a key starts here. -/
def Cursor.atKey (c : Cursor) : Bool :=
  (c.current.kind == .identifier || c.current.kind == .text || c.current.kind == .number) &&
    c.peek? == some .colon

/-- A parse from `c` that moved on. -/
abbrev Parsed (α : Type) (c : Cursor) := Except Error (α × c.Shrunk)

/-- A parser for the cursors with fewer tokens left than `b`. -/
abbrev Below (b : Cursor) (α : Type) := (c : Cursor) → c.remaining < b.remaining → Parsed α c

/-- A parser for the cursors with no more tokens left than `b`. -/
abbrev UpTo (b : Cursor) (α : Type) := (c : Cursor) → c.remaining ≤ b.remaining → Parsed α c

namespace Parser

variable (file : String)

/-! ## Statements without expressions -/

/-- Steps over a string literal and hands back its text. -/
def stringLiteral (c : Cursor) : Parsed String c :=
  match c.consume file .text "string" with
  | .error e => .error e
  | .ok (t, c') => .ok (Text.literalText t.text, c')

/-- The form `reflect "path"`, or `reflect "path" :: {names}`, from just after the keyword. -/
def reflectStatement (c : Cursor) : Parsed Stmt c := do
  let ⟨path, ⟨c₁, h₁⟩⟩ ← stringLiteral file c
  match ← c₁.takeIf file .doubleColon with
  | none => return (.reflect path [], ⟨c₁, h₁⟩)
  | some ⟨c₂, h₂⟩ =>
    let ⟨_, ⟨c₃, h₃⟩⟩ ← c₂.consume file .leftBrace "'\x7b'"
    let ⟨names, ⟨c₄, h₄⟩⟩ ← c₃.nameList file .rightBrace
    return (.reflect path names, ⟨c₄, by omega⟩)

/-- The form `extern name :: "path" :: (types) -> type`, from just after the keyword. -/
def foreignStatement (c : Cursor) : Parsed Stmt c := do
  let ⟨name, ⟨c₁, h₁⟩⟩ ← c.identifier file
  let ⟨_, ⟨c₂, h₂⟩⟩ ← c₁.consume file .doubleColon "'::'"
  let ⟨path, ⟨c₃, h₃⟩⟩ ← stringLiteral file c₂
  let ⟨_, ⟨c₄, h₄⟩⟩ ← c₃.consume file .doubleColon "'::'"
  let ⟨_, ⟨c₅, h₅⟩⟩ ← c₄.consume file .leftParen "'('"
  let ⟨argTypes, ⟨c₆, h₆⟩⟩ ← c₅.nameList file .rightParen
  let ⟨_, ⟨c₇, h₇⟩⟩ ← c₆.consume file .arrow "'->'"
  let ⟨returnType, ⟨c₈, h₈⟩⟩ ← c₇.identifier file
  return (.foreign name path argTypes returnType, ⟨c₈, by omega⟩)

/-- The names a `for` loop binds, and the `in` after them. -/
def loopNames (c : Cursor) : Parsed (List String) c := do
  let ⟨names, ⟨c₁, h₁⟩⟩ ← (do
    match ← c.takeIf file .leftParen with
    | some ⟨c₁, h₁⟩ =>
      let ⟨names, ⟨c₂, h₂⟩⟩ ← c₁.nameList file .rightParen
      return (names, ⟨c₂, by omega⟩)
    | none =>
      let ⟨name, c₁⟩ ← c.identifier file
      return ([name], c₁) : Parsed (List String) c)
  let ⟨_, ⟨c₂, h₂⟩⟩ ← c₁.consume file .kwIn "'in'"
  return (names, ⟨c₂, by omega⟩)

/-! ## Expressions -/

section Expressions

variable {b : Cursor} (expr : Below b Expr) (body : Below b (List Stmt))

/-- Expressions parted by commas, up to and including the closing parenthesis. -/
def moreArguments (c : Cursor) (hc : c.remaining < b.remaining) : Parsed (List Expr) c := do
  let ⟨e, ⟨c₁, h₁⟩⟩ ← expr c hc
  match ← c₁.takeIf file .rightParen with
  | some ⟨c₂, h₂⟩ => return ([e], ⟨c₂, by omega⟩)
  | none =>
    let ⟨_, ⟨c₂, h₂⟩⟩ ← c₁.consume file .comma "','"
    let ⟨es, ⟨c₃, h₃⟩⟩ ← moreArguments c₂ (by omega)
    return (e :: es, ⟨c₃, by omega⟩)
termination_by c.remaining

/-- The same, or the closing parenthesis at once. -/
def arguments (c : Cursor) (hc : c.remaining < b.remaining) : Parsed (List Expr) c := do
  match ← c.takeIf file .rightParen with
  | some c₁ => return ([], c₁)
  | none => moreArguments file expr c hc

def numberLiteral (c : Cursor) (h : c.current.kind = .number) : Parsed Expr c :=
  match numberValue? c.current.text with
  | none => .error (c.fail file .badNumber)
  | some value => do
    let c₁ ← c.advance file (by simp [h])
    return (.number value, c₁)

/-- The key of a table entry; a name stands for its own text. -/
def tableKey (c : Cursor) : Parsed Expr c :=
  if h : c.current.kind = .number then
    numberLiteral file c h
  else if c.current.kind = .identifier then do
    let ⟨name, c₁⟩ ← c.identifier file
    return (.text name, c₁)
  else do
    let ⟨value, c₁⟩ ← stringLiteral file c
    return (.text value, c₁)

/-- The entry of a table literal that starts here, and the number of the next entry without a key
if this one has the number `position`. -/
def tableEntry (position : Float) (c : Cursor) (hc : c.remaining < b.remaining) :
    Parsed ((Expr × Expr) × Float) c := do
  if c.atKey then
    let ⟨key, ⟨c₁, h₁⟩⟩ ← tableKey file c
    let ⟨_, ⟨c₂, h₂⟩⟩ ← c₁.consume file .colon "':'"
    let ⟨value, ⟨c₃, h₃⟩⟩ ← expr c₂ (by omega)
    return (((key, value), position), ⟨c₃, by omega⟩)
  else
    let ⟨value, c₁⟩ ← expr c hc
    return (((.number position, value), position + 1), c₁)

/-- The entries of a table literal, up to and including the closing brace. -/
def tableEntries (position : Float) (c : Cursor) (hc : c.remaining < b.remaining) :
    Parsed (List (Expr × Expr)) c := do
  match ← c.takeIf file .rightBrace with
  | some c₁ => return ([], c₁)
  | none =>
    let ⟨⟨entry, position⟩, ⟨c₁, h₁⟩⟩ ← tableEntry file expr position c hc
    let ⟨c₂, h₂⟩ ← (
      if c₁.current.kind = .rightBrace then
        return ⟨c₁, Nat.le_refl _⟩
      else do
        let ⟨_, ⟨c₂, h₂⟩⟩ ← c₁.consume file .comma "',' or '\x7d'"
        return ⟨c₂, by omega⟩ : Except Error c₁.Kept)
    let ⟨entries, ⟨c₃, h₃⟩⟩ ← tableEntries position c₂ (by omega)
    return (entry :: entries, ⟨c₃, by omega⟩)
termination_by c.remaining

/-- The name of a function; without one it is called `_`. -/
def functionName (c : Cursor) : Except Error (String × c.Kept) :=
  if c.current.kind = .identifier then do
    let ⟨name, ⟨c₁, h₁⟩⟩ ← c.identifier file
    return (name, ⟨c₁, by omega⟩)
  else
    return ("_", ⟨c, Nat.le_refl _⟩)

/-- The form `fn name(params) body`: the name, the parameters and the body. -/
def function (c : Cursor) (hc : c.remaining ≤ b.remaining) :
    Parsed (String × List String × List Stmt) c := do
  let ⟨_, ⟨c₁, h₁⟩⟩ ← c.consume file .kwFn "'fn'"
  let ⟨name, ⟨c₂, h₂⟩⟩ ← functionName file c₁
  let ⟨_, ⟨c₃, h₃⟩⟩ ← c₂.consume file .leftParen "'('"
  let ⟨params, ⟨c₄, h₄⟩⟩ ← c₃.nameList file .rightParen
  let ⟨stmts, ⟨c₅, h₅⟩⟩ ← body c₄ (by omega)
  return ((name, params, stmts), ⟨c₅, by omega⟩)

/-- A literal, a name, an expression in parentheses, a table or a function. -/
def primary (c : Cursor) (hc : c.remaining ≤ b.remaining) : Parsed Expr c :=
  if h : c.current.kind = .number then
    numberLiteral file c h
  else if c.current.kind = .text then do
    let ⟨value, c₁⟩ ← stringLiteral file c
    return (.text value, c₁)
  else if h : c.current.kind = .kwTrue then do
    let c₁ ← c.advance file (by simp [h])
    return (.bool true, c₁)
  else if h : c.current.kind = .kwFalse then do
    let c₁ ← c.advance file (by simp [h])
    return (.bool false, c₁)
  else if c.current.kind = .identifier then do
    let ⟨name, c₁⟩ ← c.identifier file
    return (.name name, c₁)
  else if h : c.current.kind = .leftParen then do
    let ⟨c₁, h₁⟩ ← c.advance file (by simp [h])
    let ⟨e, ⟨c₂, h₂⟩⟩ ← expr c₁ (by omega)
    let ⟨_, ⟨c₃, h₃⟩⟩ ← c₂.consume file .rightParen "')' after expression"
    return (e, ⟨c₃, by omega⟩)
  else if h : c.current.kind = .leftBrace then do
    let ⟨c₁, h₁⟩ ← c.advance file (by simp [h])
    let ⟨entries, ⟨c₂, h₂⟩⟩ ← tableEntries file expr 0 c₁ (by omega)
    return (.table entries, ⟨c₂, by omega⟩)
  else if c.current.kind = .kwFn then do
    let ⟨⟨name, params, stmts⟩, c₁⟩ ← function file body c hc
    return (.function name params stmts, c₁)
  else
    .error (c.expected file "expression")

/-- The accesses and calls that follow `e`. -/
def suffixes (e : Expr) (c : Cursor) (hc : c.remaining ≤ b.remaining) :
    Except Error (Expr × c.Kept) :=
  if h : c.current.kind = .dot then do
    let ⟨c₁, h₁⟩ ← c.advance file (by simp [h])
    let ⟨name, ⟨c₂, h₂⟩⟩ ← c₁.identifier file
    let ⟨e', ⟨c₃, h₃⟩⟩ ← suffixes (.member e (.text name) false) c₂ (by omega)
    return (e', ⟨c₃, by omega⟩)
  else if h : c.current.kind = .leftBracket then do
    let ⟨c₁, h₁⟩ ← c.advance file (by simp [h])
    let ⟨property, ⟨c₂, h₂⟩⟩ ← expr c₁ (by omega)
    let ⟨_, ⟨c₃, h₃⟩⟩ ← c₂.consume file .rightBracket "']'"
    let ⟨e', ⟨c₄, h₄⟩⟩ ← suffixes (.member e property true) c₃ (by omega)
    return (e', ⟨c₄, by omega⟩)
  else if h : c.current.kind = .leftParen then do
    let ⟨c₁, h₁⟩ ← c.advance file (by simp [h])
    let ⟨args, ⟨c₂, h₂⟩⟩ ← arguments file expr c₁ (by omega)
    let ⟨e', ⟨c₃, h₃⟩⟩ ← suffixes (.call e args) c₂ (by omega)
    return (e', ⟨c₃, by omega⟩)
  else
    .ok (e, ⟨c, Nat.le_refl _⟩)
termination_by c.remaining

/-- An operand with accesses and calls after it. -/
def suffixed (c : Cursor) (hc : c.remaining ≤ b.remaining) : Parsed Expr c := do
  let ⟨e, ⟨c₁, h₁⟩⟩ ← primary file expr body c hc
  let ⟨e', ⟨c₂, h₂⟩⟩ ← suffixes file expr e c₁ (by omega)
  return (e', ⟨c₂, by omega⟩)

/-- An operand with signs and negations in front, or a power, whose exponent may have signs and
powers of its own. -/
def unary (c : Cursor) (hc : c.remaining ≤ b.remaining) : Parsed Expr c :=
  match hop : unaryOperator? c.current.kind with
  | some op => do
    let ⟨c₁, h₁⟩ ← c.advance file (by
      intro h
      rw [h] at hop
      cases hop)
    let ⟨e, ⟨c₂, h₂⟩⟩ ← unary c₁ (by omega)
    return (.unary op e, ⟨c₂, by omega⟩)
  | none => do
    let ⟨base, ⟨c₁, h₁⟩⟩ ← suffixed file expr body c hc
    match ← c₁.takeIf file .caret with
    | none => return (base, ⟨c₁, h₁⟩)
    | some ⟨c₂, h₂⟩ =>
      let ⟨exponent, ⟨c₃, h₃⟩⟩ ← unary c₂ (by omega)
      return (.binary .pow base exponent, ⟨c₃, by omega⟩)
termination_by c.remaining

end Expressions

section Levels

variable {b : Cursor} (operand : UpTo b Expr) (level : Level)

/-- What follows `left` on a level: operators with their right operands, grouped to the left. -/
def binaryRest (left : Expr) (c : Cursor) (hc : c.remaining ≤ b.remaining) :
    Except Error (Expr × c.Kept) :=
  match hop : level.operator? c.current.kind with
  | none => .ok (left, ⟨c, Nat.le_refl _⟩)
  | some op => do
    let ⟨c₁, h₁⟩ ← c.advance file (by
      intro h
      rw [h, level.operator?_eof] at hop
      cases hop)
    let ⟨right, ⟨c₂, h₂⟩⟩ ← operand c₁ (by omega)
    let ⟨e, ⟨c₃, h₃⟩⟩ ← binaryRest (.binary op left right) c₂ (by omega)
    return (e, ⟨c₃, by omega⟩)
termination_by c.remaining

/-- Operands joined by the operators of a level. -/
def binary (c : Cursor) (hc : c.remaining ≤ b.remaining) : Parsed Expr c := do
  let ⟨left, ⟨c₁, h₁⟩⟩ ← operand c hc
  let ⟨e, ⟨c₂, h₂⟩⟩ ← binaryRest file operand level left c₁ (by omega)
  return (e, ⟨c₂, by omega⟩)

end Levels

section Layers

variable {b : Cursor} (expr : Below b Expr) (body : Below b (List Stmt))

/-- Operands joined by `*`, `/` and `%`. -/
def products : UpTo b Expr := binary file (unary file expr body) .multiplicative

/-- Products joined by `+` and `-`. -/
def sums : UpTo b Expr := binary file (products file expr body) .additive

/-- Sums joined by comparisons. -/
def comparisons : UpTo b Expr := binary file (sums file expr body) .comparison

/-- Comparisons joined by `&&`. -/
def conjunctions : UpTo b Expr := binary file (comparisons file expr body) .and

/-- An expression, given the parsers for shorter inputs: conjunctions joined by `||`. -/
def expressionWith : UpTo b Expr := binary file (conjunctions file expr body) .or

end Layers

/-! ## Statements -/

section Statements

variable {b : Cursor} (expr : UpTo b Expr) (body : Below b (List Stmt)) (stmt : Below b Stmt)

/-- The `elif`s and the `else` after a branch. -/
def condRest (c : Cursor) (hc : c.remaining ≤ b.remaining) :
    Except Error ((List (Expr × List Stmt) × Option (List Stmt)) × c.Kept) := do
  let ⟨c₁, h₁⟩ ← c.skipSemicolons file
  match ← c₁.takeIf file .kwElif with
  | some ⟨c₂, h₂⟩ =>
    let ⟨condition, ⟨c₃, h₃⟩⟩ ← expr c₂ (by omega)
    let ⟨stmts, ⟨c₄, h₄⟩⟩ ← body c₃ (by omega)
    let ⟨⟨branches, otherwise⟩, ⟨c₅, h₅⟩⟩ ← condRest c₄ (by omega)
    return (((condition, stmts) :: branches, otherwise), ⟨c₅, by omega⟩)
  | none =>
    match ← c₁.takeIf file .kwElse with
    | some ⟨c₂, h₂⟩ =>
      let ⟨stmts, ⟨c₃, h₃⟩⟩ ← body c₂ (by omega)
      return (([], some stmts), ⟨c₃, by omega⟩)
    | none => return (([], none), ⟨c₁, h₁⟩)
termination_by c.remaining

/-- A declaration of a variable, from just after the keyword; without a value it is zero. -/
def varStatement (c : Cursor) (hc : c.remaining < b.remaining) : Parsed Stmt c := do
  let ⟨name, ⟨c₁, h₁⟩⟩ ← c.identifier file
  match ← c₁.takeIf file .equal with
  | none => return (.var name (.number 0), ⟨c₁, by omega⟩)
  | some ⟨c₂, h₂⟩ =>
    let ⟨value, ⟨c₃, h₃⟩⟩ ← expr c₂ (by omega)
    return (.var name value, ⟨c₃, by omega⟩)

def condStatement (c : Cursor) (hc : c.remaining < b.remaining) : Parsed Stmt c := do
  let ⟨condition, ⟨c₁, h₁⟩⟩ ← expr c (by omega)
  let ⟨stmts, ⟨c₂, h₂⟩⟩ ← body c₁ (by omega)
  let ⟨⟨branches, otherwise⟩, ⟨c₃, h₃⟩⟩ ← condRest file expr body c₂ (by omega)
  return (.cond condition stmts branches otherwise, ⟨c₃, by omega⟩)

/-- A `while` loop, from just after the keyword. -/
def whileStatement (c : Cursor) (hc : c.remaining < b.remaining) : Parsed Stmt c := do
  let ⟨condition, ⟨c₁, h₁⟩⟩ ← expr c (by omega)
  let ⟨stmts, ⟨c₂, h₂⟩⟩ ← body c₁ (by omega)
  return (.while condition stmts, ⟨c₂, by omega⟩)

/-- A `for` loop, from just after the keyword: over a range with one name, over an iterator with
two. -/
def forStatement (c : Cursor) (hc : c.remaining < b.remaining) : Parsed Stmt c := do
  let ⟨names, ⟨c₁, h₁⟩⟩ ← loopNames file c
  match names with
  | [counter] =>
    let ⟨_, ⟨c₂, h₂⟩⟩ ← c₁.consume file .leftParen "'(' before the loop range"
    let ⟨bounds, ⟨c₃, h₃⟩⟩ ←
      arguments (b := b) file (fun c h ↦ expr c (Nat.le_of_lt h)) c₂ (by omega)
    match bounds with
    | [start, stop] =>
      let ⟨stmts, ⟨c₄, h₄⟩⟩ ← body c₃ (by omega)
      return (.forRange counter start stop none stmts, ⟨c₄, by omega⟩)
    | [start, stop, step] =>
      let ⟨stmts, ⟨c₄, h₄⟩⟩ ← body c₃ (by omega)
      return (.forRange counter start stop (some step) stmts, ⟨c₄, by omega⟩)
    | _ => .error (c₃.fail file .loopRange)
  | [key, value] =>
    let ⟨iterator, ⟨c₂, h₂⟩⟩ ← expr c₁ (by omega)
    let ⟨stmts, ⟨c₃, h₃⟩⟩ ← body c₂ (by omega)
    return (.forEach key value iterator stmts, ⟨c₃, by omega⟩)
  | _ => .error (c₁.fail file .loopNames)

/-- A `return` on the given line, from just after the keyword. It has a value when one follows on
the same line. -/
def returnStatement (line : Nat) (c : Cursor) (hc : c.remaining < b.remaining) :
    Except Error (Stmt × c.Kept) := do
  if c.current.kind = .rightBrace ∨ c.current.kind = .semicolon ∨ c.current.kind = .eof ∨
      line < c.current.position.line then
    return (.return none, ⟨c, Nat.le_refl _⟩)
  else
    let ⟨value, ⟨c₁, h₁⟩⟩ ← expr c (by omega)
    return (.return (some value), ⟨c₁, by omega⟩)

/-- An exported declaration, from just after the keyword. -/
def shineStatement (c : Cursor) (hc : c.remaining < b.remaining) : Parsed Stmt c := do
  if c.current.kind = .kwVar ∨ c.current.kind = .kwFn ∨ c.current.kind = .kwExtern then
    let ⟨inner, c₁⟩ ← stmt c hc
    return (.shine inner, c₁)
  else
    .error (c.expected file "declaration after 'shine'")

/-- An assignment, or an expression by itself. -/
def expressionStatement (c : Cursor) (hc : c.remaining ≤ b.remaining) : Parsed Stmt c := do
  let ⟨e, ⟨c₁, h₁⟩⟩ ← expr c hc
  match hop : assignment? c₁.current.kind with
  | none => return (.expr e, ⟨c₁, h₁⟩)
  | some op =>
    match e.target? with
    | none => .error (c₁.fail file .badTarget)
    | some (root, path) =>
      let ⟨c₂, h₂⟩ ← c₁.advance file (by
        intro h
        rw [h] at hop
        cases hop)
      let ⟨value, ⟨c₃, h₃⟩⟩ ← expr c₂ (by omega)
      let value :=
        match op with
        | none => value
        | some op => .binary op e value
      return (.assign root path value, ⟨c₃, by omega⟩)

/-- A statement without the semicolons after it. -/
def bareStatement (c : Cursor) (hc : c.remaining ≤ b.remaining) : Parsed Stmt c :=
  if h : c.current.kind = .kwVar then do
    let ⟨c₁, h₁⟩ ← c.advance file (by simp [h])
    let ⟨s, ⟨c₂, h₂⟩⟩ ← varStatement file expr c₁ (by omega)
    return (s, ⟨c₂, by omega⟩)
  else if c.current.kind = .kwFn ∧ c.peek? = some .identifier then do
    let ⟨⟨name, params, stmts⟩, c₁⟩ ← function file body c hc
    return (.function name params stmts, c₁)
  else if h : c.current.kind = .kwIf then do
    let ⟨c₁, h₁⟩ ← c.advance file (by simp [h])
    let ⟨s, ⟨c₂, h₂⟩⟩ ← condStatement file expr body c₁ (by omega)
    return (s, ⟨c₂, by omega⟩)
  else if h : c.current.kind = .kwWhile then do
    let ⟨c₁, h₁⟩ ← c.advance file (by simp [h])
    let ⟨s, ⟨c₂, h₂⟩⟩ ← whileStatement expr body c₁ (by omega)
    return (s, ⟨c₂, by omega⟩)
  else if h : c.current.kind = .kwFor then do
    let ⟨c₁, h₁⟩ ← c.advance file (by simp [h])
    let ⟨s, ⟨c₂, h₂⟩⟩ ← forStatement file expr body c₁ (by omega)
    return (s, ⟨c₂, by omega⟩)
  else if h : c.current.kind = .kwReturn then do
    let ⟨c₁, h₁⟩ ← c.advance file (by simp [h])
    let ⟨s, ⟨c₂, h₂⟩⟩ ← returnStatement expr c.current.position.line c₁ (by omega)
    return (s, ⟨c₂, by omega⟩)
  else if h : c.current.kind = .kwBreak then do
    let c₁ ← c.advance file (by simp [h])
    return (.break, c₁)
  else if h : c.current.kind = .kwContinue then do
    let c₁ ← c.advance file (by simp [h])
    return (.continue, c₁)
  else if h : c.current.kind = .kwReflect then do
    let ⟨c₁, h₁⟩ ← c.advance file (by simp [h])
    let ⟨s, ⟨c₂, h₂⟩⟩ ← reflectStatement file c₁
    return (s, ⟨c₂, by omega⟩)
  else if h : c.current.kind = .kwShine then do
    let ⟨c₁, h₁⟩ ← c.advance file (by simp [h])
    let ⟨s, ⟨c₂, h₂⟩⟩ ← shineStatement file stmt c₁ (by omega)
    return (s, ⟨c₂, by omega⟩)
  else if h : c.current.kind = .kwExtern then do
    let ⟨c₁, h₁⟩ ← c.advance file (by simp [h])
    let ⟨s, ⟨c₂, h₂⟩⟩ ← foreignStatement file c₁
    return (s, ⟨c₂, by omega⟩)
  else if h : c.current.kind = .kwDelete then do
    let ⟨c₁, h₁⟩ ← c.advance file (by simp [h])
    let ⟨name, ⟨c₂, h₂⟩⟩ ← c₁.identifier file
    return (.delete name, ⟨c₂, by omega⟩)
  else
    expressionStatement file expr c hc

/-- A statement with the semicolons after it, given the parsers for shorter inputs. -/
def statementWith (c : Cursor) (hc : c.remaining ≤ b.remaining) : Parsed Stmt c := do
  let ⟨s, ⟨c₁, h₁⟩⟩ ← bareStatement file expr body stmt c hc
  let ⟨c₂, h₂⟩ ← c₁.skipSemicolons file
  return (s, ⟨c₂, by omega⟩)

end Statements

/-! ## Tying the knot -/

mutual

/-- An expression. -/
def expression (c : Cursor) : Parsed Expr c :=
  expressionWith file (fun c' _ ↦ expression c') (fun c' _ ↦ block c') c (Nat.le_refl _)
termination_by c.remaining * 4

/-- A statement with the semicolons after it. -/
def statement (c : Cursor) : Parsed Stmt c :=
  statementWith file (fun c' _ ↦ expression c') (fun c' _ ↦ block c') (fun c' _ ↦ statement c') c
    (Nat.le_refl _)
termination_by c.remaining * 4 + 1

/-- Statements in braces, or a single statement. -/
def block (c : Cursor) : Parsed (List Stmt) c := do
  match ← c.takeIf file .leftBrace with
  | some ⟨c₁, h₁⟩ =>
    let ⟨stmts, ⟨c₂, h₂⟩⟩ ← blockRest c₁
    return (stmts, ⟨c₂, by omega⟩)
  | none =>
    let ⟨s, c₁⟩ ← statement c
    return ([s], c₁)
termination_by c.remaining * 4 + 3

/-- Statements up to and including the closing brace. -/
def blockRest (c : Cursor) : Parsed (List Stmt) c := do
  let ⟨c₁, h₁⟩ ← c.skipSemicolons file
  match ← c₁.takeIf file .rightBrace with
  | some ⟨c₂, h₂⟩ => return ([], ⟨c₂, by omega⟩)
  | none =>
    if c₁.current.kind = .eof then
      .error (c₁.expected file "'\x7d'")
    else
      let ⟨s, ⟨c₂, h₂⟩⟩ ← statement c₁
      let ⟨stmts, ⟨c₃, h₃⟩⟩ ← blockRest c₂
      return (s :: stmts, ⟨c₃, by omega⟩)
termination_by c.remaining * 4 + 2

end

/-! ## Programs -/

/-- Statements up to the end of the file. -/
def program (c : Cursor) : Except Error Program := do
  let ⟨c₁, _⟩ ← c.skipSemicolons file
  if c₁.current.kind = .eof then
    return []
  else
    let ⟨s, ⟨c₂, _⟩⟩ ← statement file c₁
    let body ← program c₂
    return s :: body
termination_by c.remaining

end Parser

/-- Parses tokens into a program; `file` is the name that errors give. -/
def parse (tokens : List Token) (file : String) : Except Error Program :=
  match tokens with
  | [] => .ok []
  | t :: ts => do
    Cursor.checkLexical file t
    Parser.program file ⟨t, ts⟩

/-- Parses a source text. -/
def parseSource (source file : String) : Except Error Program := parse (scan source) file

end GemLang
