import GemLang.Syntax.Parser
import Mathlib

/-!
# Descent without a measure

The parser once more, as it would be written without saying why it ends: every function goes over
the tokens by `advance`, which past the last token goes on giving the end of the file, and calls the
others wherever the grammar says so. Nothing about the tokens makes this stop.

Instead it is given how deep its calls may be nested, where every pass of a loop counts as a call
made by the pass before, and it gives up if that is not enough. So a walk that never stops gives up
however deep it may go, and one that does not give up has made finitely many steps.

Walks have the names of the parsers that they are the unguarded forms of.
-/

namespace GemLang

/-- A walk over tokens: an error, or a result and the cursor where it ended; nothing at all if it
gave up. -/
abbrev Walk (α : Type) := StateT Cursor (ExceptT Error Option) α

/-- How a walk from a cursor ends, if it does not give up. -/
def Walk.outcome? {α : Type} (w : Walk α) (c : Cursor) : Option (Except Error (α × Cursor)) := w c

namespace Descent

/-! ## Moves -/

/-- Ends the walk without an outcome. -/
def giveUp {α : Type} : Walk α := fun _ ↦ none

/-- Ends the walk with an error about where it stands. -/
def refuse {α : Type} (e : Cursor → Error) : Walk α := fun c ↦ some (.error (e c))

/-- Looks at where the walk stands. -/
def look {α : Type} (f : Cursor → α) : Walk α := fun c ↦ some (.ok (f c, c))

/-- The token that the next step leads onto; after the last one it is the end of the file. -/
def next (c : Cursor) : Token := c.rest.head?.getD ⟨.eof, "", c.current.position⟩

variable (file : String)

/-- Steps onto the next token, and hands back the one that was being looked at. -/
def advance : Walk Token := fun c ↦
  match Cursor.checkLexical file (next c) with
  | .error e => some (.error e)
  | .ok () => some (.ok (c.current, ⟨next c, c.rest.tail⟩))

/-- Steps over a token of the given kind, if the walk is on one. -/
def takeIf (kind : TokenKind) : Walk Bool := do
  if (← look Cursor.current).kind = kind then
    let _ ← advance file
    return true
  else
    return false

def consume (kind : TokenKind) (what : String) : Walk Token := do
  if (← look Cursor.current).kind = kind then
    advance file
  else
    refuse (Cursor.expected file · what)

def identifier : Walk String := do
  let t ← consume file .identifier "identifier"
  return t.text

def stringLiteral : Walk String := do
  let t ← consume file .text "string"
  return Text.literalText t.text

def skipSemicolons : Nat → Walk Unit
  | 0 => giveUp
  | n + 1 => do
    if ← takeIf file .semicolon then
      skipSemicolons n
    else
      return ()

def moreNames (close : TokenKind) : Nat → Walk (List String)
  | 0 => giveUp
  | n + 1 => do
    let name ← identifier file
    if ← takeIf file close then
      return [name]
    else
      let _ ← consume file .comma "','"
      let names ← moreNames close n
      return name :: names

def nameList (close : TokenKind) (n : Nat) : Walk (List String) := do
  if ← takeIf file close then
    return []
  else
    moreNames file close n

/-! ## Statements without expressions -/

def reflectStatement (n : Nat) : Walk Stmt := do
  let path ← stringLiteral file
  if ← takeIf file .doubleColon then
    let _ ← consume file .leftBrace "'\x7b'"
    let names ← nameList file .rightBrace n
    return .reflect path names
  else
    return .reflect path []

def foreignStatement (n : Nat) : Walk Stmt := do
  let name ← identifier file
  let _ ← consume file .doubleColon "'::'"
  let path ← stringLiteral file
  let _ ← consume file .doubleColon "'::'"
  let _ ← consume file .leftParen "'('"
  let argTypes ← nameList file .rightParen n
  let _ ← consume file .arrow "'->'"
  let returnType ← identifier file
  return .foreign name path argTypes returnType

def boundNames (n : Nat) : Walk (List String) := do
  if ← takeIf file .leftParen then
    nameList file .rightParen n
  else
    let name ← identifier file
    return [name]

def loopNames (n : Nat) : Walk (List String) := do
  let names ← boundNames file n
  let _ ← consume file .kwIn "'in'"
  return names

/-! ## Operands without expressions -/

def numberLiteral : Walk Expr := do
  match numberValue? (← look Cursor.current).text with
  | none => refuse (Cursor.fail file · .badNumber)
  | some value =>
    let _ ← advance file
    return .number value

def tableKey : Walk Expr := do
  let t ← look Cursor.current
  if t.kind = .number then
    numberLiteral file
  else if t.kind = .identifier then
    let name ← identifier file
    return .text name
  else
    let value ← stringLiteral file
    return .text value

def entryEnd : Walk Unit := do
  if (← look Cursor.current).kind = .rightBrace then
    return ()
  else
    let _ ← consume file .comma "',' or '\x7d'"
    return ()

def functionName : Walk String := do
  if (← look Cursor.current).kind = .identifier then
    identifier file
  else
    return "_"

/-! ## Expressions, statements and blocks -/

def tighter? : Level → Option Level
  | .or => some .and
  | .and => some .comparison
  | .comparison => some .additive
  | .additive => some .multiplicative
  | .multiplicative => none

mutual

def expression : Nat → Walk Expr
  | 0 => giveUp
  | n + 1 => binary n .or

def binary : Nat → Level → Walk Expr
  | 0, _ => giveUp
  | n + 1, level => do
    let left ← operand n level
    binaryRest n level left

def binaryRest : Nat → Level → Expr → Walk Expr
  | 0, _, _ => giveUp
  | n + 1, level, left => do
    match level.operator? (← look Cursor.current).kind with
    | none => return left
    | some op =>
      let _ ← advance file
      let right ← operand n level
      binaryRest n level (.binary op left right)

def operand : Nat → Level → Walk Expr
  | 0, _ => giveUp
  | n + 1, level =>
    match tighter? level with
    | some level => binary n level
    | none => unary n

def unary : Nat → Walk Expr
  | 0 => giveUp
  | n + 1 => do
    match unaryOperator? (← look Cursor.current).kind with
    | some op =>
      let _ ← advance file
      let e ← unary n
      return .unary op e
    | none =>
      let base ← suffixed n
      if ← takeIf file .caret then
        let exponent ← unary n
        return .binary .pow base exponent
      else
        return base

def suffixed : Nat → Walk Expr
  | 0 => giveUp
  | n + 1 => do
    let e ← primary n
    suffixes n e

def suffixes : Nat → Expr → Walk Expr
  | 0, _ => giveUp
  | n + 1, e => do
    let t ← look Cursor.current
    if t.kind = .dot then
      let _ ← advance file
      let name ← identifier file
      suffixes n (.member e (.text name) false)
    else if t.kind = .leftBracket then
      let _ ← advance file
      let property ← expression n
      let _ ← consume file .rightBracket "']'"
      suffixes n (.member e property true)
    else if t.kind = .leftParen then
      let _ ← advance file
      let args ← arguments n
      suffixes n (.call e args)
    else
      return e

def primary : Nat → Walk Expr
  | 0 => giveUp
  | n + 1 => do
    let t ← look Cursor.current
    if t.kind = .number then
      numberLiteral file
    else if t.kind = .text then
      let value ← stringLiteral file
      return .text value
    else if t.kind = .kwTrue then
      let _ ← advance file
      return .bool true
    else if t.kind = .kwFalse then
      let _ ← advance file
      return .bool false
    else if t.kind = .identifier then
      let name ← identifier file
      return .name name
    else if t.kind = .leftParen then
      let _ ← advance file
      let e ← expression n
      let _ ← consume file .rightParen "')' after expression"
      return e
    else if t.kind = .leftBrace then
      let _ ← advance file
      let entries ← tableEntries n 0
      return .table entries
    else if t.kind = .kwFn then
      let (name, params, stmts) ← function n
      return .function name params stmts
    else
      refuse (Cursor.expected file · "expression")

def moreArguments : Nat → Walk (List Expr)
  | 0 => giveUp
  | n + 1 => do
    let e ← expression n
    if ← takeIf file .rightParen then
      return [e]
    else
      let _ ← consume file .comma "','"
      let es ← moreArguments n
      return e :: es

def arguments : Nat → Walk (List Expr)
  | 0 => giveUp
  | n + 1 => do
    if ← takeIf file .rightParen then
      return []
    else
      moreArguments n

def tableEntry : Nat → Float → Walk ((Expr × Expr) × Float)
  | 0, _ => giveUp
  | n + 1, position => do
    if ← look Cursor.atKey then
      let key ← tableKey file
      let _ ← consume file .colon "':'"
      let value ← expression n
      return ((key, value), position)
    else
      let value ← expression n
      return ((.number position, value), position + 1)

def tableEntries : Nat → Float → Walk (List (Expr × Expr))
  | 0, _ => giveUp
  | n + 1, position => do
    if ← takeIf file .rightBrace then
      return []
    else
      let (entry, position) ← tableEntry n position
      entryEnd file
      let entries ← tableEntries n position
      return entry :: entries

def function : Nat → Walk (String × List String × List Stmt)
  | 0 => giveUp
  | n + 1 => do
    let _ ← consume file .kwFn "'fn'"
    let name ← functionName file
    let _ ← consume file .leftParen "'('"
    let params ← nameList file .rightParen n
    let stmts ← block n
    return (name, params, stmts)

def condRest : Nat → Walk (List (Expr × List Stmt) × Option (List Stmt))
  | 0 => giveUp
  | n + 1 => do
    skipSemicolons file n
    if ← takeIf file .kwElif then
      let condition ← expression n
      let stmts ← block n
      let (branches, otherwise) ← condRest n
      return ((condition, stmts) :: branches, otherwise)
    else if ← takeIf file .kwElse then
      let stmts ← block n
      return ([], some stmts)
    else
      return ([], none)

def varStatement : Nat → Walk Stmt
  | 0 => giveUp
  | n + 1 => do
    let name ← identifier file
    if ← takeIf file .equal then
      let value ← expression n
      return .var name value
    else
      return .var name (.number 0)

def condStatement : Nat → Walk Stmt
  | 0 => giveUp
  | n + 1 => do
    let condition ← expression n
    let stmts ← block n
    let (branches, otherwise) ← condRest n
    return .cond condition stmts branches otherwise

def whileStatement : Nat → Walk Stmt
  | 0 => giveUp
  | n + 1 => do
    let condition ← expression n
    let stmts ← block n
    return .while condition stmts

def forStatement : Nat → Walk Stmt
  | 0 => giveUp
  | n + 1 => do
    match ← loopNames file n with
    | [counter] =>
      let _ ← consume file .leftParen "'(' before the loop range"
      match ← arguments n with
      | [start, stop] =>
        let stmts ← block n
        return .forRange counter start stop none stmts
      | [start, stop, step] =>
        let stmts ← block n
        return .forRange counter start stop (some step) stmts
      | _ => refuse (Cursor.fail file · .loopRange)
    | [key, value] =>
      let iterator ← expression n
      let stmts ← block n
      return .forEach key value iterator stmts
    | _ => refuse (Cursor.fail file · .loopNames)

def returnStatement : Nat → Nat → Walk Stmt
  | 0, _ => giveUp
  | n + 1, line => do
    let t ← look Cursor.current
    if t.kind = .rightBrace ∨ t.kind = .semicolon ∨ t.kind = .eof ∨ line < t.position.line then
      return .return none
    else
      let value ← expression n
      return .return (some value)

def shineStatement : Nat → Walk Stmt
  | 0 => giveUp
  | n + 1 => do
    let t ← look Cursor.current
    if t.kind = .kwVar ∨ t.kind = .kwFn ∨ t.kind = .kwExtern then
      let inner ← statement n
      return .shine inner
    else
      refuse (Cursor.expected file · "declaration after 'shine'")

def expressionStatement : Nat → Walk Stmt
  | 0 => giveUp
  | n + 1 => do
    let e ← expression n
    match assignment? (← look Cursor.current).kind with
    | none => return .expr e
    | some op =>
      match e.target? with
      | none => refuse (Cursor.fail file · .badTarget)
      | some (root, path) =>
        let _ ← advance file
        let value ← expression n
        let value :=
          match op with
          | none => value
          | some op => .binary op e value
        return .assign root path value

def bareStatement : Nat → Walk Stmt
  | 0 => giveUp
  | n + 1 => do
    let t ← look Cursor.current
    let following ← look Cursor.peek?
    if t.kind = .kwVar then
      let _ ← advance file
      varStatement n
    else if t.kind = .kwFn ∧ following = some .identifier then
      let (name, params, stmts) ← function n
      return .function name params stmts
    else if t.kind = .kwIf then
      let _ ← advance file
      condStatement n
    else if t.kind = .kwWhile then
      let _ ← advance file
      whileStatement n
    else if t.kind = .kwFor then
      let _ ← advance file
      forStatement n
    else if t.kind = .kwReturn then
      let keyword ← advance file
      returnStatement n keyword.position.line
    else if t.kind = .kwBreak then
      let _ ← advance file
      return .break
    else if t.kind = .kwContinue then
      let _ ← advance file
      return .continue
    else if t.kind = .kwReflect then
      let _ ← advance file
      reflectStatement file n
    else if t.kind = .kwShine then
      let _ ← advance file
      shineStatement n
    else if t.kind = .kwExtern then
      let _ ← advance file
      foreignStatement file n
    else if t.kind = .kwDelete then
      let _ ← advance file
      let name ← identifier file
      return .delete name
    else
      expressionStatement n

def statement : Nat → Walk Stmt
  | 0 => giveUp
  | n + 1 => do
    let s ← bareStatement n
    skipSemicolons file n
    return s

def block : Nat → Walk (List Stmt)
  | 0 => giveUp
  | n + 1 => do
    if ← takeIf file .leftBrace then
      blockRest n
    else
      let s ← statement n
      return [s]

def blockRest : Nat → Walk (List Stmt)
  | 0 => giveUp
  | n + 1 => do
    skipSemicolons file n
    if ← takeIf file .rightBrace then
      return []
    else if (← look Cursor.current).kind = .eof then
      refuse (Cursor.expected file · "'\x7d'")
    else
      let s ← statement n
      let stmts ← blockRest n
      return s :: stmts

end

/-! ## Programs -/

def program : Nat → Walk Program
  | 0 => giveUp
  | n + 1 => do
    skipSemicolons file n
    if (← look Cursor.current).kind = .eof then
      return []
    else
      let s ← statement file n
      let body ← program n
      return s :: body

def start (n : Nat) (tokens : List Token) : Option (Except Error Program) :=
  let first := tokens.head?.getD ⟨.eof, "", .start⟩
  match Cursor.checkLexical file first with
  | .error e => some (.error e)
  | .ok () => ((program file n).outcome? ⟨first, tokens.tail⟩).map (Except.map Prod.fst)

end Descent

end GemLang
