import GemLang.Bytecode.Opcode

/-!
# Syntax trees

A program is a list of statements. Three facts about programs are built into the types rather than
checked later. The target of an assignment is a variable with a path of keys, so nothing else can be
assigned to. A conditional has a first branch, so no `else` stands alone. And a compound assignment
such as `x += 1` is already the plain assignment of `x + 1`.
-/

namespace GemLang

open Bytecode (Opcode)

/-- The operators with two operands. -/
inductive BinaryOp where
  | add
  | sub
  | mul
  | div
  | pow
  | mod
  | eq
  | notEq
  | greater
  | less
  | greaterEq
  | lessEq
  | and
  | or
  deriving DecidableEq

def BinaryOp.opcode : BinaryOp → Opcode
  | .add => .add
  | .sub => .sub
  | .mul => .mul
  | .div => .div
  | .pow => .pow
  | .mod => .mod
  | .eq => .eq
  | .notEq => .notEq
  | .greater => .greater
  | .less => .less
  | .greaterEq => .greaterEq
  | .lessEq => .lessEq
  | .and => .and
  | .or => .or

/-- The operators with one operand. -/
inductive UnaryOp where
  | negate
  | not
  deriving DecidableEq

mutual

inductive Expr where
  | number (value : Float)
  /-- A string literal, without delimiters and with its escapes read. -/
  | text (value : String)
  | bool (value : Bool)
  | name (name : String)
  | binary (op : BinaryOp) (left right : Expr)
  | unary (op : UnaryOp) (operand : Expr)
  | call (callee : Expr) (args : List Expr)
  /-- Written `object[property]` when computed, else `object.name` with the name as a text. -/
  | member (object property : Expr) (computed : Bool)
  /-- The entries of a table literal; entries without a key are numbered from zero. -/
  | table (entries : List (Expr × Expr))
  /-- A function literal; one without a name is called `_`. -/
  | function (name : String) (params : List String) (body : List Stmt)

inductive Stmt where
  | var (name : String) (value : Expr)
  | function (name : String) (params : List String) (body : List Stmt)
  /-- Assignment to `root[key₁]…[keyₙ]`. A key comes with whether it was written in brackets. -/
  | assign (root : String) (path : List (Expr × Bool)) (value : Expr)
  /-- The first branch is the `if`, the others are `elif`s. -/
  | cond (condition : Expr) (body : List Stmt) (more : List (Expr × List Stmt))
    (otherwise : Option (List Stmt))
  | while (condition : Expr) (body : List Stmt)
  | forRange (counter : String) (start stop : Expr) (step : Option Expr) (body : List Stmt)
  | forEach (key value : String) (iterator : Expr) (body : List Stmt)
  | return (value : Option Expr)
  | break
  | continue
  /-- Takes over the exports of another file; no names at all means every export. -/
  | reflect (path : String) (names : List String)
  /-- Marks a declaration as an export. -/
  | shine (inner : Stmt)
  /-- Declares a C function. -/
  | foreign (name path : String) (argTypes : List String) (returnType : String)
  | delete (name : String)
  | expr (value : Expr)

end

/-- A whole source file. -/
abbrev Program := List Stmt

def Stmt.declaredName? : Stmt → Option String
  | .var name _ => some name
  | .foreign name _ _ _ => some name
  | .function name _ _ => some name
  | .shine inner => inner.declaredName?
  | _ => none

/-! ## Assignment targets -/

/-- The variable and the path of keys that an expression names, if it can be assigned to. -/
def Expr.target? : Expr → Option (String × List (Expr × Bool))
  | .name x => some (x, [])
  | .member object property computed =>
    object.target?.map fun (root, path) ↦ (root, path ++ [(property, computed)])
  | _ => none

/-- The expression that reads an assignment target. -/
def Expr.ofTarget (root : String) (path : List (Expr × Bool)) : Expr :=
  path.foldl (fun object (property, computed) ↦ .member object property computed) (.name root)

end GemLang
