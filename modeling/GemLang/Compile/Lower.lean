import GemLang.Bytecode.Line
import GemLang.Compile.Fold
import GemLang.Number.Text
import GemLang.Text.Blank
import GemLang.Text.Quoted

/-!
# From trees to code

Every construct has a fixed shape in code:

```text
e₁ op e₂            e₁  e₂  OP
-e                  PUSH 0  e  SUB
f(a₁, …, aₙ)        ARGS  aₙ … a₁  f  CALL
o.k                 o  k  LOAD_KEY
{k: v}              NEW_TABLE  v  k  STORE_KEY
fn f(p) { b }       function f p :  b  RET
x[k₁]…[kₙ] = e      e  kₙ … k₁  LOAD_LOCAL x  STORE_NESTED_ASSIGNMENT n  STORE_LOCAL x
if c { a } else …   IF  c  THEN  a  ENDIF  ELSE  …  ENDIF
while c { b }       LOOP  IF  c  THEN  b  ENDIF  ELSE  BREAK  ENDIF  ENDLOOP
```

A `for` loop over a range starts its counter one step early and adds the step at the top of every
pass, so `continue` cannot skip it; the loop stands in a conditional that is always taken, which
gives the counter a scope of its own. A `for` loop over an iterator keeps the iterator under a
hidden name, which no program can write. Hidden names are numbered in the order in which they are
needed; the state of the lowering is the number of the last one.

Lowering is structural and cannot fail: other files have been brought in before.
-/

namespace GemLang

open Bytecode

namespace Lower

/-! ## Pieces -/

def pushNumber (n : Float) : List Line := unary .push (Number.text n)

def hiddenName (n : Nat) : String :=
  let digits := Nat.toDigits 10 n
  "0x" ++ String.ofList (List.replicate (8 - digits.length) '0' ++ digits) ++ "b"

def freshName : StateM Nat String := do
  modify (· + 1)
  return hiddenName (← get)

/-- The code of a constant in place of `lines`, when constants are computed and `e` is one. -/
def constantOr (optimize : Bool) (e : Expr) (lines : StateM Nat (List Line)) :
    StateM Nat (List Line) :=
  match (if optimize then e.constant? else none) with
  | some value => return pushNumber value
  | none => lines

/-- How a library path stands in bytecode: as it is, or quoted when it has blanks. -/
def libraryOperand (path : String) : String :=
  if path.toList.any Text.isBlank then Text.quote path else path

def branchLines (opener : Opcode) (condition body : List Line) : List Line :=
  block (.plain opener []) condition ++ block (.plain .thenOp []) body ++ bare .endIf

def otherwiseLines (body : List Line) : List Line :=
  block (.plain .elseOp []) body ++ bare .endIf

def loopLines (body : List Line) : List Line := block (.plain .loop []) body ++ bare .endLoop

/-- A function, which leaves its closure on the stack. -/
def functionLines (name : String) (params : List String) (body : List Line) : List Line :=
  block (.header name params) body ++ bare .endFunction

/-- Leaves the innermost loop when the condition holds. -/
def breakWhen (condition : List Line) : List Line := branchLines .ifOp condition (bare .breakOp)

/-- A `for` loop over a range, from the code of its parts: `first` computes the counter one step
early, and `step`, `stop` and `body` stand in the loop. -/
def rangeLines (counter : String) (first step stop body : List Line) : List Line :=
  branchLines .ifOp (unary .push "1")
    (first ++ unary .declareLocal counter ++
      loopLines
        (unary .loadLocal counter ++ step ++ bare .add ++ unary .storeLocal counter ++
          breakWhen (unary .loadLocal counter ++ stop ++ bare .greaterEq) ++ body))

/-- A `for` loop over an iterator that is kept under the name `hidden`. -/
def eachLines (hidden key value : String) (iterator body : List Line) : List Line :=
  iterator ++ unary .declareLocal hidden ++
    loopLines
      (unary .loadLocal hidden ++ bare .call ++ unary .declareLocal key ++
        unary .declareLocal value ++
        breakWhen (unary .loadLocal key ++ unary .loadLocal "null" ++ bare .eq) ++ body) ++
    unary .delete hidden

/-- A declaration of a C function: its types on the stack, the first argument on top of the other
ones. -/
def foreignLines (name path : String) (argTypes : List String) (returnType : String) : List Line :=
  argTypes.reverse.flatMap (unary .push) ++ unary .push returnType ++
    unary .push (toString argTypes.length) ++
    [⟨0, .plain .define [name, libraryOperand path]⟩]

/-- Stores the value below the keys of a path in a variable. -/
def storeLines (root : String) (depth : Nat) : List Line :=
  (if depth = 0 then []
    else unary .loadLocal root ++ unary .storePath (toString depth)) ++ unary .storeLocal root

/-! ## Constructs -/

variable (optimize : Bool)

mutual

/-- The code of an expression, which leaves one value on the stack. -/
def expr : Expr → StateM Nat (List Line)
  | .number value => return pushNumber value
  | .text value => return unary .push (Text.quote value)
  | .bool value => return unary .loadLocal (if value then "true" else "false")
  | .name x => return unary .loadLocal x
  | .binary op left right => constantOr optimize (.binary op left right) do
    let l ← expr left
    let r ← expr right
    return l ++ r ++ bare op.opcode
  | .unary op operand => constantOr optimize (.unary op operand) do
    let x ← expr operand
    match op with
    | .negate => return unary .push "0" ++ x ++ bare .sub
    | .not => return x ++ bare .not
  | .call callee args => do
    let xs ← arguments args
    let f ← expr callee
    return bare .args ++ xs ++ f ++ bare .call
  | .member object property _ => do
    let o ← expr object
    let k ← expr property
    return o ++ k ++ bare .loadKey
  | .table es => return bare .newTable ++ (← entries es)
  | .function name params body => return functionLines name params (← stmts body)

/-- The code of the arguments of a call, last one first. -/
def arguments : List Expr → StateM Nat (List Line)
  | [] => return []
  | e :: es => do
    let later ← arguments es
    let x ← expr e
    return later ++ x

/-- The code that stores the entries of a table. -/
def entries : List (Expr × Expr) → StateM Nat (List Line)
  | [] => return []
  | (key, value) :: es => do
    let v ← expr value
    let k ← expr key
    let later ← entries es
    return v ++ k ++ bare .storeKey ++ later

/-- The code of the keys of a path, last one first. -/
def path : List (Expr × Bool) → StateM Nat (List Line)
  | [] => return []
  | (key, _) :: ks => do
    let later ← path ks
    let k ← expr key
    return later ++ k

def stmts : List Stmt → StateM Nat (List Line)
  | [] => return []
  | s :: ss => do
    let x ← stmt s
    let xs ← stmts ss
    return x ++ xs

/-- The code of a statement. A reflected file has been brought in before, so the statement that
asked for it leaves no code. -/
def stmt : Stmt → StateM Nat (List Line)
  | .var name value => return (← expr value) ++ unary .declareLocal name
  | .function name params body =>
    return functionLines name params (← stmts body) ++ unary .declareLocal name
  | .assign root keys value => do
    let v ← expr value
    let ks ← path keys
    return v ++ ks ++ storeLines root keys.length
  | .cond condition body more none => do
    let c ← expr condition
    let b ← stmts body
    let later ← branches more
    return branchLines .ifOp c b ++ later
  | .cond condition body more (some other) => do
    let c ← expr condition
    let b ← stmts body
    let later ← branches more
    let o ← stmts other
    return branchLines .ifOp c b ++ later ++ otherwiseLines o
  | .while condition body => do
    let c ← expr condition
    let b ← stmts body
    return loopLines (branchLines .ifOp c b ++ otherwiseLines (bare .breakOp))
  | .forRange counter start stop (some step) body => do
    let first ← constantOr optimize (.binary .sub start step) do
      let a ← expr start
      let b ← expr step
      return a ++ b ++ bare .sub
    let b ← expr step
    let e ← expr stop
    let x ← stmts body
    return rangeLines counter first b e x
  | .forRange counter start stop none body => do
    let first ← constantOr optimize (.binary .sub start (.number 1)) do
      let a ← expr start
      return a ++ pushNumber 1 ++ bare .sub
    let e ← expr stop
    let x ← stmts body
    return rangeLines counter first (pushNumber 1) e x
  | .forEach key value iterator body => do
    let hidden ← freshName
    let i ← expr iterator
    let x ← stmts body
    return eachLines hidden key value i x
  | .return none => return unary .loadLocal "null" ++ bare .returnOp
  | .return (some value) => return (← expr value) ++ bare .returnOp
  | .break => return bare .breakOp
  | .continue => return bare .continueOp
  | .reflect _ _ => return []
  | .shine inner => stmt inner
  | .foreign name path argTypes returnType => return foreignLines name path argTypes returnType
  | .delete name => return unary .delete name
  | .expr value => return (← expr value) ++ bare .pop

def branches : List (Expr × List Stmt) → StateM Nat (List Line)
  | [] => return []
  | (condition, body) :: more => do
    let c ← expr condition
    let b ← stmts body
    let later ← branches more
    return branchLines .elifOp c b ++ later

end

/-- The code of a program: a function `main` and its declaration. -/
def program (body : Program) : List Line :=
  functionLines "main" [] ((stmts optimize body).run 0).1 ++ unary .declareLocal "main"

end Lower

end GemLang
