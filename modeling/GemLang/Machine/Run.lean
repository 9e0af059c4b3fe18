import GemLang.Bytecode.Block
import GemLang.Machine.Step

/-!
# Runs

Running code in a scope: plain instructions one after the other, branches, loops and calls. A run
ends when its code does, or earlier when control leaves it; what it left by is a signal, which the
enclosing loop or call takes up.

The functions here take a number of steps. It bounds how long a chain of steps they follow, so that
they are total; any number that is large enough gives the same answer.

## Scopes

A chain of branches runs in one new scope, conditions and bodies alike, and so does a loop, all its
passes together. A call runs in a new scope inside the one where the function was made.
-/

namespace GemLang

open Bytecode (Opcode Stretch)
open Exec

/-- How control leaves code before its end. -/
inductive Signal where
  | returned (value : Value)
  | broke
  | continued

namespace Exec

/-- Stops with a fault of the code itself. -/
def checkCode {α : Type} : Except CodeFault α → Exec α
  | .ok a => pure a
  | .error e => fail (.malformed e)

def outOfSteps {α : Type} : Exec α := throw .outOfSteps

/-- Pushes values, the first one lowest. -/
def pushAll (s : ScopeId) : List Value → Exec Unit
  | [] => return
  | v :: vs => do
    push s v
    pushAll s vs

/-- Pops `count` values, the top one first. -/
def popMany (s : ScopeId) : Nat → Exec (List Value)
  | 0 => return []
  | count + 1 => do
    let v ← pop s
    let vs ← popMany s count
    return v :: vs

/-! ## Calls of functions that are not in the program -/

/-- Calls a function of the machine. With marked arguments it sees exactly those, in a scope of its
own, and gives one result; otherwise it works on the stack of the caller. -/
def callNative (f : Native) (s : ScopeId) : Option Nat → Exec Unit
  | some count => do
    let frame ← newScope s
    pushAll frame (← takeTop s count)
    f.call frame
    push s (← popOrNull frame)
  | none => f.call s

def callForeign (f : ForeignFunction) (s : ScopeId) (marked : Option Nat) : Exec Unit := do
  let wanted := f.argTypes.length
  let given := marked.getD wanted
  if given ≠ wanted then
    fail (.foreign (.argumentCount f.name wanted given))
  else
    let args ← popMany s wanted
    push s (← check (Foreign.call f args))

/-! ## Functions of the program -/

/-- Takes a function off the front of a stretch and pushes it. -/
def makeFunction (s : ScopeId) (c : Stretch) : Exec Stretch := do
  let ((name, params, body), rest) ← checkCode c.function
  let identity ← freshIdentity
  push s (.script ⟨identity, name, params, body, s⟩)
  return rest

/-- Binds parameters in `frame` to the values on top of the stack of `caller`, of which `provided`
may be used. The parameters that are left are `null`. -/
def bindParams (caller frame : ScopeId) : Nat → List String → Exec Unit
  | _, [] => return
  | 0, param :: params => do
    declare frame param .null
    bindParams caller frame 0 params
  | provided + 1, param :: params => do
    declare frame param (← pop caller)
    bindParams caller frame provided params

/-- Makes the scope that a call of a function runs in, with its parameters bound. Marked arguments
are all taken off the stack of the caller. Unmarked ones are taken for as many parameters as there
are values. -/
def enterFunction (f : ScriptFunction) (caller : ScopeId) (marked : Option Nat) : Exec ScopeId := do
  let frame ← newScope f.home
  let passed := marked.getD (← depth caller)
  let provided := min f.params.length passed
  bindParams caller frame provided f.params
  match marked with
  | some count => do
    let _ ← takeTop caller (count - provided)
    return frame
  | none => return frame

/-- The result of a call that ended with a signal or at the end of the function. -/
def callResult (f : ScriptFunction) (frame : ScopeId) : Option Signal → Exec Value
  | some (.returned v) => return v
  | none => popOrNull frame
  | some .broke | some .continued => fail (.type (.escapedLoop (some f.name)))

end Exec

/-! ## Runs -/

mutual

/-- Runs a stretch of code in a scope, to its end or until control leaves it. -/
def run : Nat → ScopeId → Stretch → Exec (Option Signal)
  | 0, _, _ => outOfSteps
  | fuel + 1, s, c =>
    match c.code with
    | [] => return none
    | .operand text :: _ => fail (.malformed (.strayOperand text c.position))
    | .op op :: code =>
      match op.role with
      | .plain => do
        let (operands, rest) ←
          checkCode (Stretch.operands ⟨c.position + 1, code⟩ op.operandCount)
        perform s op operands
        run fuel s rest
      | .call => do
        call fuel s
        run fuel s ⟨c.position + 1, code⟩
      | .leave => return some (.returned (← popOrNull s))
      | .breakLoop => return some .broke
      | .nextPass => return some .continued
      | .branch => do
        let block ← newScope s
        match ← branch fuel block ⟨c.position + 1, code⟩ with
        | .error signal => return some signal
        | .ok rest => run fuel s rest
      | .loop => do
        let (body, rest) ← checkCode (Stretch.block .loop ⟨c.position + 1, code⟩)
        let block ← newScope s
        match ← iterate fuel block body with
        | some signal => return some signal
        | none => run fuel s rest
      | .function => do
        let rest ← makeFunction s ⟨c.position + 1, code⟩
        run fuel s rest
      | .divider => fail (.malformed (.unexpected op c.position))
termination_by structural fuel => fuel

/-- Runs a chain of branches from a condition on, and gives the code after the chain unless control
left it. Only the branch taken runs, but the others must be well formed too. -/
def branch : Nat → ScopeId → Stretch → Exec (Except Signal Stretch)
  | 0, _, _ => outOfSteps
  | fuel + 1, block, c => do
    let (condition, afterThen) ← checkCode c.condition
    let (body, rest) ← checkCode (afterThen.block .branch)
    match ← run fuel block condition with
    | some signal => return .error signal
    | none =>
      if (← pop block).isFalsy then
        match rest.code with
        | .op .elifOp :: code => branch fuel block ⟨rest.position + 1, code⟩
        | .op .elseOp :: code => do
          let (body, rest) ← checkCode (Stretch.block .branch ⟨rest.position + 1, code⟩)
          match ← run fuel block body with
          | some signal => return .error signal
          | none => return .ok rest
        | _ => return .ok rest
      else
        let signal ← run fuel block body
        let rest ← checkCode rest.skipChain
        match signal with
        | some signal => return .error signal
        | none => return .ok rest
termination_by structural fuel => fuel

/-- Runs the body of a loop again and again until control leaves the loop. -/
def iterate : Nat → ScopeId → Stretch → Exec (Option Signal)
  | 0, _, _ => outOfSteps
  | fuel + 1, block, body => do
    match ← run fuel block body with
    | none => iterate fuel block body
    | some .continued => iterate fuel block body
    | some .broke => return none
    | some (.returned v) => return some (.returned v)
termination_by structural fuel => fuel

/-- Pops a function and calls it. -/
def call : Nat → ScopeId → Exec Unit
  | 0, _ => outOfSteps
  | fuel + 1, s => do
    let callee ← pop s
    let marked ← argumentCount s
    match callee with
    | .native f => callNative f s marked
    | .script f => do
      push s (← callScript fuel f s marked)
    | .foreign f => callForeign f s marked
    | other => fail (.notCallable other.kind)
termination_by structural fuel => fuel

/-- Calls a function of the program with arguments from the stack of the caller, the first one on
top. -/
def callScript : Nat → ScriptFunction → ScopeId → Option Nat → Exec Value
  | 0, _, _, _ => outOfSteps
  | fuel + 1, f, caller, marked => do
    let m ← get
    if m.config.maxCallDepth ≤ m.callDepth then
      fail .stackOverflow
    else
      let frame ← enterFunction f caller marked
      let signal ← counted (run fuel frame f.body)
      callResult f frame signal
termination_by structural fuel => fuel

end

/-! ## Programs -/

/-- What runs after the declarations of a program: its `main` is called. -/
def callMain : String := "\nLOAD_LOCAL main\nCALL"

/-- Runs bytecode in the outermost scope and drops the result of its `main`. The writer is flushed
before anything is made of how the run ended. -/
def evaluate (fuel : Nat) (bytecode : String) : Exec Unit := do
  modify ({ · with marks := [] })
  let code ← checkCode (Bytecode.decode (bytecode ++ callMain))
  match ← flushed (run fuel Machine.root ⟨0, code⟩) with
  | some .broke | some .continued => fail (.type (.escapedLoop none))
  | some (.returned _) | none =>
    let _ ← popOrNull Machine.root

end GemLang
