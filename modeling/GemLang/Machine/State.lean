import GemLang.Error
import GemLang.Machine.Host
import GemLang.Scope

/-!
# The state of the machine

A machine holds all scopes, what it asked its writer for, the calls under way, and what it has
handed out: the iterators and the libraries in use. Its operations either go on or stop with an
error, and the state they stopped in is kept: what was printed stays printed.

A run is given a number of steps that it may take. Running out of steps is not an error of the
program, so it is kept apart.
-/

namespace GemLang

/-- Limits and modes of a machine. -/
structure Config where
  /-- Whether assigning to a name that is not bound is an error. -/
  strict : Bool
  /-- How many calls of script functions may be under way at once. -/
  maxCallDepth : Nat
  /-- How many values a stack may hold. -/
  maxStack : Nat

/-- The usual limits. -/
def Config.standard (strict : Bool) : Config := ⟨strict, 200, 256⟩

/-- A library in use, with the path it was asked for by. -/
structure LoadedLibrary where
  path : Path
  library : Foreign.OpenLibrary

/-- The state of a machine. -/
structure Machine where
  config : Config
  host : Host
  heap : Heap
  /-- What is still to come of every iterator, as pairs of a key and a value. -/
  iterators : Array (List (Value × Value))
  libraries : List LoadedLibrary
  /-- What the writer was asked for, the latest request first. -/
  requests : List Writer.Request
  callDepth : Nat
  /-- Where the arguments of each pending call start, innermost first. -/
  marks : List (ScopeId × Nat)
  /-- The next number to tell functions apart by. -/
  nextIdentity : Nat

/-- What the machine has printed: all that it handed to the writer. -/
def Machine.output (m : Machine) : String := String.join (m.requests.reverse.map (·.text))

/-- Why the writer does not do what it is asked next, if it does not. -/
def Machine.fault? (m : Machine) (request : Writer.Request) : Option String :=
  m.host.writer.fault? m.requests request

/-- The machine after it asked something of its writer. -/
def Machine.asked (m : Machine) (request : Writer.Request) : Machine :=
  { m with requests := request :: m.requests }

/-- The scope around all others. -/
def Machine.root : ScopeId := 0

inductive Stop where
  | error (error : Error)
  | outOfSteps

/-- An operation of the machine. -/
abbrev Exec := EStateM Stop Machine

namespace Exec

def fail {α : Type} (e : Error) : Exec α := throw (.error e)

/-- Stops with an error that an operation on values found. -/
def check {α : Type} : Except Error α → Exec α
  | .ok a => pure a
  | .error e => fail e

/-- Stops with a fault of types that an operation on values found. -/
def checkType {α : Type} : Except TypeFault α → Exec α
  | .ok a => pure a
  | .error e => fail (.type e)

/-! ## Scopes -/

def modifyHeap (f : Heap → Heap) : Exec Unit := modify fun m ↦ { m with heap := f m.heap }

/-- A new scope inside `parent`. -/
def newScope (parent : ScopeId) : Exec ScopeId :=
  modifyGet fun m ↦ (m.heap.nextScope, { m with heap := m.heap.addChild parent })

/-- The number of values on the stack of a scope. -/
def depth (s : ScopeId) : Exec Nat := return (← get).heap.depth s

/-- Pushes a value, if the stack has room. -/
def push (s : ScopeId) (v : Value) : Exec Unit := fun m ↦
  if m.heap.depth s < m.config.maxStack then
    .ok () { m with heap := m.heap.push s v }
  else
    .error (.error .stackOverflow) m

def pop (s : ScopeId) : Exec Value := fun m ↦
  match m.heap.stack s with
  | v :: rest => .ok v { m with heap := m.heap.setStack s rest }
  | [] => .error (.error .stackUnderflow) m

/-- Pops the top value, or gives `null` when there is none. -/
def popOrNull (s : ScopeId) : Exec Value := fun m ↦
  match m.heap.stack s with
  | v :: rest => .ok v { m with heap := m.heap.setStack s rest }
  | [] => .ok .null m

def popNumber (s : ScopeId) : Exec Float := do
  match ← pop s with
  | .number x => return x
  | v => fail (.type (.expectedNumber v.kind))

def popTable (s : ScopeId) : Exec Table := do
  match ← pop s with
  | .table t => return t
  | v => fail (.type (.expectedTable v.kind))

def popKey (s : ScopeId) : Exec Key := do
  checkType (← pop s).toKey

/-- Takes the top `count` values off a stack, the lowest of them first. -/
def takeTop (s : ScopeId) (count : Nat) : Exec (List Value) := fun m ↦
  let values := m.heap.stack s
  if values.length < count then
    .error (.error .stackUnderflow) m
  else
    .ok (values.take count).reverse { m with heap := m.heap.setStack s (values.drop count) }

/-- Takes everything off a stack, the top value first. -/
def drain (s : ScopeId) : Exec (List Value) := fun m ↦
  .ok (m.heap.stack s) { m with heap := m.heap.setStack s [] }

def declare (s : ScopeId) (name : String) (v : Value) : Exec Unit :=
  modifyHeap (·.declare s name v)

def lookup (s : ScopeId) (name : String) : Exec Value := fun m ↦
  match m.heap.lookup s name with
  | some v => .ok v m
  | none => .error (.error (.undefined name)) m

/-- Assigns to the nearest binding of a name, if there is one. -/
def assign (s : ScopeId) (name : String) (v : Value) : Exec Bool := fun m ↦
  match m.heap.owner? s name with
  | some o => .ok true { m with heap := m.heap.declare o name v }
  | none => .ok false m

/-- Removes the nearest binding of a name. -/
def remove (s : ScopeId) (name : String) : Exec Unit := fun m ↦
  match m.heap.owner? s name with
  | some o => .ok () { m with heap := m.heap.undeclare o name }
  | none => .error (.error (.undefined name)) m

/-! ## The rest of the state -/

def ask (request : Writer.Request) : Exec Unit := fun m ↦
  match m.fault? request with
  | none => .ok () (m.asked request)
  | some reason => .error (.error (.output reason)) (m.asked request)

def printLine (line : String) : Exec Unit := ask (.write (line ++ "\n"))

/-- Runs an operation and has the writer flushed after it, whether it came to a result or stopped
with an error. If that fails, it is the error, in place of what the operation came to. An operation
that has used up its steps has not ended, so nothing comes after it. -/
def flushed {α : Type} (x : Exec α) : Exec α := fun m ↦
  match x m with
  | .ok a m => (do ask .flush; return a : Exec α) m
  | .error (.error e) m => (do ask .flush; fail e : Exec α) m
  | .error .outOfSteps m => .error .outOfSteps m

/-- A number that no function has been told apart by. -/
def freshIdentity : Exec Nat :=
  modifyGet fun m ↦ (m.nextIdentity, { m with nextIdentity := m.nextIdentity + 1 })

def newIterator (pairs : List (Value × Value)) : Exec Nat :=
  modifyGet fun m ↦ (m.iterators.size, { m with iterators := m.iterators.push pairs })

/-- The next pair of an iterator; past the end it is `null` twice. -/
def nextPair (iterator : Nat) : Exec (Value × Value) :=
  modifyGet fun m ↦
    match m.iterators.getD iterator [] with
    | pair :: rest => (pair, { m with iterators := m.iterators.setIfInBounds iterator rest })
    | [] => ((.null, .null), m)

/-- Marks that the arguments of a call start here. -/
def mark (s : ScopeId) : Exec Unit := modify fun m ↦
  { m with marks := (s, m.heap.depth s) :: m.marks }

/-- The number of values above the innermost mark, if that mark was made in this scope; the mark is
then used up. -/
def argumentCount (s : ScopeId) : Exec (Option Nat) := fun m ↦
  match m.marks with
  | (marked, depth) :: rest =>
    if marked = s ∧ depth ≤ m.heap.depth s then
      .ok (some (m.heap.depth s - depth)) { m with marks := rest }
    else
      .ok none m
  | [] => .ok none m

/-- Counts a call as under way while an operation runs, however that ends. -/
def counted {α : Type} (x : Exec α) : Exec α := fun m ↦
  match x { m with callDepth := m.callDepth + 1 } with
  | .ok a m => .ok a { m with callDepth := m.callDepth - 1 }
  | .error e m => .error e { m with callDepth := m.callDepth - 1 }

end Exec

end GemLang
