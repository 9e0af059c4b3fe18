import GemLang.Machine.State
import GemLang.Text.Case

/-!
# Functions that the machine provides

They take their arguments from the stack of a scope, the first one on top, and leave one result
there; a step of an iterator leaves two, a key on top of a value. A function reached through a value
gets that value as its first argument.
-/

namespace GemLang

namespace Exec

/-- Pops a text; bare words are none. -/
def popText (s : ScopeId) : Exec String := do
  let v ← pop s
  match v with
  | .text payload =>
    if payload.toList.head? = some '"' then return Text.unquote payload
    else fail (.type (.expectedText v.kind))
  | _ => fail (.type (.expectedText v.kind))

/-- Pushes the next pair of an iterator, its key on top. -/
def pushNextPair (s : ScopeId) (iterator : Nat) : Exec Unit := do
  let (key, value) ← nextPair iterator
  push s value
  push s key

end Exec

open Exec

/-- The pairs of a position and a character of a text. -/
def characterPairs (s : String) : List (Value × Value) :=
  s.toList.zipIdx.map fun (c, i) ↦ (.number (Float.ofNat i), .quoted c.toString)

/-- The pairs of a reported key and a value of a table. -/
def entryPairs (t : Table) : List (Value × Value) :=
  t.map fun (key, value) ↦ (.ofKey key, value)

/-- The reported keys of a table, numbered from zero. -/
def keyTable (t : Table) : Table :=
  Assoc.ofList (t.zipIdx.map fun ((key, _), i) ↦ (.int (Int64.ofNat i), .ofKey key))

/-- Calls a function on the stack of a scope. -/
def Native.call (f : Native) (s : ScopeId) : Exec Unit :=
  match f with
  | .out => do
    let values ← drain s
    printLine (String.join (values.map Value.printed))
    push s .null
  | .stringLength => do
    let text ← popText s
    push s (.number (Float.ofNat text.length))
  | .stringUpper => do
    let text ← popText s
    push s (.quoted (Text.upper text))
  | .stringLower => do
    let text ← popText s
    push s (.quoted (Text.lower text))
  | .stringIterator => do
    let text ← popText s
    let iterator ← newIterator (characterPairs text)
    push s (.native (.nextOfString iterator))
  | .tableLength => do
    let t ← popTable s
    push s (.number (Float.ofNat t.length))
  | .tableInsert => do
    let t ← popTable s
    let value ← pop s
    push s (.table (Assoc.insert t (.int (Table.nextIndex t)) value))
  | .tableRemove => do
    let t ← popTable s
    let key ← popKey s
    push s (.table (Assoc.erase t key))
  | .tableKeys => do
    let t ← popTable s
    push s (.table (keyTable t))
  | .tableIterator => do
    let t ← popTable s
    let iterator ← newIterator (entryPairs t)
    push s (.native (.nextOfTable iterator))
  | .typeOf => do
    let v ← popOrNull s
    push s (.quoted v.kind.name)
  | .nextOfString iterator => pushNextPair s iterator
  | .nextOfTable iterator => pushNextPair s iterator

/-! ## A new machine -/

/-- A table of functions by name. -/
def nativeTable (functions : List (String × Native)) : Value :=
  .table (functions.map fun (name, f) ↦ (.text name, .native f))

/-- What the outermost scope binds at the start. -/
def globals : Assoc String Value :=
  [("null", .null), ("true", .bool true), ("false", .bool false),
    ("console", nativeTable [("out", .out)]),
    ("string", nativeTable [("length", .stringLength), ("upper", .stringUpper),
      ("lower", .stringLower), ("iterator", .stringIterator)]),
    ("table", nativeTable [("length", .tableLength), ("insert", .tableInsert),
      ("remove", .tableRemove), ("keys", .tableKeys), ("iterator", .tableIterator)]),
    ("typeof", .native .typeOf)]

/-- A machine that has run nothing yet. -/
def Machine.start (config : Config) (host : Host) : Machine where
  config := config
  host := host
  heap := ⟨#[⟨[], globals, []⟩]⟩
  iterators := #[]
  libraries := []
  requests := []
  callDepth := 0
  marks := []
  nextIdentity := 0

end GemLang
