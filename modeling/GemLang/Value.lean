import GemLang.Assoc
import GemLang.Bytecode.Code
import GemLang.Foreign.CData
import GemLang.Foreign.CType
import GemLang.Text.Quoted
import GemLang.Value.Key

/-!
# Values

What programs compute with. Text keeps its double quotes in the payload; a payload without quotes is
a bare word. The absence value is the bare word `null`, so it differs from the text `"null"`.

Functions compare by identity. A script function and a foreign function carry a number that the
machine gives out once; the functions that the machine starts with are told apart by what they are.
-/

namespace GemLang

open Bytecode (Stretch)
open Foreign (CType CFunction)

abbrev ScopeId := Nat

/-- A function of a program: its parameters, its body, and the scope it was made in. -/
structure ScriptFunction where
  identity : Nat
  name : String
  params : List String
  body : Stretch
  home : ScopeId

/-- A function that the machine provides. An iterator goes through the pairs that the machine keeps
under its number. -/
inductive Native where
  | out
  | stringLength
  | stringUpper
  | stringLower
  | stringIterator
  | tableLength
  | tableInsert
  | tableRemove
  | tableKeys
  | tableIterator
  | typeOf
  | nextOfString (iterator : Nat)
  | nextOfTable (iterator : Nat)
  deriving DecidableEq

def Native.name : Native → String
  | .out => "out"
  | .stringLength => "length"
  | .stringUpper => "upper"
  | .stringLower => "lower"
  | .stringIterator => "iterator"
  | .tableLength => "length"
  | .tableInsert => "insert"
  | .tableRemove => "remove"
  | .tableKeys => "keys"
  | .tableIterator => "iterator"
  | .typeOf => "typeof"
  | .nextOfString _ => "string_iterator"
  | .nextOfTable _ => "table_iterator"

/-- A C function with its signature. -/
structure ForeignFunction where
  identity : Nat
  name : String
  argTypes : List CType
  returnType : CType
  function : CFunction

/-- Values. -/
inductive Value where
  | number (value : Float)
  | bool (value : Bool)
  /-- Quoted text, or a bare word. -/
  | text (payload : String)
  | table (entries : List (Key × Value))
  | script (function : ScriptFunction)
  | native (function : Native)
  | foreign (function : ForeignFunction)

/-- A table: its entries in the order of insertion. -/
abbrev Table := List (Key × Value)

namespace Value

/-- What stands in a table is smaller than the table. -/
theorem sizeOf_entry_lt {t : Table} {e : Key × Value} (he : e ∈ t) :
    sizeOf e.2 < sizeOf (Value.table t) := by
  have hlt := List.sizeOf_lt_of_mem he
  obtain ⟨key, value⟩ := e
  simp only [Prod.mk.sizeOf_spec, Value.table.sizeOf_spec] at hlt ⊢
  omega

/-- The absence value. -/
def null : Value := .text "null"

/-- A text value. -/
def quoted (s : String) : Value := .text (Text.enquote s)

def isNull : Value → Bool
  | .text payload => payload == "null"
  | _ => false

/-- Whether a value counts as false; only `null` and `false` do. -/
def isFalsy (v : Value) : Bool :=
  match v with
  | .bool b => !b
  | _ => v.isNull

def kind (v : Value) : Kind :=
  match v with
  | .number _ => .number
  | .bool _ => .bool
  | .text _ => if v.isNull then .null else .string
  | .table _ => .table
  | .script _ => .function
  | .native _ => .function
  | .foreign _ => .foreign

/-- The text of a text value or a bare word, without quotes. -/
def plainText? : Value → Option String
  | .text payload => some (Text.unquote payload)
  | _ => none

/-! ## Equality -/

mutual

/-- Equality of values. Tables are equal when they have as many entries and every entry of one has
an equal one under its key in the other. -/
def beq : Value → Value → Bool
  | .number x, .number y => x == y
  | .bool a, .bool b => a == b
  | .text s, .text t => s == t
  | .table es, .table fs => es.length == fs.length && entriesBeq es fs
  | .script f, .script g => f.identity == g.identity
  | .native f, .native g => f == g
  | .foreign f, .foreign g => f.identity == g.identity
  | _, _ => false

/-- Whether every entry has an equal one in a table. -/
def entriesBeq : List (Key × Value) → Table → Bool
  | [], _ => true
  | (key, value) :: es, fs =>
    (match Assoc.get? fs key with
      | some other => beq value other
      | none => false) && entriesBeq es fs

end

instance : BEq Value := ⟨beq⟩

/-! ## Text -/

/-- Blanks in front of a line at a depth. -/
def margin (depth : Nat) : String := String.ofList (List.replicate (2 * depth) ' ')

mutual

/-- How a value at a depth in tables is shown. -/
def displayAt (depth : Nat) : Value → String
  | .number x => Number.text x
  | .bool b => if b then "true" else "false"
  | .text payload => payload
  | .table [] => "\x7b\x7d"
  | .table (e :: es) => "\x7b\n" ++ entriesAt (depth + 1) (e :: es) ++ margin depth ++ "\x7d"
  | .script f => "<function " ++ f.name ++ ">"
  | .native f => "<function " ++ f.name ++ ">"
  | .foreign f => "<foreign " ++ f.name ++ ">"

/-- How the entries of a table are shown, one to a line. -/
def entriesAt (depth : Nat) : List (Key × Value) → String
  | [] => ""
  | (key, value) :: es =>
    margin depth ++ key.display ++ ": " ++ displayAt depth value ++ "\n" ++ entriesAt depth es

end

/-- How a value is shown: text keeps its quotes. -/
def display (v : Value) : String := displayAt 0 v

/-- How a value is printed: text loses its quotes. -/
def printed (v : Value) : String := v.plainText?.getD v.display

/-! ## Keys -/

def toKey (v : Value) : Except TypeFault Key :=
  match v with
  | .number x => if x.isNaN then .error .nanKey else .ok (.ofNumber x)
  | .text payload => .ok (.text (Text.unquote payload))
  | _ => .error (.badKey v.kind)

def ofKey : Key → Value
  | .int i => .number (Float.ofInt i.toInt)
  | .double x => .number x
  | .text s => quoted s

end Value

/-! ## Tables -/

namespace Table

/-- One past the largest integer key that is not negative, or zero. Counting wraps at 64 bits. -/
def nextIndex (t : Table) : Int64 :=
  let after := t.filterMap fun e ↦
    match e.1 with
    | .int i => if 0 ≤ i then some (i + 1) else none
    | _ => none
  match after with
  | [] => 0
  | i :: is => is.foldl max i

/-- Stores a value at the end of a path of keys, with empty tables for the missing steps. -/
def storePath (t : Table) (keys : List Key) (value : Value) : Except Error Table :=
  match keys with
  | [] => .error (.malformed .emptyPath)
  | [key] => .ok (Assoc.insert t key value)
  | key :: keys =>
    let inner := (Assoc.get? t key).getD (.table [])
    match inner with
    | .table u => do
      let u ← storePath u keys value
      return Assoc.insert t key (.table u)
    | other => .error (.type (.assignInto other.kind key.display))

end Table

end GemLang
