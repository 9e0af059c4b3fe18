import GemLang.Foreign.Marshal
import GemLang.Machine.Native

/-!
# Plain instructions

The instructions that change the state and go on to the next one. Those that choose what runs next
are in the module on runs.

An instruction takes its operands off the stack before it looks at them, so what is left on the
stack after an error depends on the instruction: arithmetic has taken both operands, a comparison
only those up to the first that is no number.
-/

namespace GemLang

open Bytecode (Opcode)
open Exec

/-! ## Literals and operators -/

/-- Whether a literal is meant as a number: a digit comes first, after at most a minus and a
point. -/
def looksNumeric (cs : List Char) : Bool :=
  match cs with
  | '-' :: '.' :: c :: _ => c.isDigit
  | '-' :: c :: _ => c.isDigit
  | '.' :: c :: _ => c.isDigit
  | c :: _ => c.isDigit
  | [] => false

/-- The value of a literal: quoted text with its escapes read, a number, or a bare word. -/
def literal (text : String) : Except Error Value :=
  if text.toList.head? = some '"' then
    .ok (.text (Text.decodeEscapes text))
  else if looksNumeric text.toList then
    match Number.read? text with
    | some x => .ok (.number x)
    | none => .error (.malformed (.badNumber text))
  else
    .ok (.text text)

/-- Carries out an arithmetic operator on two numbers. -/
def computeNumbers (op : Opcode) (a b : Float) : Except Error Float :=
  match op with
  | .add => .ok (a + b)
  | .sub => .ok (a - b)
  | .mul => .ok (a * b)
  | .div => if b == 0 then .error .divisionByZero else .ok (a / b)
  | .mod => if b == 0 then .error .moduloByZero else .ok (Number.remainder a b)
  | _ => .ok (a ^ b)

/-- Carries out an arithmetic operator. Texts can be added, which joins them. -/
def arithmetic (op : Opcode) (a b : Value) : Except Error Value :=
  match a, b with
  | .number x, .number y =>
    match computeNumbers op x y with
    | .ok z => .ok (.number z)
    | .error e => .error e
  | .text s, .text t =>
    if op = .add then .ok (.quoted (Text.unquote s ++ Text.unquote t))
    else .error (.type (.combine op a.kind b.kind))
  | _, _ => .error (.type (.combine op a.kind b.kind))

def compareNumbers (op : Opcode) (a b : Float) : Bool :=
  match op with
  | .greater => a > b
  | .less => a < b
  | .greaterEq => a ≥ b
  | _ => a ≤ b

/-! ## Tables -/

/-- Pops `count` keys, the top one first. -/
def popKeys (s : ScopeId) : Nat → Exec (List Key)
  | 0 => return []
  | count + 1 => do
    let key ← popKey s
    let keys ← popKeys s count
    return key :: keys

/-- A count of keys: decimal digits with at most a plus in front, below `2 ^ 64`. -/
def keyCount? (text : String) : Option Nat :=
  let digits :=
    match text.toList with
    | '+' :: cs => cs
    | cs => cs
  if digits ≠ [] ∧ digits.all Char.isDigit ∧ Number.digitsValue digits < UInt64.size then
    some (Number.digitsValue digits)
  else
    none

/-- Pops a table, a path of keys and a value, and pushes the table with the value stored there. -/
def storePath (s : ScopeId) (count : String) : Exec Unit := do
  match keyCount? count with
  | none => fail (.malformed .badCount)
  | some n =>
    let t ← popTable s
    let keys ← popKeys s n
    let value ← pop s
    push s (.table (← check (Table.storePath t keys value)))

def characterAt (text : String) (index : Int64) : Value :=
  if index < 0 then .null
  else
    match text.toList[index.toInt.toNat]? with
    | some c => .quoted c.toString
    | none => .null

/-- The table of methods for a value, by the name of the global that holds it. -/
def methodTable? : Value → Option String
  | .table _ => some "table"
  | .text _ => some "string"
  | _ => none

/-- Looks a key up among the methods of a kind. A method found goes on the stack above the value it
was found for, which so becomes its first argument. -/
def loadMethod (s : ScopeId) (object : Value) (methods : String) (key : Key) : Exec Unit := do
  let found :=
    match (← get).heap.lookup Machine.root methods with
    | some (.table t) => Assoc.get? t key
    | _ => none
  match found with
  | some method =>
    push s object
    push s method
  | none => push s .null

/-- Looks a key up in a value that has no entry of its own under it. -/
def loadInherited (s : ScopeId) (object : Value) (key : Key) : Exec Unit :=
  match object, key with
  | .text payload, .int i => push s (characterAt (Text.unquote payload) i)
  | _, _ =>
    match methodTable? object with
    | some methods => loadMethod s object methods key
    | none => fail (.type (.index object.kind key.display))

/-- Pops a key and an object and pushes the entry: its own, a character of a text, or a method. -/
def loadKey (s : ScopeId) : Exec Unit := do
  let keyValue ← pop s
  let object ← pop s
  let key ← checkType keyValue.toKey
  if object.isNull then
    fail (.type (.indexNull key.display))
  else
    match object with
    | .table t =>
      match Assoc.get? t key with
      | some value => push s value
      | none => loadInherited s object key
    | _ => loadInherited s object key

/-! ## Foreign functions -/

/-- The C type that a value names. -/
def typeOfWord (v : Value) : Except Error Foreign.CType :=
  match v with
  | .text payload =>
    match Foreign.CType.ofWord? (Text.unquote payload) with
    | some type => .ok type
    | none => .error (.foreign (.unknownType (Text.unquote payload)))
  | _ => .error (.foreign (.notATypeName v.kind))

def popTypes (s : ScopeId) : Nat → Exec (List Foreign.CType)
  | 0 => return []
  | count + 1 => do
    let type ← check (typeOfWord (← pop s))
    let types ← popTypes s count
    return type :: types

/-- The library path that an operand stands for. -/
def libraryPath (operand : String) : String :=
  if operand.toList.head? = some '"' then Text.unquote (Text.decodeEscapes operand) else operand

/-- The library at a path, opened unless it is in use already. -/
def loadLibrary (path : String) : Exec LoadedLibrary := do
  let m ← get
  match m.libraries.find? (·.path.same ⟨path⟩) with
  | some loaded => return loaded
  | none =>
    match m.host.loader.openLibrary (m.libraries.map (·.path)) path with
    | .error reason => fail (.foreign (.cannotLoad path reason))
    | .ok library =>
      let loaded : LoadedLibrary := ⟨⟨path⟩, library⟩
      modify fun m ↦ { m with libraries := m.libraries ++ [loaded] }
      return loaded

/-- The C function `name` of the library at a path, with its signature. -/
def defineForeign (name path : String) (argTypes : List Foreign.CType)
    (returnType : Foreign.CType) : Exec ForeignFunction := do
  if argTypes.contains .void then
    fail (.foreign (.voidArgument name))
  else
    let loaded ← loadLibrary path
    let symbol := "gem_" ++ name
    match loaded.library symbol with
    | .error reason => fail (.foreign (.missingSymbol symbol path reason))
    | .ok function =>
      let identity ← freshIdentity
      return ⟨identity, name, argTypes, returnType, function⟩

/-- Pops the signature of a C function and binds the function to its name. -/
def define (s : ScopeId) (name operand : String) : Exec Unit := do
  let count ← popNumber s
  let returnType ← check (typeOfWord (← pop s))
  let argTypes ← popTypes s (Number.clampToInt 0 (UInt64.size - 1 : Nat) count).toNat
  let f ← defineForeign name (libraryPath operand) argTypes returnType
  declare s name (.foreign f)

/-! ## Plain instructions -/

/-- Pops two values and pushes what `f` makes of them; the second argument of `f` was on top. -/
def combine (s : ScopeId) (f : Value → Value → Except Error Value) : Exec Unit := do
  let b ← pop s
  let a ← pop s
  push s (← check (f a b))

/-- Carries out a plain instruction with its operands. -/
def perform (s : ScopeId) (op : Opcode) (operands : List String) : Exec Unit :=
  match op, operands with
  | .push, [text] => do
    push s (← check (literal text))
  | .declareLocal, [name] => do
    declare s name (← pop s)
  | .storeLocal, [name] => do
    let v ← pop s
    if !(← assign s name v) then
      if (← get).config.strict then fail (.undefined name) else declare s name v
  | .loadLocal, [name] => do
    push s (← lookup s name)
  | .delete, [name] => remove s name
  | .define, [name, path] => define s name path
  | .add, [] => combine s (arithmetic .add)
  | .sub, [] => combine s (arithmetic .sub)
  | .mul, [] => combine s (arithmetic .mul)
  | .div, [] => combine s (arithmetic .div)
  | .pow, [] => combine s (arithmetic .pow)
  | .mod, [] => combine s (arithmetic .mod)
  | .eq, [] => combine s fun a b ↦ .ok (.bool (a == b))
  | .notEq, [] => combine s fun a b ↦ .ok (.bool (!(a == b)))
  | .greater, [] | .less, [] | .greaterEq, [] | .lessEq, [] => do
    let b ← popNumber s
    let a ← popNumber s
    push s (.bool (compareNumbers op a b))
  | .and, [] => combine s fun a b ↦ .ok (if a.isFalsy then a else b)
  | .or, [] => combine s fun a b ↦ .ok (if a.isFalsy then b else a)
  | .not, [] => do
    let v ← pop s
    push s (.bool v.isFalsy)
  | .args, [] => mark s
  | .newTable, [] => push s (.table [])
  | .storeKey, [] => do
    let key ← popKey s
    let value ← pop s
    let t ← popTable s
    push s (.table (Assoc.insert t key value))
  | .loadKey, [] => loadKey s
  | .storePath, [count] => storePath s count
  | .pop, [] => do
    let _ ← pop s
  | _, _ => fail (.malformed (.missingWord op))

end GemLang
