import GemLang.Error
import GemLang.Text.Utf8
import GemLang.Value

/-!
# Values at the C boundary

Values are copied when they cross to C and when they come back. Not every value can cross: a C
string cannot hold a zero byte, and a table that holds `null` or a function has no C form. An
integer key that does not fit in 32 bits travels as a double and is an integer key again on return.

Text from C is read as UTF-8, ill-formed pieces being replaced, and comes back quoted.
-/

namespace GemLang.Foreign

/-! ## To C -/

/-- The bytes of a text, unless it holds a zero. -/
def cText? (s : String) : Option CText :=
  if s.toList.contains '\x00' then none else some (Text.utf8 s)

/-- Whether an integer fits in 32 bits with a sign. -/
def fitsInt32 (i : Int) : Bool := Int32.minValue.toInt ≤ i && i ≤ Int32.maxValue.toInt

/-- A number as a signed 32-bit integer, rounded toward zero and kept in range. -/
def toInt32 (x : Float) : Int32 :=
  Int32.ofInt (Number.clampToInt Int32.minValue.toInt Int32.maxValue.toInt x)

/-- A number as an unsigned 32-bit integer, rounded toward zero and kept in range. -/
def toUInt32 (x : Float) : UInt32 :=
  UInt32.ofNat (Number.clampToInt 0 (UInt32.size - 1 : Nat) x).toNat

/-- The C form of a table key. -/
def toCKey : Key → Except ForeignFault CKey
  | .int i =>
    if fitsInt32 i.toInt then .ok (.int (Int32.ofInt i.toInt))
    else .ok (.double (Float.ofInt i.toInt))
  | .double x => .ok (.double x)
  | .text s =>
    match cText? s with
    | some bytes => .ok (.text (some bytes))
    | none => .error (.nulInTable s)

mutual

def toCValue : Value → Except ForeignFault CValue
  | .number x => .ok (.double x)
  | .bool b => .ok (.bool b)
  | .text payload =>
    if payload = "null" then .error .nullInTable
    else
      match cText? (Text.unquote payload) with
      | some bytes => .ok (.text (some bytes))
      | none => .error (.nulInTable (Text.unquote payload))
  | .table es => do
    let nodes ← toCNodes es
    return .table (some nodes)
  | .script _ => .error (.kindInTable .function)
  | .native _ => .error (.kindInTable .function)
  | .foreign _ => .error (.kindInTable .foreign)

def toCNodes : List (Key × Value) → Except ForeignFault (List (CKey × CValue))
  | [] => .ok []
  | (key, value) :: es => do
    let k ← toCKey key
    let v ← toCValue value
    let nodes ← toCNodes es
    return (k, v) :: nodes

end

def toCTable (t : Table) : Except ForeignFault CTable := do
  return some (← toCNodes t)

/-- The C form of an argument of a declared type. -/
def toCArgument (type : CType) (v : Value) : Except ForeignFault CArgument :=
  match type, v with
  | .double, .number x => .ok (.double x)
  | .float, .number x => .ok (.float x.toFloat32)
  | .int, .number x => .ok (.int (toInt32 x))
  | .uint, .number x => .ok (.uint (toUInt32 x))
  | .bool, .bool b => .ok (.bool b)
  | .string, .text payload =>
    if payload = "null" then .error (.cannotPass .null .string)
    else
      match cText? (Text.unquote payload) with
      | some bytes => .ok (.text bytes)
      | none => .error .nulInArgument
  | .table, .table t => do
    let nodes ← toCTable t
    return .table nodes
  | _, _ => .error (.cannotPass v.kind type)

def toCArguments : List CType → List Value → Except ForeignFault (List CArgument)
  | type :: types, v :: vs => do
    let a ← toCArgument type v
    let as ← toCArguments types vs
    return a :: as
  | _, _ => .ok []

/-! ## From C -/

def ofCKey : CKey → Except Error Key
  | .int i => .ok (.int (Int64.ofInt i.toInt))
  | .double x =>
    match Value.toKey (.number x) with
    | .ok k => .ok k
    | .error e => .error (.type e)
  | .text (some bytes) => .ok (.text (Text.lossyText bytes))
  | .text none => .error (.foreign .missingText)
  | .unknown code => .error (.foreign (.unknownKeyCode code))

mutual

def ofCValue : CValue → Except Error Value
  | .int i => .ok (.number (Float.ofInt i.toInt))
  | .double x => .ok (.number x)
  | .bool b => .ok (.bool b)
  | .text (some bytes) => .ok (.quoted (Text.lossyText bytes))
  | .text none => .ok .null
  | .table none => .ok (.table [])
  | .table (some nodes) => do
    let t ← ofCNodes [] nodes
    return .table t
  | .unknown code => .error (.foreign (.unknownValueCode code))

/-- The table that C nodes stand for, inserted one by one into `t`. -/
def ofCNodes (t : Table) : List (CKey × CValue) → Except Error Table
  | [] => .ok t
  | (key, value) :: nodes => do
    let k ← ofCKey key
    let v ← ofCValue value
    ofCNodes (Assoc.insert t k v) nodes

end

/-- The table that a C table stands for; one without an array is empty. -/
def ofCTable : CTable → Except Error Table
  | none => .ok []
  | some nodes => ofCNodes [] nodes

/-- The value that the result of a call stands for. -/
def ofCResult : CResult → Except Error Value
  | .double x => .ok (.number x)
  | .float x => .ok (.number x.toFloat)
  | .int i => .ok (.number (Float.ofInt i.toInt))
  | .uint n => .ok (.number (Float.ofNat n.toNat))
  | .bool b => .ok (.bool b)
  | .text none => .ok .null
  | .text (some bytes) => .ok (.quoted (Text.lossyText bytes))
  | .table none => .ok .null
  | .table (some t) => do
    let t ← ofCTable t
    return .table t
  | .void => .ok .null

/-- Calls a C function with one value per declared type. -/
def call (f : ForeignFunction) (args : List Value) : Except Error Value :=
  match toCArguments f.argTypes args with
  | .error e => .error (.foreign e)
  | .ok cargs => ofCResult (f.function cargs)

end GemLang.Foreign
