import GemLang.Bytecode.Opcode
import GemLang.Foreign.CType
import GemLang.Text.Shown
import GemLang.Value.Kind

/-!
# Errors

Every way in which scanning, parsing, compiling or running can fail, given by its cause. The words
shown to a user are in one place, the `message` functions; `Error.render` adds the source line for
an error that has a position in the source.
-/

namespace GemLang

open Bytecode (Opcode)
open Foreign (CType)

/-! ## Causes -/

/-- Why some characters are no token. -/
inductive ScanFault where
  | unexpectedChar (c : Char)
  | openComment
  | openText
  | badNumber
  deriving DecidableEq

/-- Why some tokens are no program. The text of the token that was met is missing at the end of the
file. -/
inductive ParseFault where
  | expected (what : String) (got : Option String)
  | loopRange
  | loopNames
  | badTarget
  | badNumber
  deriving DecidableEq

/-- Why an operation does not apply to its operands. -/
inductive TypeFault where
  | combine (op : Opcode) (left right : Kind)
  | expectedNumber (got : Kind)
  | expectedTable (got : Kind)
  | expectedText (got : Kind)
  | nanKey
  | badKey (kind : Kind)
  | indexNull (key : String)
  | index (kind : Kind) (key : String)
  | assignInto (kind : Kind) (key : String)
  /-- A `break` or `continue` left the named function, or the program. -/
  | escapedLoop (function : Option String)
  deriving DecidableEq

/-- Why a foreign function cannot be defined or called. -/
inductive ForeignFault where
  | unknownType (word : String)
  | notATypeName (kind : Kind)
  | voidArgument (name : String)
  | cannotLoad (path reason : String)
  | missingSymbol (symbol path reason : String)
  | argumentCount (name : String) (wanted got : Nat)
  | cannotPass (kind : Kind) (type : CType)
  | nulInArgument
  | nulInTable (text : String)
  | nullInTable
  | kindInTable (kind : Kind)
  | unknownKeyCode (code : Int)
  | unknownValueCode (code : Int)
  | missingText
  deriving DecidableEq

/-- Why bytecode does not have the shape that the machine expects. -/
inductive CodeFault where
  | openText (text : String)
  | unknownInstruction (word : String)
  | namelessFunction
  | openHeader
  | missingWord (op : Opcode)
  | strayOperand (text : String) (index : Nat)
  | unexpected (op : Opcode) (index : Nat)
  | missingOperand (index : Nat)
  | noThen (index : Nat)
  | openBlock (close : Opcode) (index : Nat)
  | badHeader (name : String)
  | badNumber (text : String)
  | badCount
  | emptyPath
  deriving DecidableEq

/-- Why a file cannot be read or written. -/
inductive FileFault where
  | notFound
  | isDirectory
  | notDirectory
  | nameTooLong
  | nulInName
  | notUtf8
  deriving DecidableEq

/-- Everything that can go wrong. -/
inductive Error where
  | lexical (file : String) (line column : Nat) (fault : ScanFault)
  | parse (file : String) (line column : Nat) (fault : ParseFault)
  /-- A file is reflected while it is itself being inlined. -/
  | reflectCycle (path through : String)
  | type (fault : TypeFault)
  | undefined (name : String)
  | notCallable (kind : Kind)
  | divisionByZero
  | moduloByZero
  | stackOverflow
  | stackUnderflow
  | foreign (fault : ForeignFault)
  | malformed (fault : CodeFault)
  | unreadable (path : String) (fault : FileFault)
  /-- The writer that a program prints to failed. -/
  | output (reason : String)
  deriving DecidableEq

/-! ## Words -/

def ScanFault.message : ScanFault → String
  | .unexpectedChar c => s!"Unexpected character '{c}'."
  | .openComment => "Unterminated block comment."
  | .openText => "Unterminated string literal."
  | .badNumber => "Invalid number literal!"

def ParseFault.message : ParseFault → String
  | .expected what none => s!"Expected {what}, got end of file!"
  | .expected what (some got) => s!"Expected {what}, got '{got}'!"
  | .loopRange => "A loop range takes a start, an end and an optional step!"
  | .loopNames => "A for loop binds one counter or a key and a value!"
  | .badTarget => "Invalid assignment target!"
  | .badNumber => "Invalid number literal!"

def TypeFault.message : TypeFault → String
  | .combine op left right => s!"cannot {op.mnemonic} a {left.name} and a {right.name}"
  | .expectedNumber got => s!"expected a number, got {got.name}"
  | .expectedTable got => s!"expected a table, got a {got.name}"
  | .expectedText got => s!"expected a string, got a {got.name}"
  | .nanKey => "NaN cannot be a table key"
  | .badKey kind => s!"a {kind.name} cannot be a table key"
  | .indexNull key => s!"cannot index null with {key}"
  | .index kind key => s!"cannot index a {kind.name} with {key}"
  | .assignInto kind key => s!"cannot assign into a {kind.name} at key {key}"
  | .escapedLoop none => "break or continue outside of a loop"
  | .escapedLoop (some name) => s!"break or continue outside of a loop in function {name}"

def ForeignFault.message : ForeignFault → String
  | .unknownType word => s!"unknown C type '{word}'"
  | .notATypeName kind => s!"expected a type name, got a {kind.name}"
  | .voidArgument name => s!"{name} takes a void argument"
  | .cannotLoad path reason => s!"cannot load {path}: {reason}"
  | .missingSymbol symbol path reason => s!"{symbol} not found in {path}: {reason}"
  | .argumentCount name wanted got => s!"{name} takes {wanted} arguments, got {got}"
  | .cannotPass kind type => s!"cannot pass a {kind.name} as {type.label}"
  | .nulInArgument => "string contains a NUL byte"
  | .nulInTable text => s!"string {Text.shown text} contains a NUL byte"
  | .nullInTable => "null cannot be passed to C"
  | .kindInTable kind => s!"a {kind.name} cannot be passed to C"
  | .unknownKeyCode code => s!"unknown key type {code}"
  | .unknownValueCode code => s!"unknown value type {code}"
  | .missingText => "null string in table"

def CodeFault.message : CodeFault → String
  | .openText text => s!"unterminated string {text}"
  | .unknownInstruction word => s!"unknown instruction '{word}'"
  | .namelessFunction => "function header without a name"
  | .openHeader => "function header without ':'"
  | .missingWord op => s!"{op.mnemonic} is missing an operand"
  | .strayOperand text index => s!"stray operand '{text}' at {index}"
  | .unexpected op index => s!"unexpected {op.mnemonic} at {index}"
  | .missingOperand index => s!"missing operand at {index}"
  | .noThen index => s!"no THEN after condition at {index}"
  | .openBlock close index => s!"no {close.mnemonic} closing the block at {index}"
  | .badHeader name => s!"bad header for function {name}"
  | .badNumber text => s!"bad number '{text}'"
  | .badCount => "STORE_NESTED_ASSIGNMENT needs a count"
  | .emptyPath => "empty assignment path"

def FileFault.message : FileFault → String
  | .notFound => "No such file or directory (os error 2)"
  | .isDirectory => "Is a directory (os error 21)"
  | .notDirectory => "Not a directory (os error 20)"
  | .nameTooLong => "File name too long (os error 36)"
  | .nulInName => "file name contained an unexpected NUL byte"
  | .notUtf8 => "stream did not contain valid UTF-8"

def Error.message : Error → String
  | .lexical file line _ fault => s!"{file}:{line} -> Lexical Error: {fault.message}"
  | .parse file line _ fault => s!"{file}:{line} -> Parsing Error: {fault.message}"
  | .reflectCycle path through =>
    s!"compile error: '{path}' reflects itself through '{through}'"
  | .type fault => s!"runtime error: {fault.message}"
  | .undefined name => s!"runtime error: '{name}' is not defined"
  | .notCallable kind => s!"runtime error: a value of type {kind.name} is not callable"
  | .divisionByZero => "runtime error: division by zero"
  | .moduloByZero => "runtime error: modulo by zero"
  | .stackOverflow => "stack overflow"
  | .stackUnderflow => "popped from an empty stack"
  | .foreign fault => s!"ffi error: {fault.message}"
  | .malformed fault => s!"malformed bytecode: {fault.message}"
  | .unreadable path fault => s!"could not read '{path}': {fault.message}"
  | .output reason => s!"failed to write output: {reason}"

/-! ## Positions -/

/-- The line and column of an error, if it has a position in a source text. -/
def Error.position? : Error → Option (Nat × Nat)
  | .lexical _ line column _ | .parse _ line column _ => some (line, column)
  | _ => none

/-- The lines of a text. Each ends before a newline, a carriage return right before that newline
not counting; no line follows a newline at the very end. -/
def sourceLines (cs : List Char) : List (List Char) :=
  go [] cs
where
  /-- The lines of `cs`, the first of them starting with `line`, which is kept last one first. -/
  go (line : List Char) : List Char → List (List Char)
    | [] => if line.isEmpty then [] else [line.reverse]
    | '\n' :: cs =>
      (match line with
        | '\r' :: shorter => shorter.reverse
        | _ => line.reverse) :: go [] cs
    | c :: cs => go (c :: line) cs

/-- The message of an error, with the source line and a pointer under the column when the error has
a position. -/
def Error.render (e : Error) (source : String) : String :=
  match e.position? with
  | none => e.message
  | some (line, column) =>
    let text := String.ofList ((sourceLines source.toList)[line - 1]?.getD [])
    let pad := String.ofList (List.replicate (column - 1) ' ')
    s!"{e.message}\n| {text}\n| {pad}^~~"

end GemLang
