/-!
# Instructions of the machine

An opcode is known by its mnemonic, the word that stands for it in bytecode text. Most opcodes take
a fixed number of operand words; only the header of a function takes as many as it has parameters,
up to a colon.
-/

namespace GemLang.Bytecode

/-- The instructions of the machine. -/
inductive Opcode where
  /-- Push a literal: quoted text, a number or a bare word. -/
  | push
  /-- Pop a value and bind it to a name in the current scope. -/
  | declareLocal
  /-- Pop a value and assign it to the nearest binding of a name. -/
  | storeLocal
  /-- Push the value bound to a name. -/
  | loadLocal
  /-- Remove the nearest binding of a name. -/
  | delete
  /-- Pop a signature and bind a foreign function. -/
  | define
  | add
  | sub
  | mul
  | div
  | pow
  | mod
  | eq
  | notEq
  | greater
  | less
  | greaterEq
  | lessEq
  /-- Pop two; push the first pushed one if it is falsy, else the other. -/
  | and
  /-- Pop two; push the second pushed one if the first is falsy, else the first. -/
  | or
  | not
  /-- Mark where the arguments of a call start. -/
  | args
  /-- Pop a callable and call it. -/
  | call
  /-- Leave the enclosing function with the value on top. -/
  | returnOp
  | newTable
  /-- Pop a key and a value and store them in the table below. -/
  | storeKey
  /-- Pop a key and an object and push the entry. -/
  | loadKey
  /-- Store a value along a path of keys in a table. -/
  | storePath
  | pop
  | ifOp
  | thenOp
  | elifOp
  | elseOp
  | endIf
  | loop
  | endLoop
  | breakOp
  | continueOp
  /-- Start of a function: its name and parameters follow, up to the colon. -/
  | function
  | colon
  /-- End of a function. -/
  | endFunction
  deriving DecidableEq

def Opcode.mnemonic : Opcode → String
  | .push => "PUSH"
  | .declareLocal => "DECLARE_LOCAL"
  | .storeLocal => "STORE_LOCAL"
  | .loadLocal => "LOAD_LOCAL"
  | .delete => "DELETE"
  | .define => "DEFINE"
  | .add => "ADD"
  | .sub => "SUB"
  | .mul => "MUL"
  | .div => "DIV"
  | .pow => "POW"
  | .mod => "MOD"
  | .eq => "EQ"
  | .notEq => "NOE"
  | .greater => "GT"
  | .less => "LT"
  | .greaterEq => "GTE"
  | .lessEq => "LTE"
  | .and => "AND"
  | .or => "OR"
  | .not => "NOT"
  | .args => "ARGS"
  | .call => "CALL"
  | .returnOp => "RETURN"
  | .newTable => "NEW_TABLE"
  | .storeKey => "STORE_KEY"
  | .loadKey => "LOAD_KEY"
  | .storePath => "STORE_NESTED_ASSIGNMENT"
  | .pop => "POP"
  | .ifOp => "IF"
  | .thenOp => "THEN"
  | .elifOp => "ELIF"
  | .elseOp => "ELSE"
  | .endIf => "ENDIF"
  | .loop => "LOOP"
  | .endLoop => "ENDLOOP"
  | .breakOp => "BREAK"
  | .continueOp => "CONTINUE"
  | .function => "function"
  | .colon => ":"
  | .endFunction => "RET"

def Opcode.all : List Opcode :=
  [.push, .declareLocal, .storeLocal, .loadLocal, .delete, .define, .add, .sub, .mul, .div, .pow,
    .mod, .eq, .notEq, .greater, .less, .greaterEq, .lessEq, .and, .or, .not, .args, .call,
    .returnOp, .newTable, .storeKey, .loadKey, .storePath, .pop, .ifOp, .thenOp, .elifOp, .elseOp,
    .endIf, .loop, .endLoop, .breakOp, .continueOp, .function, .colon, .endFunction]

def Opcode.ofWord? (word : String) : Option Opcode := Opcode.all.find? (·.mnemonic == word)

theorem Opcode.ofWord?_mnemonic (op : Opcode) : Opcode.ofWord? op.mnemonic = some op := by
  cases op <;> decide

/-- The number of operand words after an opcode. The header of a function is read apart. -/
def Opcode.operandCount : Opcode → Nat
  | .push | .declareLocal | .storeLocal | .loadLocal | .delete | .storePath => 1
  | .define => 2
  | _ => 0

end GemLang.Bytecode
