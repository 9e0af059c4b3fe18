import GemLang.Bytecode.Code

/-!
# Lines of bytecode text

The compiler writes one instruction per line, indented by how deep it stands in blocks. Indentation
is for the reader only: the code that lines mean does not depend on it (`codeOf_indent`).
-/

namespace GemLang.Bytecode

/-- An instruction with its operands. -/
inductive Instruction where
  | plain (op : Opcode) (operands : List String)
  /-- The start of a function, up to its colon. -/
  | header (name : String) (params : List String)
  deriving DecidableEq

def Instruction.code : Instruction → Code
  | .plain op operands => .op op :: operands.map .operand
  | .header name params => .op .function :: .operand name :: params.map .operand ++ [.op .colon]

def Instruction.words (i : Instruction) : List String := i.code.map Atom.word

/-- An instruction on a line, indented by `depth` levels. -/
structure Line where
  depth : Nat
  instruction : Instruction
  deriving DecidableEq

def Line.text (l : Line) : String :=
  String.ofList (List.replicate (2 * l.depth) ' ') ++ " ".intercalate l.instruction.words ++ "\n"

def textOf (ls : List Line) : String := String.join (ls.map Line.text)

def codeOf (ls : List Line) : Code := ls.flatMap (·.instruction.code)

/-- The lines one level deeper. -/
def indent (ls : List Line) : List Line := ls.map fun l ↦ { l with depth := l.depth + 1 }

@[simp] theorem codeOf_nil : codeOf [] = [] := rfl

@[simp] theorem codeOf_append (ls ms : List Line) : codeOf (ls ++ ms) = codeOf ls ++ codeOf ms := by
  simp [codeOf]

@[simp] theorem codeOf_cons (l : Line) (ls : List Line) :
    codeOf (l :: ls) = l.instruction.code ++ codeOf ls := rfl

@[simp] theorem codeOf_indent (ls : List Line) : codeOf (indent ls) = codeOf ls := by
  simp [codeOf, indent, List.flatMap_map]

def bare (op : Opcode) : List Line := [⟨0, .plain op []⟩]

def unary (op : Opcode) (operand : String) : List Line := [⟨0, .plain op [operand]⟩]

/-- Lines inside a block that an instruction opens. -/
def block (opener : Instruction) (ls : List Line) : List Line := ⟨0, opener⟩ :: indent ls

@[simp] theorem codeOf_bare (op : Opcode) : codeOf (bare op) = [.op op] := rfl

@[simp] theorem codeOf_unary (op : Opcode) (operand : String) :
    codeOf (unary op operand) = [.op op, .operand operand] := rfl

@[simp] theorem codeOf_block (opener : Instruction) (ls : List Line) :
    codeOf (block opener ls) = opener.code ++ codeOf ls := by
  simp [block]

end GemLang.Bytecode
