/-!
# C types

The types that the declaration of a foreign function can name.
-/

namespace GemLang.Foreign

/-- A type of an argument or a result of a C function. -/
inductive CType where
  | double
  | float
  | int
  | uint
  | string
  | table
  | void
  | bool
  deriving DecidableEq

/-- Every type, in the order in which a word is compared with them. -/
def CType.all : List CType := [.double, .float, .int, .uint, .string, .table, .void, .bool]

def CType.word : CType → String
  | .double => "double"
  | .float => "float"
  | .int => "int"
  | .uint => "uint"
  | .string => "string"
  | .table => "table"
  | .void => "void"
  | .bool => "bool"

/-- How a diagnostic names a type. -/
def CType.label : CType → String
  | .double => "Double"
  | .float => "Float"
  | .int => "Int"
  | .uint => "UInt"
  | .string => "String"
  | .table => "Table"
  | .void => "Void"
  | .bool => "Bool"

def CType.ofWord? (word : String) : Option CType := CType.all.find? (·.word == word)

end GemLang.Foreign
