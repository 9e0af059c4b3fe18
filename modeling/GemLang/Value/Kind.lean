/-!
# Kinds of values

What `typeof` reports. The absence value is told apart from other bare words, so it has a kind of
its own.
-/

namespace GemLang

/-- The kinds of values a program can tell apart. -/
inductive Kind where
  | number
  | bool
  | null
  | string
  | table
  | function
  | foreign
  deriving DecidableEq

/-- The name that `typeof` gives to a kind. -/
def Kind.name : Kind → String
  | .number => "number"
  | .bool => "bool"
  | .null => "null"
  | .string => "string"
  | .table => "table"
  | .function => "function"
  | .foreign => "foreign"

end GemLang
