/-!
# Data as C sees it

What crosses the boundary to a C function. A table is an array of nodes, each with a key and a value
that carry their kind as a small number; text is a sequence of bytes other than zero. Pointers that
may be null are options. A C function is a function from arguments to a result: what it does beyond
its result is invisible here.
-/

namespace GemLang.Foreign

/-- The bytes of a C string, without the zero that ends it. -/
abbrev CText := List UInt8

/-- The key of a node. A kind that is not one of the three known ones keeps only its number. -/
inductive CKey where
  | int (value : Int32)
  | double (value : Float)
  | text (value : Option CText)
  | unknown (code : Int)

/-- The value of a node. A table is its array of nodes, which may be null. -/
inductive CValue where
  | int (value : Int32)
  | double (value : Float)
  | bool (value : Bool)
  | text (value : Option CText)
  | table (nodes : Option (List (CKey × CValue)))
  | unknown (code : Int)

/-- A table: its array of nodes, if that is not null. -/
abbrev CTable := Option (List (CKey × CValue))

/-- An argument of a call. -/
inductive CArgument where
  | double (value : Float)
  | float (value : Float32)
  | int (value : Int32)
  | uint (value : UInt32)
  | bool (value : Bool)
  | text (value : CText)
  | table (value : CTable)

/-- The result of a call. Text and tables come as pointers that may be null. -/
inductive CResult where
  | double (value : Float)
  | float (value : Float32)
  | int (value : Int32)
  | uint (value : UInt32)
  | bool (value : Bool)
  | text (value : Option CText)
  | table (value : Option CTable)
  | void

/-- A C function. -/
abbrev CFunction := List CArgument → CResult

/-- A shared library: its functions by symbol. -/
abbrev Library := List (String × CFunction)

end GemLang.Foreign
