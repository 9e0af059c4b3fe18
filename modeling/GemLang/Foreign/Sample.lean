import GemLang.Foreign.CData
import GemLang.Number.Parts
import GemLang.Text.Utf8

/-!
# A sample library

Small C functions that between them use every type that can cross the boundary, null pointers, text
that is not UTF-8, and tables with keys and values of unknown kinds.
-/

namespace GemLang.Foreign.Sample

def bytes (s : String) : CText := Text.utf8 s

def intNode (key value : Nat) : CKey × CValue :=
  (.int (Int32.ofNat key), .int (Int32.ofNat value))

/-- Integer keys from zero up to `n`, each with ten times itself as value. -/
def rangeNodes (n : Nat) : List (CKey × CValue) :=
  (List.range n).map fun i ↦ intNode i (10 * i)

/-- The letter for the kind of a key. -/
def keyLetter : CKey → String
  | .int _ => "i"
  | .double _ => "d"
  | .text _ => "s"
  | .unknown _ => "?"

mutual

/-- The letter for the kind of a value; a table is followed by the kinds in it. -/
def valueLetters : CValue → String
  | .int _ => "i"
  | .double _ => "d"
  | .bool _ => "b"
  | .text _ => "s"
  | .table none => "t()"
  | .table (some nodes) => "t(" ++ nodeLetters nodes ++ ")"
  | .unknown _ => "?"

/-- The letters for the kinds of keys and values, node by node. -/
def nodeLetters : List (CKey × CValue) → String
  | [] => ""
  | (key, value) :: nodes => keyLetter key ++ valueLetters value ++ nodeLetters nodes

end

/-- The sum of an argument of each scalar type, a text counting by its length. -/
def mix : CFunction
  | [.int i, .double d, .text s, .bool b, .float f, .uint u] =>
    .double (Float.ofInt i.toInt + d + Float.ofNat s.length + (if b then 1000 else 0) +
      f.toFloat + Float.ofNat u.toNat)
  | _ => .void

/-- Ten numbers with alternating signs. -/
def many : CFunction
  | [.double a, .double b, .double c, .double d, .double e, .double f, .double g, .double h,
      .double i, .double j] => .double (a - b + c - d + e - f + g - h + i - j)
  | _ => .void

def constant (result : CResult) : CFunction := fun _ ↦ result

/-- A function without arguments whose result is a table. -/
def tableOf (nodes : List (CKey × CValue)) : CFunction := constant (.table (some (some nodes)))

def scalars : Library :=
  [("gem_add", fun
      | [.double a, .double b] => .double (a + b)
      | _ => .void),
    ("gem_addf", fun
      | [.float a, .float b] => .float (a + b)
      | _ => .void),
    ("gem_inc", fun
      | [.int i] => .int (i + 1)
      | _ => .void),
    ("gem_uinc", fun
      | [.uint n] => .uint (n + 1)
      | _ => .void),
    ("gem_not", fun
      | [.bool b] => .bool (!b)
      | _ => .void),
    ("gem_nothing", constant .void),
    ("gem_nan", constant (.double Number.notANumber)),
    ("gem_inf", constant (.double Number.infinity)),
    ("gem_mix", mix),
    ("gem_many", many)]

def texts : Library :=
  [("gem_echo", fun
      | [.text s] => .text (some s)
      | _ => .void),
    ("gem_len", fun
      | [.text s] => .int (Int32.ofNat s.length)
      | _ => .void),
    ("gem_nullstr", constant (.text none)),
    ("gem_badutf8", constant (.text (some [0x61, 0xff, 0xfe, 0x62, 0xc3]))),
    ("gem_quotes", constant (.text (some (bytes "say \"hi\"\\n"))))]

def tables : Library :=
  [("gem_nulltable", constant (.table none)),
    ("gem_count", fun
      | [.table (some nodes)] => .int (Int32.ofNat nodes.length)
      | _ => .int 0),
    ("gem_kinds", fun
      | [.table (some nodes)] => .text (some (bytes (nodeLetters nodes)))
      | _ => .text (some [])),
    ("gem_copy", fun
      | [.table t] => .table (some t)
      | _ => .void),
    ("gem_range", fun
      | [.int i] => .table (some (some (rangeNodes i.toInt.toNat)))
      | _ => .void),
    ("gem_nullnodes", constant (.table (some none))),
    ("gem_nankey", tableOf [intNode 0 0, (.double Number.notANumber, .int 10)]),
    ("gem_badkey", tableOf [intNode 0 0, (.unknown 7, .int 10)]),
    ("gem_badval", tableOf [(.int 0, .unknown 9), intNode 1 10]),
    ("gem_nullkey", tableOf [(.text none, .int 0)]),
    ("gem_nullval", tableOf [(.int 0, .text none), intNode 1 10]),
    ("gem_dup", tableOf [(.int 1, .int 0), (.double 1, .int 10), (.double 2.5, .int 20),
      (.int 0, .int 30), (.text (some (bytes "1")), .int 40)]),
    ("gem_every", tableOf [(.int 0, .bool true), (.int 1, .text (some (bytes "txt"))),
      (.int 2, .table (some (rangeNodes 2))), (.int 3, .double (-1.5))])]

def library : Library := scalars ++ texts ++ tables

end GemLang.Foreign.Sample
