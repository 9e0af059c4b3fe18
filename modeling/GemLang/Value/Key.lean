import GemLang.Number.Text

/-!
# Table keys

A table is indexed by numbers and by text. A number that is an integer of at most `2 ^ 53` in
magnitude, where every integer is a number, is kept as an integer; so `1` and `1.0` name the same
entry. Other numbers are kept as they are.
-/

namespace GemLang

/-- A table key. -/
inductive Key where
  | int (value : Int64)
  | double (value : Float)
  | text (value : String)

namespace Key

/-- Keys of the same form compare as integers, as numbers or as text. A key that is no number
differs from every key. -/
def beq : Key → Key → Bool
  | .int i, .int j => i == j
  | .double x, .double y => x == y
  | .text s, .text t => s == t
  | _, _ => false

instance : BEq Key := ⟨beq⟩

/-- The largest magnitude up to which every integer is a number, `2 ^ 53`. -/
def maxExact : Int := 9007199254740992

/-- The key that a number indexes with. -/
def ofNumber (x : Float) : Key :=
  match Number.toInt? x with
  | some i => if -maxExact ≤ i ∧ i ≤ maxExact then .int (Int64.ofInt i) else .double x
  | none => .double x

/-- How a key is shown. -/
def display : Key → String
  | .int i => toString i.toInt
  | .double x => Number.text x
  | .text s => s

end Key

end GemLang
