/-!
# The parts of a number

Numbers are double-precision floats. Everything about them that is not one rounded operation (their
decimal text, exact remainders, conversion to integers) is computed exactly on the value
`mantissa · 2 ^ exponent` read off the bits, and put back with `ofParts`.
-/

namespace GemLang.Number

/-- What the bits of a number say. A finite number is `mantissa · 2 ^ exponent` with its sign, and
`mantissa < 2 ^ 53`, `-1074 ≤ exponent`. -/
inductive Parts where
  | nan
  | infinite (negative : Bool)
  | finite (negative : Bool) (mantissa : Nat) (exponent : Int)
  deriving DecidableEq

/-- Reads off the sign, the mantissa and the exponent of a number. -/
def parts (x : Float) : Parts :=
  let bits : Nat := x.toBits.toNat
  let negative := bits / Nat.pow 2 63 = 1
  let exponent : Nat := bits / Nat.pow 2 52 % Nat.pow 2 11
  let fraction : Nat := bits % Nat.pow 2 52
  if exponent = 2047 then
    if fraction = 0 then .infinite negative else .nan
  else if exponent = 0 then
    .finite negative fraction (-1074)
  else
    .finite negative (Nat.pow 2 52 + fraction) ((exponent : Int) - 1075)

/-- The number `mantissa · 2 ^ exponent`, for a mantissa below `2 ^ 53` and an exponent from
`-1074` up such that the value is in range. -/
def ofParts (negative : Bool) (mantissa : Nat) (exponent : Int) : Float :=
  let sign := if negative then Nat.pow 2 63 else 0
  if mantissa = 0 then
    Float.ofBits (UInt64.ofNat sign)
  else
    let room := (exponent + 1074).toNat
    let shift := min (52 - mantissa.log2) room
    let scaled := mantissa * Nat.pow 2 shift
    let biased := (exponent - shift + 1075).toNat
    if scaled < Nat.pow 2 52 then
      Float.ofBits (UInt64.ofNat (sign + scaled))
    else
      Float.ofBits (UInt64.ofNat (sign + biased * Nat.pow 2 52 + (scaled - Nat.pow 2 52)))

def infinity : Float := Float.ofBits 0x7ff0000000000000

/-- The number that is no number. -/
def notANumber : Float := Float.ofBits 0x7ff8000000000000

/-! ## Integers -/

/-- The integer part of a finite value, rounded toward zero. -/
def truncatedMagnitude (mantissa : Nat) (exponent : Int) : Nat :=
  if 0 ≤ exponent then mantissa * Nat.pow 2 exponent.toNat
  else mantissa / Nat.pow 2 (-exponent).toNat

/-- The integer that a number is, if it is one. -/
def toInt? (x : Float) : Option Int :=
  match parts x with
  | .finite negative mantissa exponent =>
    if 0 ≤ exponent ∨ mantissa % Nat.pow 2 (-exponent).toNat = 0 then
      let n : Int := truncatedMagnitude mantissa exponent
      some (if negative then -n else n)
    else
      none
  | _ => none

/-- The nearest integer toward zero within `lo` and `hi`; what is no number counts as zero. -/
def clampToInt (lo hi : Int) (x : Float) : Int :=
  match parts x with
  | .nan => 0
  | .infinite negative => if negative then lo else hi
  | .finite negative mantissa exponent =>
    let n : Int := truncatedMagnitude mantissa exponent
    max lo (min hi (if negative then -n else n))

/-! ## Remainder -/

/-- The remainder of `a` by `b`, exact and with the sign of `a`. It is no number when `a` is
infinite, `b` is zero or either is no number; an infinite `b` leaves `a` as it is. -/
def remainder (a b : Float) : Float :=
  match parts a, parts b with
  | .finite negative ma ea, .finite _ mb eb =>
    if mb = 0 then
      notANumber
    else
      let e := min ea eb
      let dividend := ma * Nat.pow 2 (ea - e).toNat
      let divisor := mb * Nat.pow 2 (eb - e).toNat
      ofParts negative (dividend % divisor) e
  | .finite _ _ _, .infinite _ => a
  | _, _ => notANumber

end GemLang.Number
