import GemLang.Number.Parts
import GemLang.Number.Shortest

/-!
# The text of a number

A number is written with the fewest digits that read back to it, always in positional notation:
`1e21` is written with all its zeros, and a whole number has no fraction part. The same text is
what a program prints and what its bytecode carries.

Reading accepts more than writing produces: a sign, an exponent, digits missing on one side of the
point, and the words for infinity and for what is no number in any case.
-/

namespace GemLang.Number

/-! ## Writing -/

def digitChars (n : Nat) : List Char := Nat.toDigits 10 n

/-- A positive decimal in positional notation. -/
def positional (d : Decimal) : List Char :=
  let digits := digitChars d.digits
  if d.point ≤ 0 then
    ['0', '.'] ++ List.replicate (-d.point).toNat '0' ++ digits
  else if digits.length ≤ d.point.toNat then
    digits ++ List.replicate (d.point.toNat - digits.length) '0'
  else
    digits.take d.point.toNat ++ ['.'] ++ digits.drop d.point.toNat

/-- The characters of a number's text. -/
def textChars (x : Float) : List Char :=
  match parts x with
  | .nan => ['N', 'a', 'N']
  | .infinite negative => (if negative then ['-'] else []) ++ ['i', 'n', 'f']
  | .finite negative mantissa exponent =>
    (if negative then ['-'] else []) ++
      (if mantissa = 0 then ['0'] else positional (shortest mantissa exponent))

def text (x : Float) : String := String.ofList (textChars x)

/-! ## Reading -/

def digitsValue (cs : List Char) : Nat :=
  cs.foldl (fun n c ↦ 10 * n + (c.toNat - '0'.toNat)) 0

/-- The number `digits · 10 ^ exponent`, rounded to the nearest. Exponents beyond the range of
numbers are settled without computing the power. -/
def ofDecimal (digits : Nat) (exponent : Int) : Float :=
  let size : Int := (digitChars digits).length
  if digits = 0 ∨ size + exponent < -400 then 0
  else if 400 < size + exponent then infinity
  else if 0 ≤ exponent then Float.ofScientific digits false exponent.toNat
  else Float.ofScientific digits true (-exponent).toNat

/-- Reads an optional sign: whether it is a minus, and what follows. -/
def readSign : List Char → Bool × List Char
  | '-' :: cs => (true, cs)
  | '+' :: cs => (false, cs)
  | cs => (false, cs)

/-- Reads an exponent part that goes to the end of the text; none at all counts as zero. -/
def readExponent? : List Char → Option Int
  | [] => some 0
  | e :: cs =>
    if e = 'e' ∨ e = 'E' then
      let (negative, digits) := readSign cs
      if digits ≠ [] ∧ digits.all Char.isDigit then
        let n : Int := digitsValue digits
        some (if negative then -n else n)
      else
        none
    else
      none

/-- Reads an unsigned decimal: digits, at most one point with digits on at least one side of it, and
an optional exponent. -/
def readUnsigned? (cs : List Char) : Option Float :=
  let whole := cs.takeWhile Char.isDigit
  let afterWhole := cs.dropWhile Char.isDigit
  let (fraction, rest) :=
    match afterWhole with
    | '.' :: ds => (ds.takeWhile Char.isDigit, ds.dropWhile Char.isDigit)
    | _ => ([], afterWhole)
  if whole = [] ∧ fraction = [] then
    none
  else
    (readExponent? rest).map fun e ↦
      ofDecimal (digitsValue (whole ++ fraction)) (e - fraction.length)

/-- Reads the number that a text as a whole writes. -/
def read? (s : String) : Option Float :=
  let (negative, cs) := readSign s.toList
  let magnitude :=
    match String.ofList (cs.map Char.toLower) with
    | "inf" | "infinity" => some infinity
    | "nan" => some notANumber
    | _ => readUnsigned? cs
  magnitude.map fun x ↦ if negative then -x else x

end GemLang.Number
