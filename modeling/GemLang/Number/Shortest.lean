/-!
# The shortest decimal of a binary value

Among the decimals that round to a given binary value, one with the fewest digits is chosen, and of
those the nearest. The search is exact: a value `mantissa · 2 ^ exponent` owns an interval of
reals that round to it, and for one, two, … digits its two neighbours on the decimal grid of that
many digits are tested against the interval. If any point of a grid lies in the interval, one of
these two neighbours does, so the first grid with a hit is the shortest.

All quantities are scaled to natural numbers over one common denominator, so no rounding occurs.
-/

namespace GemLang.Number

/-- A decimal `0.d₁d₂…dₙ · 10 ^ point`, its digits as the natural number `digits`, of which there
are `count`. -/
structure Decimal where
  digits : Nat
  count : Nat
  point : Int
  deriving DecidableEq

/-- A positive value `value / scale` with the interval of reals that round to it, from
`(value - below) / scale` to `(value + above) / scale`; the ends belong to it when `closed`. -/
structure Interval where
  value : Nat
  below : Nat
  above : Nat
  scale : Nat
  closed : Bool

/-- The interval of `mantissa · 2 ^ exponent`. The number below the least mantissa of a binary
order is only half as far away as the number above it. -/
def Interval.ofBinary (mantissa : Nat) (exponent : Int) : Interval :=
  let narrow := mantissa = Nat.pow 2 52
  let value := 4 * mantissa
  let below := if narrow then 1 else 2
  let closed := mantissa % 2 = 0
  if 0 ≤ exponent then
    let unit := Nat.pow 2 exponent.toNat
    ⟨value * unit, below * unit, 2 * unit, 4, closed⟩
  else
    ⟨value, below, 2, 4 * Nat.pow 2 (-exponent).toNat, closed⟩

/-- Whether the real `numerator / denominator` lies in the interval. -/
def Interval.holds (i : Interval) (numerator denominator : Nat) : Bool :=
  let point := numerator * i.scale
  let low := (i.value - i.below) * denominator
  let high := (i.value + i.above) * denominator
  if i.closed then low ≤ point && point ≤ high else low < point && point < high

/-- The least `k` with `value < 10 ^ k`, counted up from `start` for at most `fuel` steps. -/
def magnitudeUp (value scale : Nat) (start : Int) : Nat → Int
  | 0 => start
  | fuel + 1 =>
    let reached :=
      if 0 ≤ start then value < scale * Nat.pow 10 start.toNat
      else value * Nat.pow 10 (-start).toNat < scale
    if reached then start else magnitudeUp value scale (start + 1) fuel

/-- The least `k` with `value / scale < 10 ^ k`. The search starts from an estimate by the number
of binary digits, which is never too large and at most a few too small. -/
def magnitude (value scale : Nat) : Int :=
  let bits : Int := value.log2 - scale.log2
  let estimate := (bits - 1) * 30103 / 100000 - 1
  magnitudeUp value scale estimate 8

/-- The neighbour of the value on the grid of `count` digits that belongs to the interval, the
nearer one if both do; exactly half way the upper one. -/
def Interval.onGrid? (i : Interval) (point : Int) (count : Nat) : Option Nat :=
  -- the grid has the unit `10 ^ (point - count)`
  let e := point - count
  let up := if 0 ≤ e then Nat.pow 10 e.toNat else 1
  let down := if 0 ≤ e then 1 else Nat.pow 10 (-e).toNat
  let lower := i.value * down / (i.scale * up)
  let upper := lower + 1
  let lowerHit := i.holds (lower * up) down
  let upperHit := i.holds (upper * up) down
  let doubled := 2 * (i.value * down - lower * (i.scale * up))
  if upperHit && (!lowerHit || i.scale * up ≤ doubled) then some upper
  else if lowerHit then some lower
  else none

/-- Tries the grids of `count`, `count + 1`, … digits. -/
def Interval.search (i : Interval) (point : Int) (count : Nat) : Nat → Decimal
  | 0 => ⟨i.value / i.scale, count, point⟩
  | fuel + 1 =>
    match i.onGrid? point count with
    | some digits =>
      -- rounding up may carry into a new leading digit
      if digits = Nat.pow 10 count then ⟨1, 1, point + 1⟩ else ⟨digits, count, point⟩
    | none => i.search point (count + 1) fuel

/-- The shortest decimal that rounds to `mantissa · 2 ^ exponent`, for a positive mantissa.
Seventeen digits always suffice. -/
def shortest (mantissa : Nat) (exponent : Int) : Decimal :=
  let i := Interval.ofBinary mantissa exponent
  i.search (magnitude i.value i.scale) 1 17

end GemLang.Number
