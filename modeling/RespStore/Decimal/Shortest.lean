import RespStore.Decimal.Binary64
import RespStore.Decimal.Integer

/-!
# The shortest decimal that reads back

Many decimals round to one double. The one written for it has as few digits as possible, and
of those with that few digits it is the one nearest to the double, a tie going up.

For a number of digits, the decimals of that length form a grid around the value. If any
point of the grid rounds to the double, then one of the value's two neighbours on the grid
does, so only these two are tried, with 1, 2, … 17 digits.
-/

namespace RespStore.Decimal

/-- A power of ten. -/
def pow10 (n : Nat) : Nat := Nat.pow 10 n

/-- The decimal `0.d₁d₂…dₙ · 10 ^ point`, where `d₁d₂…dₙ` are the digits. -/
structure Scientific where
  /-- The significant digits, as one number without trailing zeros. -/
  digits : Nat
  /-- Where the decimal point stands, counted from in front of the digits. -/
  point : Int
  deriving Repr, DecidableEq

/-- The positive reals that round to one double, as fractions over one denominator. -/
structure Interval where
  /-- Numerator of the double itself. -/
  value : Nat
  /-- Numerator of the lower end. -/
  low : Nat
  /-- Numerator of the upper end. -/
  high : Nat
  /-- The common denominator. -/
  den : Nat
  /-- Whether the ends round to the double, too. -/
  closed : Bool
  deriving Repr

/-- The reals that round to `m · 2 ^ q`. The next smaller double is only half as far away
when `m` is the least significand of its exponent and the exponent is not the least one. -/
def Interval.of (m : Nat) (q : Int) : Interval :=
  let unit := Binary64.pow2 (q - 2).toNat
  let below := if m = Binary64.pow2 52 ∧ q ≠ -1074 then 1 else 2
  { value := 4 * m * unit
    low := (4 * m - below) * unit
    high := (4 * m + 2) * unit
    den := Binary64.pow2 (2 - q).toNat
    closed := m % 2 = 0 }

/-- The exponent `k` with `10 ^ (k - 1) ≤ num / den < 10 ^ k`. -/
def magnitude (num den : Nat) : Int :=
  if den ≤ num then width (num / den)
  else
    let w := width (den / num)
    if den ≤ num * pow10 (w - 1) then 2 - w else 1 - w

namespace Interval

/-- Whether `d · 10 ^ e` rounds to the double. -/
def admits (i : Interval) (d : Nat) (e : Int) : Bool :=
  let point := d * pow10 e.toNat * i.den
  let unit := pow10 (-e).toNat
  if i.closed then i.low * unit ≤ point ∧ point ≤ i.high * unit
  else i.low * unit < point ∧ point < i.high * unit

/-- The point of the grid of multiples of `10 ^ e` that is written for the double, if one of
the value's two neighbours on that grid rounds to the double. -/
def onGrid (i : Interval) (e : Int) : Option Nat :=
  let num := i.value * pow10 (-e).toNat
  let den := i.den * pow10 e.toNat
  let below := num / den
  let upper := den ≤ 2 * (num % den)
  match i.admits below e, i.admits (below + 1) e with
  | true, true => some (if upper then below + 1 else below)
  | true, false => some below
  | false, true => some (below + 1)
  | false, false => none

/-- The first grid with a point for the double, trying `n`, `n + 1`, … digits, `tries` times. -/
def firstGrid (i : Interval) (k : Int) : Nat → Nat → Nat × Int
  | 0, n => ((i.value * pow10 (n - k).toNat) / (i.den * pow10 (k - n).toNat), k - n)
  | tries + 1, n =>
    match i.onGrid (k - n) with
    | some d => (d, k - n)
    | none => firstGrid i k tries (n + 1)

end Interval

/-- A number without its trailing zeros, and how many there were. -/
def dropZeros (d : Nat) : Nat × Nat :=
  if d = 0 then (0, 0)
  else if d % 10 = 0 then
    let (d', zeros) := dropZeros (d / 10)
    (d', zeros + 1)
  else (d, 0)

/-- The shortest decimal that reads back as the positive double `m · 2 ^ q`. -/
def shortest (m : Nat) (q : Int) : Scientific :=
  let i := Interval.of m q
  let (d, e) := i.firstGrid (magnitude i.value i.den) 17 1
  let (digits, zeros) := dropZeros d
  ⟨digits, e + zeros + width digits⟩

end RespStore.Decimal
