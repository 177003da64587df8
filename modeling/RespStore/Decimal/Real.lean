import RespStore.Decimal.Binary64
import RespStore.Decimal.Shortest

/-!
# Doubles in decimal

A stored number is text. `Real.text` writes a double with the fewest digits that read back,
always positionally and with no fraction when it is a whole number. `Real.describe` is the
form used in diagnostics: it marks whole numbers with a zero fraction and turns to an
exponent far from one. `Real.read?` takes what either form writes, and more: an exponent, a
plus sign, a bare leading or trailing point, and the names of infinity and not-a-number in
any case. What it reads is the double nearest to the number written.
-/

namespace RespStore.Decimal.Real

/-- The digits of a number, as text. -/
def digitText (n : Nat) : String := Decimal.text n

/-- A run of zeros. -/
def zeros (n : Nat) : String := String.ofList (List.replicate n '0')

/-- Writes a decimal positionally. `whole` closes a whole number. -/
def positional (s : Scientific) (whole : String) : String :=
  let ds := digitText s.digits
  let n : Int := width s.digits
  if s.point ≤ 0 then "0." ++ zeros (-s.point).toNat ++ ds
  else if n ≤ s.point then ds ++ zeros (s.point - n).toNat ++ whole
  else
    String.ofList (ds.toList.take s.point.toNat) ++ "." ++
      String.ofList (ds.toList.drop s.point.toNat)

/-- Writes a decimal with one digit in front of the point and an exponent. -/
def exponential (s : Scientific) : String :=
  match (digitText s.digits).toList with
  | [] => ""
  | d :: rest =>
    let fraction := if rest = [] then "" else "." ++ String.ofList rest
    String.ofList [d] ++ fraction ++ "e" ++ Decimal.text (s.point - 1)

/-- The sign in front of a negative number. -/
def sign (negative : Bool) : String := if negative then "-" else ""

/-- The text of a double, positional, with no fraction for a whole number. -/
def text (x : Float) : String :=
  match Binary64.ofFloat x with
  | .nan => "NaN"
  | .infinite negative => sign negative ++ "inf"
  | .finite negative 0 _ => sign negative ++ "0"
  | .finite negative m q => sign negative ++ positional (shortest m q) ""

/-- The text of a double in diagnostics: whole numbers end in a zero fraction, and an
exponent is written below `10 ^ -4` and from `10 ^ 16` on. -/
def describe (x : Float) : String :=
  match Binary64.ofFloat x with
  | .nan => "NaN"
  | .infinite negative => sign negative ++ "inf"
  | .finite negative 0 _ => sign negative ++ "0.0"
  | .finite negative m q =>
    let s := shortest m q
    sign negative ++
      if s.point < -3 ∨ 16 < s.point then exponential s else positional s ".0"

/-- A number that is read digit by digit. Appending a digit to a long number takes long, so
the latest digits are kept apart, and join the others a few hundred at a time. -/
structure Numeral where
  /-- The digits read first. -/
  high : Nat := 0
  /-- The latest digits. -/
  low : Nat := 0
  /-- A power of ten with as many zeros as there are latest digits. -/
  scale : Nat := 1
  deriving Repr, DecidableEq

namespace Numeral

/-- The number that has been read. -/
def value (n : Numeral) : Nat := n.high * n.scale + n.low

/-- The scale at which the latest digits join the others. -/
def fullScale : Nat := pow10 300

/-- Appends a digit. -/
def push (n : Numeral) (d : Nat) : Numeral :=
  if n.scale < fullScale then ⟨n.high, 10 * n.low + d, 10 * n.scale⟩ else ⟨n.value, d, 10⟩

end Numeral

/-- The leading digits of a byte string, read behind a number already read, with their
count, and what follows them. -/
def leadingDigits (acc : Numeral) (count : Nat) : Bytes → Numeral × Nat × Bytes
  | [] => (acc, count, [])
  | b :: rest =>
    match digit? b with
    | some d => leadingDigits (acc.push d) (count + 1) rest
    | none => (acc, count, b :: rest)

/-- The digits of an exponent, read behind a number already read. A number that has reached
`2 ^ 16` takes up no further digit: it is an exponent out of range already, unless the digits
it stands behind are just as many. -/
def readExponent (acc : Nat) : Bytes → Option Nat
  | [] => some acc
  | b :: rest =>
    (digit? b).bind fun d => readExponent (if acc < 65536 then 10 * acc + d else acc) rest

/-- The exponent written behind a number, if nothing else follows. -/
def exponent? : Bytes → Option Int
  | [] => some 0
  | b :: rest =>
    if b = 101 ∨ b = 69 then
      signed? (fun ds => if ds = [] then none else readExponent 0 ds) rest
    else none

/-- The double nearest to `digits · 10 ^ exponent`, without its sign. As `10 ^ n` is at least
`2 ^ (3 * n)`, an exponent far from zero can tell, with no more than the logarithm of the
digits, that the number is below half the least double or beyond the greatest. -/
def nearestBits (digits : Nat) (exponent : Int) : Nat :=
  let log : Int := digits.log2 + 3 * exponent
  if digits = 0 ∨ (exponent < 0 ∧ log < -1075) then 0
  else if 0 < exponent ∧ 1024 ≤ log then Binary64.infinityBits
  else Binary64.round (digits * pow10 exponent.toNat) (pow10 (-exponent).toNat)

/-- The magnitude that an unsigned decimal denotes: digits, a point among them or not, and an
exponent or none. At least one digit is needed in front of the exponent. -/
def decimal? (b : Bytes) : Option Nat :=
  let (whole, n, rest) := leadingDigits {} 0 b
  let (digits, k, rest) :=
    match rest with
    | 46 :: fraction => leadingDigits whole 0 fraction
    | _ => (whole, 0, rest)
  if n + k = 0 then none
  else (exponent? rest).map fun e => nearestBits digits.value (e - k)

/-- The double that an unsigned text denotes, with the given sign. -/
def unsigned? (negative : Bool) (b : Bytes) : Option Float :=
  let word := Bytes.lower b
  if word = Bytes.ofString "nan" then some (Binary64.ofMagnitude negative Binary64.nanBits)
  else if word = Bytes.ofString "inf" ∨ word = Bytes.ofString "infinity" then
    some (Binary64.ofMagnitude negative Binary64.infinityBits)
  else (decimal? b).map (Binary64.ofMagnitude negative)

/-- The double that a text denotes. -/
def read? : Bytes → Option Float
  | 45 :: rest => unsigned? true rest
  | 43 :: rest => unsigned? false rest
  | rest => unsigned? false rest

end RespStore.Decimal.Real
