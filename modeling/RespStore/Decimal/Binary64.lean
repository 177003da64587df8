/-!
# Double-precision numbers as exact values

A finite double is `± m · 2 ^ q` with a significand `m` below `2 ^ 53` and an exponent `q`
of at least `-1074`. `Binary64.ofFloat` reads these off the bits, and `Binary64.round` finds
the double nearest to a positive fraction, a tie going to the even significand.
-/

namespace RespStore

/-- What the bits of a double stand for. -/
inductive Binary64 where
  /-- Not a number. -/
  | nan
  /-- Infinity, with its sign. -/
  | infinite (negative : Bool)
  /-- The number `± significand · 2 ^ exponent`. -/
  | finite (negative : Bool) (significand : Nat) (exponent : Int)
  deriving Repr, DecidableEq

namespace Binary64

/-- A power of two. -/
def pow2 (n : Nat) : Nat := Nat.pow 2 n

/-- The value of a double. -/
def ofFloat (x : Float) : Binary64 :=
  let bits := x.toBits.toNat
  let negative := bits / pow2 63 = 1
  let exponent : Nat := bits / pow2 52 % pow2 11
  let fraction := bits % pow2 52
  if exponent = 2047 then
    if fraction = 0 then .infinite negative else .nan
  else if exponent = 0 then .finite negative fraction (-1074)
  else .finite negative (fraction + pow2 52) ((exponent : Int) - 1075)

/-- The double with the given sign and the given remaining bits. -/
def ofMagnitude (negative : Bool) (magnitude : Nat) : Float :=
  Float.ofBits (magnitude + if negative then pow2 63 else 0).toUInt64

/-- The bits of infinity, without the sign. -/
def infinityBits : Nat := 2047 * pow2 52

/-- The bits of not-a-number, without the sign. -/
def nanBits : Nat := infinityBits + pow2 51

/-- The fraction `num / den · 2 ^ e`, as a fraction. -/
def scaled (num den : Nat) (e : Int) : Nat × Nat :=
  (num * pow2 e.toNat, den * pow2 (-e).toNat)

/-- The integer nearest to `num / den`, a tie going to the even one. -/
def nearest (num den : Nat) : Nat :=
  let low := num / den
  let twice := 2 * (num % den)
  if twice < den ∨ (twice = den ∧ low % 2 = 0) then low else low + 1

/-- The exponent that gives the significand of `num / den` its 53 bits, or the least exponent
there is. The logarithms of numerator and denominator decide it up to one. -/
def exponentFor (num den : Nat) : Int :=
  let guess : Int := (num.log2 : Int) - den.log2 - 52
  let (n, d) := scaled num den (-guess)
  max (-1074) (if n < pow2 52 * d then guess - 1 else guess)

/-- The bits, without the sign, of the double nearest to `num / den`, for positive `num` and
`den`. -/
def round (num den : Nat) : Nat :=
  let exponent := exponentFor num den
  let (n, d) := scaled num den (-exponent)
  let significand := nearest n d
  let magnitude :=
    if significand < pow2 52 then significand
    else (exponent + 1075).toNat * pow2 52 + (significand - pow2 52)
  min magnitude infinityBits

end Binary64

end RespStore
