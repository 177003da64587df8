import RespStore.Bytes

/-!
# Integers in decimal

The wire format writes lengths, counts and integers as ASCII decimal digits. Written
numbers are canonical: no leading zero, and a minus sign only before a non-zero number.
Reading is a little wider: it takes an explicit plus sign and leading zeros, and refuses
whatever does not fit into 64 bits.
-/

namespace RespStore.Decimal

/-- The ASCII digit of a number below ten. -/
def digit (n : Nat) : UInt8 := 48 + n.toUInt8

/-- The decimal digits of `n`, most significant first, with no leading zero. -/
def digits (n : Nat) : Bytes :=
  if n < 10 then [digit n] else digits (n / 10) ++ [digit (n % 10)]

/-- How many decimal digits `n` has, found without writing them. -/
def width (n : Nat) : Nat :=
  if n < 10 then 1 else width (n / 10) + 1

/-- The width announced for a number is the number of digits written for it. -/
theorem length_digits (n : Nat) : (digits n).length = width n := by
  fun_induction digits n with
  | case1 n h => simp [width, h]
  | case2 n h ih => rw [width, if_neg h, List.length_append, ih]; rfl

/-- The decimal text of an integer. -/
def ofInt (i : Int) : Bytes :=
  if i < 0 then 45 :: digits i.natAbs else digits i.natAbs

/-- The value of an ASCII digit. -/
def digit? (b : UInt8) : Option Nat :=
  if 48 ≤ b ∧ b ≤ 57 then some (b.toNat - 48) else none

/-- Reads digits behind a number already read, as long as the number fits into 64 bits. -/
def readDigits (acc : Nat) : Bytes → Option Nat
  | [] => some acc
  | b :: rest =>
    (digit? b).bind fun d =>
      if 10 * acc + d < UInt64.size then readDigits (10 * acc + d) rest else none

/-- The natural number that a non-empty string of digits denotes, if it fits into 64 bits. -/
def readNat? : Bytes → Option Nat
  | [] => none
  | b :: rest => readDigits 0 (b :: rest)

/-- The integer that a number with an optional sign denotes, given how the number is read. -/
def signed? (read : Bytes → Option Nat) : Bytes → Option Int
  | 45 :: rest => (read rest).map fun n => -(n : Int)
  | 43 :: rest => (read rest).map fun n => (n : Int)
  | rest => (read rest).map fun n => (n : Int)

/-- The integer that a string of digits with an optional sign denotes, if it fits into 64
bits besides its sign. -/
def readInt? : Bytes → Option Int := signed? readNat?

/-- The 64-bit signed integer that a text denotes, if it denotes an integer in range. -/
def readInt64? (b : Bytes) : Option Int64 :=
  (readInt? b).bind fun i =>
    if Int64.minValue.toInt ≤ i ∧ i ≤ Int64.maxValue.toInt then some (.ofInt i) else none

/-- The 64-bit unsigned integer that a text denotes, if it denotes one in range. It may have a
plus sign, but no minus sign. -/
def readUInt64? (b : Bytes) : Option UInt64 :=
  let digits := match b with
    | 43 :: rest => rest
    | _ => b
  (readNat? digits).map .ofNat

/-- The decimal text of an integer, as text. -/
def text (i : Int) : String := toString i

end RespStore.Decimal
