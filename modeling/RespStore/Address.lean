import RespStore.Decimal.Integer
import RespStore.Text.Quoted

/-!
# Internet addresses

An address has four bytes, written in decimal, or eight groups of two bytes each, written in
hexadecimal. In the longer form one run of zero groups can be left out, and the last two
groups can be written as an address of the shorter form. `Address.text` writes the canonical
form: lower case, the longest run of at least two zero groups left out, and the shorter form
only for the addresses that stand for one.
-/

namespace RespStore

/-- An internet address. -/
inductive Address where
  /-- Four bytes. -/
  | v4 (a b c d : UInt8)
  /-- Eight groups. -/
  | v6 (groups : Vector UInt16 8)
  deriving Repr, DecidableEq

namespace Address

/-! ### Reading -/

/-- The value of a digit, in lower or in upper case. -/
def digit? (radix : Nat) (c : Char) : Option Nat :=
  let value :=
    if c.isDigit then some (c.toNat - 48)
    else if 'a' ≤ c ∧ c ≤ 'f' then some (c.toNat - 87)
    else if 'A' ≤ c ∧ c ≤ 'F' then some (c.toNat - 55)
    else none
  value.filter (· < radix)

/-- Reads a number of at most `most` digits, and all digits there are. -/
def number (radix most : Nat) (leadingZeros : Bool) (cs : List Char) : Option (Nat × List Char) :=
  let digits := (cs.takeWhile fun c => (digit? radix c).isSome).filterMap (digit? radix)
  let rest := cs.dropWhile fun c => (digit? radix c).isSome
  if digits.isEmpty ∨ most < digits.length then none
  else if !leadingZeros ∧ digits.head? = some 0 ∧ 1 < digits.length then none
  else some (digits.foldl (fun n d => radix * n + d) 0, rest)

/-- Reads one character. -/
def char (expected : Char) : List Char → Option (List Char)
  | [] => none
  | c :: rest => if c = expected then some rest else none

/-- Reads one byte in decimal, without leading zeros. -/
def byte (cs : List Char) : Option (UInt8 × List Char) :=
  (number 10 3 false cs).bind fun (n, rest) => if n < 256 then some (n.toUInt8, rest) else none

/-- Reads four bytes with points between them. -/
def fourBytes (cs : List Char) : Option ((UInt8 × UInt8 × UInt8 × UInt8) × List Char) := do
  let (a, cs) ← byte cs
  let (b, cs) ← byte (← char '.' cs)
  let (c, cs) ← byte (← char '.' cs)
  let (d, cs) ← byte (← char '.' cs)
  return ((a, b, c, d), cs)

/-- Two bytes as one group. -/
def group (high low : UInt8) : UInt16 := high.toUInt16 * 256 + low.toUInt16

/-- Reads groups with colons between them, at most so many. Where there is room for two
groups, four bytes can stand for them; nothing follows those. Answers the groups, whether
four bytes ended them, and what is left. -/
def groups (isFirst : Bool) : Nat → List Char → List UInt16 × Bool × List Char
  | 0, cs => ([], false, cs)
  | limit + 1, cs =>
    match if isFirst then some cs else char ':' cs with
    | none => ([], false, cs)
    | some body =>
      match if limit = 0 then none else fourBytes body with
      | some ((a, b, c, d), rest) => ([group a b, group c d], true, rest)
      | none =>
        match number 16 4 true body with
        | none => ([], false, cs)
        | some (n, rest) =>
          let (more, ended, rest) := groups false limit rest
          (n.toUInt16 :: more, ended, rest)

/-- Eight groups, from those in front of and those behind a run of zero groups. -/
def ofGroups (front back : List UInt16) : Vector UInt16 8 :=
  Vector.ofFn fun i =>
    if i.val < front.length then front.getD i.val 0
    else if 8 - back.length ≤ i.val then back.getD (i.val - (8 - back.length)) 0
    else 0

/-- Reads an address of the longer form. The run of zero groups that is left out has at least
one group. -/
def long (cs : List Char) : Option (Vector UInt16 8 × List Char) :=
  let (front, ended, rest) := groups true 8 cs
  if front.length = 8 then some (ofGroups front [], rest)
  else if ended then none
  else do
    let rest ← char ':' (← char ':' rest)
    let (back, _, rest) := groups true (7 - front.length) rest
    return (ofGroups front back, rest)

/-- The address that a text denotes. -/
def read? (text : String) : Option Address :=
  match fourBytes text.toList with
  | some ((a, b, c, d), rest) => if rest.isEmpty then some (.v4 a b c d) else none
  | none =>
    match long text.toList with
    | some (groups, rest) => if rest.isEmpty then some (.v6 groups) else none
    | none => none

/-! ### Writing -/

/-- The text of four bytes. -/
def bytesText (bytes : List UInt8) : String :=
  ".".intercalate (bytes.map fun b => Decimal.text b.toNat)

/-- The text of groups without gaps. -/
def groupsText (groups : List UInt16) : String :=
  ":".intercalate (groups.map fun g => String.ofList (Quoted.hexDigits g.toNat))

/-- The length of the run of zeros at the front. -/
def zerosAt (groups : List UInt16) : Nat := (groups.takeWhile (· = 0)).length

/-- Where the longest run of zero groups starts and how long it is; the first one of several. -/
def longestZeros (groups : List UInt16) : Nat × Nat :=
  (List.range groups.length).foldl (fun (best : Nat × Nat) start =>
    let length := zerosAt (groups.drop start)
    if best.2 < length then (start, length) else best) (0, 0)

/-- The four bytes that an address of the longer form stands for: it starts with five zero
groups and one of ones. -/
def mapped? (groups : List UInt16) : Option (List UInt8) :=
  match groups with
  | [0, 0, 0, 0, 0, 0xFFFF, high, low] =>
    some [(high / 256).toUInt8, high.toUInt8, (low / 256).toUInt8, low.toUInt8]
  | _ => none

/-- The canonical text of an address. -/
def text : Address → String
  | .v4 a b c d => bytesText [a, b, c, d]
  | .v6 groups =>
    let groups := groups.toList
    match mapped? groups with
    | some bytes => "::ffff:" ++ bytesText bytes
    | none =>
      let (start, length) := longestZeros groups
      if 1 < length then
        groupsText (groups.take start) ++ "::" ++ groupsText (groups.drop (start + length))
      else groupsText groups

end Address

end RespStore
