/-!
# List values

A key can hold a list. Both ends can grow and shrink, and elements are found by offset:
zero is the head, and negative offsets count from the tail, minus one being the tail itself.

Offsets are 64-bit signed integers, and so are the lengths that they are counted from.

None of these operations changes a list in place: each answers with a new one.
-/

namespace RespStore

/-- One of the two ends of a list. -/
inductive ListEnd where
  /-- The end with offset zero. -/
  | head
  /-- The end with offset minus one. -/
  | tail
  deriving Repr, DecidableEq

namespace ListValue

variable {α : Type}

/-- Adds values at one end, one after the other. At the head they end up in reverse. -/
def offer (items values : List α) : ListEnd → List α
  | .head => values.reverse ++ items
  | .tail => items ++ values

/-- The element at an offset, if the list has one there. -/
def index (items : List α) (offset : Int64) : Option α :=
  let length : Int64 := .ofNat items.length
  if offset = 0 then items.head?
  else if offset = length - 1 then items.getLast?
  else if 0 < offset then
    if length ≤ offset then none else items[offset.toNatClampNeg]?
  else
    let fromTail := offset.toInt.natAbs
    if items.length < fromTail then none else items.reverse[fromTail - 1]?

/-- An offset counted from the head. Offsets past the start stay negative. -/
def fromHead (length offset : Int64) : Int64 :=
  if offset < 0 then length + offset else offset

/-- The elements between two offsets, both included. Offsets of one sign in the wrong order
leave nothing, and equal offsets ask for one element, so that only the other ranges need a
scan of the list. -/
def sublist (items : List α) (first last : Int64) : List α :=
  if (0 ≤ first ∧ 0 ≤ last ∨ first < 0 ∧ last < 0) ∧ last < first then []
  else if first = last then (index items first).toList
  else
    let length : Int64 := .ofNat items.length
    let first := fromHead length first
    let last := fromHead length last
    ((items.zipIdx.dropWhile fun p => Int64.ofNat p.2 < first).takeWhile fun p =>
      Int64.ofNat p.2 ≤ last).map Prod.fst

/-- Takes up to `count` elements off one end. Answers them from head to tail, whichever end
they were taken from, and the list that remains. -/
def poll (items : List α) (side : ListEnd) (count : Nat) : List α × List α :=
  if items.length ≤ count then (items, [])
  else
    match side with
    | .head => (items.take count, items.drop count)
    | .tail => (items.drop (items.length - count), items.take (items.length - count))

end ListValue

end RespStore
