import RespStore.Bytes

/-!
# Piles of byte strings

Byte strings that are gathered one behind the other. A pile keeps the latest one on top and
knows how many bytes it holds, so that adding to it costs no more than what is added.
`Pile.toList` gives the byte strings in the order in which they were added, `Pile.bytes` all
their bytes.
-/

namespace RespStore

/-- Byte strings, gathered one behind the other. -/
structure Pile where
  /-- The byte strings, latest first. -/
  items : List Bytes
  /-- How many bytes they have. -/
  size : Nat
  /-- The size is that of the byte strings together. -/
  length_flatten : items.flatten.length = size
  deriving Repr, DecidableEq

namespace Pile

/-- Nothing gathered yet. -/
def empty : Pile := ⟨[], 0, rfl⟩

/-- One more byte string, behind the others. -/
def add (p : Pile) (item : Bytes) : Pile :=
  ⟨item :: p.items, item.length + p.size, by
    rw [List.flatten_cons, List.length_append, p.length_flatten]⟩

/-- The byte strings, oldest first. -/
def toList (p : Pile) : List Bytes := p.items.reverse

/-- All bytes, oldest first. -/
def bytes (p : Pile) : Bytes := p.toList.flatten

@[simp]
theorem toList_add (p : Pile) (item : Bytes) : (p.add item).toList = p.toList ++ [item] := by
  simp [toList, add]

@[simp]
theorem bytes_empty : empty.bytes = [] := rfl

@[simp]
theorem bytes_add (p : Pile) (item : Bytes) : (p.add item).bytes = p.bytes ++ item := by
  simp [bytes]

/-- The size of a pile is the number of its bytes. -/
@[simp]
theorem length_bytes (p : Pile) : p.bytes.length = p.size := by
  have h : ∀ items : List Bytes,
      items.reverse.flatten.length = items.flatten.length := by
    intro items
    induction items with
    | nil => rfl
    | cons item items ih => simp [ih, Nat.add_comm]
  rw [bytes, toList, h, p.length_flatten]

end Pile

end RespStore
