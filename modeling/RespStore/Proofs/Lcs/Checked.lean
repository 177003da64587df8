import RespStore.Proofs.Lcs.Size
import RespStore.Proofs.Lcs.Table

/-!
# The table is safe

An alignment is found with one flat row of cells, with machine integers for positions in it, and
with offsets that are counted down. `Checked.solve` is the same computation with a check in front of
every step that could go wrong, each of which ends in a fault of its own: a position outside the
table or an input, a length or a position that is too large for its type, an offset counted down
below zero, and a walk that does not come to an end.

* `Table.Bounded` is the invariant of the lengths: a cell is at most as large as the shorter of the
  beginnings that it stands for.
* `Checked.entry_eq`, `Checked.store_eq`, `Checked.next_eq` and `Checked.pick_eq` are the steps
  whose checks pass, and `Checked.fillRow_eq`, `Checked.fillRows_eq` and `Checked.walk_eq` are the
  loops, by induction.
* `table_safe` is the main result, about all inputs and limits.
-/

namespace RespStore.Lcs

namespace Checked

/-- What can go wrong. -/
inductive Fault where
  /-- A position is outside the table, or outside an input. -/
  | outOfBounds
  /-- A number is too large for its type. -/
  | overflow
  /-- Zero is counted down. -/
  | underflow
  /-- The walk is not done after as many steps as both inputs have bytes. -/
  | unfinished
  deriving Repr, DecidableEq

/-! ### The checks -/

/-- The product of two numbers, if it has 64 bits. -/
def product? (m n : Nat) : Option Nat := if m * n < 2 ^ 64 then some (m * n) else none

/-- The number of cells of the table, if they can be counted in 32 bits and take up at most `limit`
bytes. -/
def size? (a b : Bytes) (limit : Nat) : Option Nat := do
  -- The lengths of inputs in memory have 63 bits, so there is room for one more.
  let cells ← product? (a.length + 1) (b.length + 1)
  if cells < 4294967295 then
    let bytes ← product? cells 4
    if bytes ≤ limit then return bytes / 4 else none
  else none

/-- The position of a cell in a table whose rows have `width` cells. -/
def position (width i j : Nat) : Except Fault Nat :=
  if i * width + j < 2 ^ 64 then .ok (i * width + j) else .error .overflow

/-- Reads a cell. -/
def entry (width : Nat) (cells : Array UInt32) (i j : Nat) : Except Fault UInt32 := do
  match cells[← position width i j]? with
  | none => .error .outOfBounds
  | some length => .ok length

/-- Writes a cell. -/
def store (width : Nat) (cells : Array UInt32) (i j : Nat) (length : UInt32) :
    Except Fault (Array UInt32) := do
  let k ← position width i j
  if h : k < cells.size then .ok (cells.set k length) else .error .outOfBounds

/-- One more than a length. -/
def increment (length : UInt32) : Except Fault UInt32 :=
  if length.toNat + 1 < 2 ^ 32 then .ok (length + 1) else .error .overflow

/-- One less than an offset. -/
def decrement : Nat → Except Fault Nat
  | 0 => .error .underflow
  | n + 1 => .ok n

/-- Reads a byte of an input. -/
def byte (a : Array UInt8) (i : Nat) : Except Fault UInt8 :=
  match a[i]? with
  | none => .error .outOfBounds
  | some x => .ok x

/-! ### The computation -/

/-- The length for the first `i + 1` bytes, which end with `x`, and for the first `j + 1` bytes,
which end with `y`. -/
def next (width : Nat) (cells : Array UInt32) (i j : Nat) (x y : UInt8) : Except Fault UInt32 := do
  if x = y then increment (← entry width cells i j)
  else return max (← entry width cells i (j + 1)) (← entry width cells (i + 1) j)

/-- Fills row `i + 1` from column `j + 1` on. -/
def fillRow (width i : Nat) (x : UInt8) (j : Nat) (ys : Bytes) (cells : Array UInt32) :
    Except Fault (Array UInt32) := do
  match ys with
  | [] => return cells
  | y :: ys =>
    let length ← next width cells i j x y
    fillRow width i x (j + 1) ys (← store width cells (i + 1) (j + 1) length)

/-- Fills the rows from `i + 1` on. -/
def fillRows (width i : Nat) (xs ys : Bytes) (cells : Array UInt32) :
    Except Fault (Array UInt32) := do
  match xs with
  | [] => return cells
  | x :: xs => fillRows width (i + 1) xs ys (← fillRow width i x 0 ys cells)

/-- Picks the byte in front of offset `i` of the first and of offset `j` of the second input. -/
def pick (t : Trail) (x : UInt8) (i j : Nat) : Except Fault Trail := do
  let t := { t with sequence := x :: t.sequence }
  match t.current with
  | none =>
    let i ← decrement i
    let j ← decrement j
    return { t with current := some ⟨⟨i, i⟩, ⟨j, j⟩⟩ }.closeAtStart
  | some run =>
    if run.a.first = i ∧ run.b.first = j then
      let first ← decrement run.a.first
      let first' ← decrement run.b.first
      return { t with current := some ⟨⟨first, run.a.last⟩, ⟨first', run.b.last⟩⟩ }.closeAtStart
    else return t.close

/-- Walks from the cell of the first `i` and the first `j` bytes back to an edge of the table, in
at most `steps` steps. -/
def walk (a b : Array UInt8) (cells : Array UInt32) (steps i j : Nat) (trail : Trail) :
    Except Fault Trail := do
  if i = 0 ∨ j = 0 then return trail
  else
    match steps with
    | 0 => .error .unfinished
    | steps + 1 =>
      let i' ← decrement i
      let j' ← decrement j
      let x ← byte a i'
      if x = (← byte b j') then walk a b cells steps i' j' (← pick trail x i j)
      else if (← entry (b.size + 1) cells i' j) > (← entry (b.size + 1) cells i j') then
        walk a b cells steps i' j trail.close
      else walk a b cells steps i j' trail.close

/-- A longest common subsequence of two byte strings whose table takes at most `limit` bytes. -/
def solve (a b : Bytes) (limit : Nat) : Except Fault (Except Error Alignment) := do
  match size? a b limit with
  | none => return .error .tooLarge
  | some size =>
    let cells ← fillRows (b.length + 1) 0 a b (Array.replicate size 0)
    let _ ← entry (b.length + 1) cells a.length b.length
    let trail ← walk a.toArray b.toArray cells (a.length + b.length) a.length b.length .empty
    return .ok ⟨trail.sequence, trail.closed.reverse⟩

end Checked

/-! ### Cells -/

/-- Whether every cell is at most as large as the shorter of the two beginnings it stands for. -/
def Table.Bounded {n m : Nat} (t : Table n m) : Prop :=
  ∀ i j (hi : i ≤ n) (hj : j ≤ m), (t.cell i j hi hj).toNat ≤ min i j

namespace Table.Bounded

variable {n m : Nat} {t : Table n m} {i j : Nat}

theorem zero (n m : Nat) : (zero n m).Bounded := by
  intro i j hi hj
  rw [cell_zero]
  exact Nat.zero_le _

/-- A length that keeps the bound may be put into its cell. -/
theorem set (h : t.Bounded) {hi : i ≤ n} {hj : j ≤ m} {length : UInt32}
    (hlength : length.toNat ≤ min i j) : (t.set i j hi hj length).Bounded := by
  intro i' j' hi' hj'
  rw [cell_set]
  split
  · rename_i heq
    obtain ⟨rfl, rfl⟩ := heq
    exact hlength
  · exact h i' j' hi' hj'

end Table.Bounded

namespace Checked

variable {n m : Nat} {t : Table n m} {i j : Nat}

theorem ok_bind {α β : Type} (value : α) (f : α → Except Fault β) :
    (Except.ok value >>= f) = f value := rfl

section Steps

variable (hcells : (n + 1) * (m + 1) < 4294967295)
include hcells

/-- The position of a cell is computed without an overflow: the cells can be counted in 32 bits. -/
theorem position_eq (hi : i ≤ n) (hj : j ≤ m) :
    position (m + 1) i j = .ok (Table.index m i j) := by
  have hlt := Table.index_lt hi hj
  exact if_pos (by rw [Table.index] at hlt; omega)

/-- Cells are read where they are. -/
theorem entry_eq (hi : i ≤ n) (hj : j ≤ m) :
    entry (m + 1) t.cells.toArray i j = .ok (t.cell i j hi hj) := by
  have hlt := Table.index_lt hi hj
  rw [entry, position_eq hcells hi hj, ok_bind]
  simp [Table.cell, hlt]

/-- Cells are written where they are. -/
theorem store_eq (hi : i ≤ n) (hj : j ≤ m) (length : UInt32) :
    store (m + 1) t.cells.toArray i j length = .ok (t.set i j hi hj length).cells.toArray := by
  have hlt := Table.index_lt hi hj
  rw [store, position_eq hcells hi hj, ok_bind]
  simp [Table.set, hlt]

/-- The next length is found, and it is at most one more than those around it. -/
theorem next_eq (h : t.Bounded) (hi : i < n) (hj : j < m) (x y : UInt8) :
    ∃ length, next (m + 1) t.cells.toArray i j x y = .ok length ∧
      length = (if x = y then t.cell i j (Nat.le_of_lt hi) (Nat.le_of_lt hj) + 1
        else max (t.cell i (j + 1) (Nat.le_of_lt hi) hj) (t.cell (i + 1) j hi (Nat.le_of_lt hj))) ∧
      length.toNat ≤ min (i + 1) (j + 1) := by
  rw [next]
  split
  · have hcorner := h i j (Nat.le_of_lt hi) (Nat.le_of_lt hj)
    have hn : n + 1 ≤ (n + 1) * (m + 1) := Nat.le_mul_of_pos_right _ (Nat.succ_pos _)
    rw [entry_eq hcells (Nat.le_of_lt hi) (Nat.le_of_lt hj), ok_bind]
    refine ⟨_, if_pos (by omega), rfl, ?_⟩
    rw [UInt32.toNat_add, UInt32.toNat_one, Nat.mod_eq_of_lt (by omega)]
    omega
  · have habove := h i (j + 1) (Nat.le_of_lt hi) hj
    have hbeside := h (i + 1) j hi (Nat.le_of_lt hj)
    rw [entry_eq hcells (Nat.le_of_lt hi) hj, ok_bind, entry_eq hcells hi (Nat.le_of_lt hj),
      ok_bind]
    refine ⟨_, rfl, rfl, ?_⟩
    rw [UInt32.toNat_max]
    refine Nat.max_le.mpr ⟨Nat.le_trans habove ?_, Nat.le_trans hbeside ?_⟩
    · omega
    · omega

/-- A row is filled without a fault. Induction on the columns that are left. -/
theorem fillRow_eq (hi : i < n) (x : UInt8) {ys : Bytes} (hj : j + ys.length = m)
    (h : t.Bounded) :
    fillRow (m + 1) i x j ys t.cells.toArray = .ok (t.fillRow i hi x j ys hj).cells.toArray ∧
      (t.fillRow i hi x j ys hj).Bounded := by
  induction ys generalizing j t with
  | nil => exact ⟨rfl, h⟩
  | cons y ys ih =>
      have hlt : j < m := by
        rw [List.length_cons] at hj
        omega
      obtain ⟨length, hnext, hlength, hbound⟩ := next_eq hcells h hi hlt x y
      rw [fillRow, Table.fillRow, hnext, ok_bind, store_eq hcells hi hlt, ok_bind, ← hlength]
      exact ih _ (h.set hbound)

/-- All rows are filled without a fault. Induction on the rows that are left. -/
theorem fillRows_eq {xs ys : Bytes} (hi : i + xs.length = n) (hm : ys.length = m)
    (h : t.Bounded) :
    fillRows (m + 1) i xs ys t.cells.toArray = .ok (t.fillRows i xs ys hi hm).cells.toArray ∧
      (t.fillRows i xs ys hi hm).Bounded := by
  induction xs generalizing i t with
  | nil => exact ⟨rfl, h⟩
  | cons x xs ih =>
      have hlt : i < n := by
        rw [List.length_cons] at hi
        omega
      obtain ⟨hrow, hbounded⟩ := fillRow_eq hcells hlt x (Nat.zero_add _ |>.trans hm) h
      rw [fillRows, Table.fillRows, hrow, ok_bind]
      exact ih _ hbounded

end Steps

/-- The bounds of a run are counted down only in front of a byte that is there. -/
theorem pick_eq (trail : Trail) (x : UInt8) (i j : Nat) :
    pick trail x (i + 1) (j + 1) = .ok (trail.pick x i j) := by
  rw [pick, Trail.pick]
  cases trail.current with
  | none => rfl
  | some run =>
      simp only
      split
      · rename_i hfirst
        simp only [hfirst.1, hfirst.2, decrement, ok_bind, Nat.add_sub_cancel]
        rfl
      · rfl

/-- Bytes are read where they are. -/
theorem byte_eq {a : Array UInt8} (hi : i < a.size) : byte a i = .ok a[i] := by
  rw [byte, Array.getElem?_eq_getElem hi]

section Walk

variable {a b : Array UInt8} {t : Table a.size b.size}
  (hcells : (a.size + 1) * (b.size + 1) < 4294967295)
include hcells

/-- One step of the walk. -/
theorem walk_step {steps : Nat} (trail : Trail) (hi : i + 1 ≤ a.size) (hj : j + 1 ≤ b.size) :
    walk a b t.cells.toArray (steps + 1) (i + 1) (j + 1) trail =
      if a[i] = b[j] then walk a b t.cells.toArray steps i j (trail.pick a[i] i j)
      else if t.cell i (j + 1) (Nat.le_of_lt hi) hj > t.cell (i + 1) j hi (Nat.le_of_lt hj) then
        walk a b t.cells.toArray steps i (j + 1) trail.close
      else walk a b t.cells.toArray steps (i + 1) j trail.close := by
  rw [walk, if_neg (by omega)]
  simp only [decrement, ok_bind, byte_eq hi, byte_eq hj, pick_eq,
    entry_eq hcells (Nat.le_of_lt hi) hj, entry_eq hcells hi (Nat.le_of_lt hj)]

/-- The walk comes to its end without a fault. Induction on the walk, which takes a byte off one of
the inputs in each step. -/
theorem walk_eq (hi : i ≤ a.size) (hj : j ≤ b.size) (trail : Trail) {steps : Nat}
    (hsteps : i + j ≤ steps) :
    walk a b t.cells.toArray steps i j trail = .ok (Lcs.walk a b t i j hi hj trail) := by
  fun_induction Lcs.walk a b t i j hi hj trail generalizing steps with
  | case1 =>
      rw [walk.eq_def, if_pos (.inl rfl)]
      rfl
  | case2 =>
      rw [walk.eq_def, if_pos (.inr rfl)]
      rfl
  | case3 trail i j hi hj heq _ _ ih =>
      obtain ⟨steps, rfl⟩ := Nat.exists_eq_add_one_of_ne_zero (n := steps) (by omega)
      rw [walk_step hcells trail hi hj, if_pos heq]
      exact ih (by omega)
  | case4 trail i j hi hj hne hcell _ _ ih =>
      obtain ⟨steps, rfl⟩ := Nat.exists_eq_add_one_of_ne_zero (n := steps) (by omega)
      rw [walk_step hcells trail hi hj, if_neg hne, if_pos hcell]
      exact ih (by omega)
  | case5 trail i j hi hj hne hcell _ _ ih =>
      obtain ⟨steps, rfl⟩ := Nat.exists_eq_add_one_of_ne_zero (n := steps) (by omega)
      rw [walk_step hcells trail hi hj, if_neg hne, if_neg hcell]
      exact ih (by omega)

end Walk

/-- The size that is computed with checks is that of a table that fits. -/
theorem size?_eq (a b : Bytes) (limit : Nat) :
    size? a b limit = if fits limit a b then some (cellCount a b) else none := by
  rw [size?, product?, ← cellCount]
  by_cases hcells : cellCount a b < 4294967295
  · have hbytes : product? (cellCount a b) 4 = some (cellCount a b * 4) := if_pos (by omega)
    rw [if_pos (by omega), Option.bind_eq_bind, Option.bind_some, if_pos hcells, hbytes,
      Option.bind_some, Nat.mul_div_cancel _ (by decide)]
    simp only [fits, hcells, true_and, Nat.mul_comm 4]
    rfl
  · rw [if_neg fun hfits : fits limit a b => hcells hfits.1]
    split
    · exact if_neg hcells
    · rfl

/-- Nothing goes wrong when the table fits. -/
theorem solve_eq {a b : Bytes} {limit : Nat} (h : fits limit a b) :
    solve a b limit = .ok (Lcs.solve a b limit) := by
  have hcells : cellCount a b < 4294967295 := h.1
  have hfill : fillRows (b.length + 1) 0 a b (Array.replicate (cellCount a b) 0) =
      .ok (Table.of a b).cells.toArray :=
    (fillRows_eq hcells (Nat.zero_add _) rfl (.zero a.length b.length)).1
  have hlast := entry_eq hcells (t := Table.of a b) (Nat.le_refl a.length) (Nat.le_refl b.length)
  have hwalk : walk a.toArray b.toArray (Table.of a b).cells.toArray (a.length + b.length) a.length
      b.length .empty = .ok _ :=
    walk_eq hcells (Nat.le_refl _) (Nat.le_refl _) .empty (Nat.le_refl _)
  rw [solve, size?_eq, if_pos h, Lcs.solve, if_pos h]
  simp only [hfill, hlast, hwalk, ok_bind]
  rfl

end Checked

/-- **The table is safe.** Whatever the inputs and the limit are, the inputs are refused if and only
if the table has too many cells for 32 bits or takes up more bytes than the limit. In any case no
check fails on the way to the result: every position is inside the table, every length and every
position has room in its type, nothing is counted down below zero, and the walk ends. -/
theorem table_safe (a b : Bytes) (limit : Nat) :
    (solve a b limit = .error .tooLarge ↔
      2 ^ 32 - 1 ≤ (a.length + 1) * (b.length + 1) ∨
        limit < 4 * ((a.length + 1) * (b.length + 1))) ∧
      Checked.solve a b limit = .ok (solve a b limit) := by
  by_cases hfits : fits limit a b
  · refine ⟨?_, Checked.solve_eq hfits⟩
    obtain ⟨hcells, hbytes⟩ := hfits
    rw [solve, if_pos ⟨hcells, hbytes⟩]
    rw [cellCount] at hcells hbytes
    constructor
    · intro h
      cases h
    · omega
  · rw [Checked.solve, Checked.size?_eq, if_neg hfits, solve, if_neg hfits]
    refine ⟨iff_of_true rfl ?_, rfl⟩
    rw [fits, cellCount] at hfits
    omega

end RespStore.Lcs
