import RespStore.Bytes
import RespStore.Span

/-!
# Longest common subsequence

`Lcs.solve a b` finds a longest common subsequence of two byte strings and the runs of equal
bytes it is made of. A table with one cell for each pair of starting pieces of the inputs
holds the length of their longest common subsequence; a walk from the last cell back to an
edge then picks the bytes and collects the runs, the last run first.

The table has 32-bit cells, and inputs whose table would need more memory than the limit are
refused before anything is computed.
-/

namespace RespStore.Lcs

/-- Why no subsequence is computed. -/
inductive Error where
  /-- The table would need more memory than the limit. -/
  | tooLarge
  deriving Repr, DecidableEq

/-- The text that reports an error. -/
def Error.message : Error → String
  | .tooLarge => "ERR Insufficient memory, transient memory for LCS exceeds proto-max-bulk-len"

/-- A run of bytes that are equal in both inputs. -/
structure Run where
  /-- Where the run stands in the first input. -/
  a : Span
  /-- Where the run stands in the second input. -/
  b : Span
  deriving Repr, DecidableEq

/-- The number of bytes in a run. -/
def Run.length (r : Run) : Nat := r.a.length

/-- A longest common subsequence and the runs it is made of, the last run first. -/
structure Alignment where
  /-- The subsequence itself. -/
  sequence : Bytes
  /-- The runs, from the end of the inputs towards their start. -/
  runs : List Run
  deriving Repr, DecidableEq

/-! ### The table -/

/-- The lengths found so far, one cell for each pair of starting pieces of inputs of `n` and
`m` bytes, row by row. -/
structure Table (n m : Nat) where
  /-- The cells, row by row. -/
  cells : Vector UInt32 ((n + 1) * (m + 1))

namespace Table

variable {n m : Nat}

/-- A table of zeros. -/
def zero (n m : Nat) : Table n m := ⟨Vector.replicate _ 0⟩

/-- The cell for the first `i` and the first `j` bytes. -/
def index (m i j : Nat) : Nat := i * (m + 1) + j

/-- Every cell lies inside of the table. -/
theorem index_lt {i j : Nat} (hi : i ≤ n) (hj : j ≤ m) :
    index m i j < (n + 1) * (m + 1) := by
  have := Nat.mul_le_mul_right (m + 1) hi
  simp only [index, Nat.succ_mul]
  omega

/-- The length found for the first `i` and the first `j` bytes. -/
def cell (t : Table n m) (i j : Nat) (hi : i ≤ n) (hj : j ≤ m) : UInt32 :=
  have := index_lt hi hj
  t.cells[index m i j]

/-- Notes the length for the first `i` and the first `j` bytes. -/
def set (t : Table n m) (i j : Nat) (hi : i ≤ n) (hj : j ≤ m) (length : UInt32) : Table n m :=
  ⟨t.cells.set (index m i j) length (index_lt hi hj)⟩

/-- Fills row `i + 1` from column `j + 1` on. The byte of the row is `x`, the bytes of the
remaining columns are `ys`. Equal bytes extend the subsequence without either of them; else
the better of the two subsequences without one of them stays. -/
def fillRow (i : Nat) (hi : i < n) (x : UInt8) (j : Nat) (ys : Bytes) (hj : j + ys.length = m)
    (t : Table n m) : Table n m :=
  match ys with
  | [] => t
  | y :: ys =>
    have hj : j + 1 + ys.length = m := by simp only [List.length_cons] at hj; omega
    have hj₁ : j + 1 ≤ m := by omega
    have hj₀ : j ≤ m := by omega
    let length :=
      if x = y then t.cell i j (Nat.le_of_lt hi) hj₀ + 1
      else max (t.cell i (j + 1) (Nat.le_of_lt hi) hj₁) (t.cell (i + 1) j hi hj₀)
    fillRow i hi x (j + 1) ys hj (t.set (i + 1) (j + 1) hi hj₁ length)

/-- Fills the rows from `i + 1` on. The bytes of the remaining rows are `xs`. -/
def fillRows (i : Nat) (xs ys : Bytes) (hi : i + xs.length = n) (hm : ys.length = m)
    (t : Table n m) : Table n m :=
  match xs with
  | [] => t
  | x :: xs =>
    have hi : i + 1 + xs.length = n := by simp only [List.length_cons] at hi; omega
    fillRows (i + 1) xs ys hi hm
      (fillRow i (by omega) x 0 ys (by omega) t)

/-- The table of two byte strings. -/
def of (a b : Bytes) : Table a.length b.length :=
  fillRows 0 a b (Nat.zero_add _) rfl (zero _ _)

end Table

/-! ### The walk back -/

/-- What the walk has collected. -/
structure Trail where
  /-- The bytes picked so far, in order. -/
  sequence : Bytes
  /-- The run that may still grow towards the start. -/
  current : Option Run
  /-- The runs that are closed, the latest first. -/
  closed : List Run
  deriving Repr, DecidableEq

namespace Trail

/-- Nothing collected yet. -/
def empty : Trail := ⟨[], none, []⟩

/-- Closes the run that is growing, if there is one. -/
def close (t : Trail) : Trail :=
  { t with current := none, closed := t.current.toList ++ t.closed }

/-- Closes the growing run if it starts where one of the inputs starts, because it cannot
grow any further. -/
def closeAtStart (t : Trail) : Trail :=
  match t.current with
  | some run => if run.a.first = 0 ∨ run.b.first = 0 then t.close else t
  | none => t

/-- Picks a byte that stands at offset `i` of the first and at offset `j` of the second
input. It extends the growing run if it stands right in front of it, and opens a run if none
is growing. -/
def pick (t : Trail) (x : UInt8) (i j : Nat) : Trail :=
  let t := { t with sequence := x :: t.sequence }
  match t.current with
  | none => { t with current := some ⟨⟨i, i⟩, ⟨j, j⟩⟩ }.closeAtStart
  | some run =>
    if run.a.first = i + 1 ∧ run.b.first = j + 1 then
      let run : Run := ⟨⟨run.a.first - 1, run.a.last⟩, ⟨run.b.first - 1, run.b.last⟩⟩
      { t with current := some run }.closeAtStart
    else t.close

end Trail

/-- Walks from the cell of the first `i` and the first `j` bytes back to an edge of the table.
Equal bytes are picked; else the walk leaves out the last byte of that input whose remaining
piece keeps the longer subsequence, and of the second input when both are as long. -/
def walk (a b : Array UInt8) (t : Table a.size b.size) (i j : Nat) (hi : i ≤ a.size)
    (hj : j ≤ b.size) (trail : Trail) : Trail :=
  match i, j with
  | 0, _ => trail
  | _ + 1, 0 => trail
  | i + 1, j + 1 =>
    if a[i] = b[j] then
      walk a b t i j (Nat.le_of_lt hi) (Nat.le_of_lt hj) (trail.pick a[i] i j)
    else if t.cell i (j + 1) (Nat.le_of_lt hi) hj > t.cell (i + 1) j hi (Nat.le_of_lt hj) then
      walk a b t i (j + 1) (Nat.le_of_lt hi) hj trail.close
    else walk a b t (i + 1) j hi (Nat.le_of_lt hj) trail.close
termination_by i + j

/-- The number of cells of the table for two byte strings. -/
def cellCount (a b : Bytes) : Nat := (a.length + 1) * (b.length + 1)

/-- Whether the table fits: its cells can be counted in 32 bits and take at most `limit`
bytes, four for each. -/
def fits (limit : Nat) (a b : Bytes) : Prop :=
  cellCount a b < 4294967295 ∧ 4 * cellCount a b ≤ limit

instance (limit : Nat) (a b : Bytes) : Decidable (fits limit a b) :=
  inferInstanceAs (Decidable (_ ∧ _))

/-- A longest common subsequence of two byte strings whose table takes at most `limit`
bytes. -/
def solve (a b : Bytes) (limit : Nat) : Except Error Alignment :=
  if fits limit a b then
    let trail := walk a.toArray b.toArray (Table.of a b) a.length b.length
      (Nat.le_refl _) (Nat.le_refl _) .empty
    .ok ⟨trail.sequence, trail.closed.reverse⟩
  else .error .tooLarge

/-- The limit that commands use: 512 MiB. -/
def defaultLimit : Nat := 512 * 1024 * 1024

end RespStore.Lcs
