import Mathlib
import RespStore.Lcs

/-!
# The table of lengths

A longest common subsequence of two byte strings is found from those of their beginnings. Equal last
bytes go behind a longest one of what is in front of them; of two different ones, one is left out.
`Longest` states what is looked for, and has one rule for each of these steps.

* `Table.Right` says of a cell that it holds the length of a longest common subsequence of the
  beginnings that it stands for, and `Table.Filled` says it of the cells that are filled so far.
* `Table.right_of` says it of every cell of the table in the end. No length is cut to 32 bits.
-/

namespace RespStore.Lcs

/-! ### Longest common subsequences -/

/-- Whether a sequence is a longest common subsequence of two others. -/
structure Longest {α : Type} (s xs ys : List α) : Prop where
  /-- It is a subsequence of the first one. -/
  left : s.Sublist xs
  /-- It is a subsequence of the second one. -/
  right : s.Sublist ys
  /-- No common subsequence is longer. -/
  length_le : ∀ t : List α, t.Sublist xs → t.Sublist ys → t.length ≤ s.length

section Sublist

variable {α : Type} {t xs ys : List α} {x y : α}

/-- A subsequence of what ends with an element does without it, or ends with it as well. -/
theorem sublist_concat_cases (h : t.Sublist (xs ++ [x])) :
    t.Sublist xs ∨ ∃ front : List α, t = front ++ [x] ∧ front.Sublist xs := by
  obtain ⟨front, last, rfl, hfront, hlast⟩ := List.sublist_append_iff.mp h
  rcases List.sublist_singleton.mp hlast with rfl | rfl
  · exact .inl ((List.append_nil front).symm ▸ hfront)
  · exact .inr ⟨front, rfl, hfront⟩

/-- What is in front of the last element of such a subsequence. -/
theorem dropLast_sublist (h : t.Sublist (xs ++ [x])) : t.dropLast.Sublist xs := by
  rcases sublist_concat_cases h with h | ⟨front, rfl, hfront⟩
  · exact (List.dropLast_sublist t).trans h
  · exact List.dropLast_concat.symm ▸ hfront

/-- Of two different last elements, a common subsequence does without one. -/
theorem sublist_or_sublist (hne : x ≠ y) (hxs : t.Sublist (xs ++ [x]))
    (hys : t.Sublist (ys ++ [y])) : t.Sublist xs ∨ t.Sublist ys := by
  rcases sublist_concat_cases hxs with hxs | ⟨front, rfl, -⟩
  · exact .inl hxs
  · rcases sublist_concat_cases hys with hys | ⟨front', heq, -⟩
    · exact .inr hys
    · exact absurd (List.singleton_inj.mp (List.append_inj' heq rfl).2) hne

end Sublist

namespace Longest

variable {α : Type} {s t xs ys : List α} {x y : α}

/-- It does not matter which of the two sequences comes first. -/
theorem symm (h : Longest s xs ys) : Longest s ys xs :=
  ⟨h.right, h.left, fun t hys hxs => h.length_le t hxs hys⟩

/-- There is nothing in common with nothing. -/
theorem nil (ys : List α) : Longest [] [] ys :=
  ⟨List.Sublist.refl [], List.nil_sublist ys, fun _ ht _ => ht.length_le⟩

/-- Two of them have the same length. -/
theorem length_eq (h : Longest s xs ys) (h' : Longest t xs ys) : s.length = t.length :=
  Nat.le_antisymm (h'.length_le s h.left h.right) (h.length_le t h'.left h'.right)

/-- A last element that both have in common is taken. -/
theorem concat (h : Longest s xs ys) (x : α) : Longest (s ++ [x]) (xs ++ [x]) (ys ++ [x]) where
  left := h.left.append_right [x]
  right := h.right.append_right [x]
  length_le t hxs hys := by
    have hfront := h.length_le t.dropLast (dropLast_sublist hxs) (dropLast_sublist hys)
    rw [List.length_dropLast] at hfront
    rw [List.length_append, List.length_singleton]
    omega

/-- Of two different last elements, that of the first sequence is left out, when it does not pay
more to leave out the other one. -/
theorem leave_left (hne : x ≠ y) (h : Longest s xs (ys ++ [y])) (h' : Longest t (xs ++ [x]) ys)
    (hle : t.length ≤ s.length) : Longest s (xs ++ [x]) (ys ++ [y]) where
  left := h.left.trans (List.sublist_append_left xs [x])
  right := h.right
  length_le u hxs hys := by
    rcases sublist_or_sublist hne hxs hys with hxs' | hys'
    · exact h.length_le u hxs' hys
    · exact (h'.length_le u hxs hys').trans hle

/-- Of two different last elements, that of the second sequence is left out when this costs
nothing. -/
theorem leave_right (hne : x ≠ y) (h : Longest s xs (ys ++ [y])) (h' : Longest t (xs ++ [x]) ys)
    (hle : s.length ≤ t.length) : Longest t (xs ++ [x]) (ys ++ [y]) :=
  (leave_left hne.symm h'.symm h.symm hle).symm

end Longest

namespace Table

variable {n m : Nat}

/-! ### Cells -/

/-- Two cells of a row have positions of their own, and so do two rows. -/
theorem index_inj {i j i' j' : Nat} (hj : j ≤ m) (hj' : j' ≤ m) :
    index m i j = index m i' j' ↔ i = i' ∧ j = j' := by
  constructor
  · intro h
    have hrow := congrArg (· / (m + 1)) h
    have hcolumn := congrArg (· % (m + 1)) h
    simp only [index, Nat.mul_comm _ (m + 1), Nat.mul_add_div (Nat.succ_pos m),
      Nat.mul_add_mod, Nat.div_eq_of_lt (Nat.lt_succ_of_le hj),
      Nat.div_eq_of_lt (Nat.lt_succ_of_le hj'), Nat.mod_eq_of_lt (Nat.lt_succ_of_le hj),
      Nat.mod_eq_of_lt (Nat.lt_succ_of_le hj')] at hrow hcolumn
    exact ⟨hrow, hcolumn⟩
  · rintro ⟨rfl, rfl⟩
    rfl

/-- Every cell of a new table is zero. -/
theorem cell_zero {i j : Nat} (hi : i ≤ n) (hj : j ≤ m) : (zero n m).cell i j hi hj = 0 := by
  rw [cell, zero]
  exact Vector.getElem_replicate _

/-- A cell that is written has the new length, and all other cells keep theirs. -/
theorem cell_set (t : Table n m) {i j i' j' : Nat} (hi : i ≤ n) (hj : j ≤ m) (hi' : i' ≤ n)
    (hj' : j' ≤ m) (length : UInt32) :
    (t.set i j hi hj length).cell i' j' hi' hj' =
      if i = i' ∧ j = j' then length else t.cell i' j' hi' hj' := by
  rw [cell, set, cell, Vector.getElem_set]
  simp only [index_inj hj hj']

/-! ### Filling the table -/

/-- Whether a cell holds the length of a longest common subsequence of the first `i` and the first
`j` bytes. -/
def Right (t : Table n m) (a b : Bytes) (i j : Nat) : Prop :=
  ∀ (hi : i ≤ n) (hj : j ≤ m), ∃ s, Longest s (a.take i) (b.take j) ∧
    (t.cell i j hi hj).toNat = s.length

/-- Whether the rows in front of row `i` are right, and row `i` up to column `j`. The first column
is right from the start. -/
def Filled (t : Table n m) (a b : Bytes) (i j : Nat) : Prop :=
  ∀ i' j', i' < i ∨ i' = i ∧ j' ≤ j ∨ j' = 0 → t.Right a b i' j'

/-- A cell is right in a table with a new length if it was right or is the one with that length. -/
theorem right_set {t : Table n m} {a b : Bytes} {i j i' j' : Nat} {hi : i ≤ n} {hj : j ≤ m}
    {length : UInt32} (hother : ¬ (i = i' ∧ j = j') → t.Right a b i' j')
    (hnew : ∃ s, Longest s (a.take i) (b.take j) ∧ length.toNat = s.length) :
    (t.set i j hi hj length).Right a b i' j' := by
  intro hi' hj'
  rw [cell_set]
  split
  · rename_i heq
    obtain ⟨rfl, rfl⟩ := heq
    exact hnew
  · rename_i hne
    exact hother hne hi' hj'

section Fill

variable {a b : Bytes} {t : Table a.length b.length} {i j : Nat}

/-- A new cell is right when those around it are. -/
theorem right_next (hbound : a.length < 4294967295) (hi : i < a.length) (hj : j < b.length)
    (hcorner : t.Right a b i j) (habove : t.Right a b i (j + 1)) (hbeside : t.Right a b (i + 1) j) :
    ∃ s, Longest s (a.take (i + 1)) (b.take (j + 1)) ∧
      (if a[i] = b[j] then t.cell i j hi.le hj.le + 1
        else max (t.cell i (j + 1) hi.le hj) (t.cell (i + 1) j hi hj.le)).toNat = s.length := by
  rw [← List.take_append_getElem hi, ← List.take_append_getElem hj]
  split
  · rename_i heq
    obtain ⟨s, hs, hcell⟩ := hcorner hi.le hj.le
    refine ⟨s ++ [a[i]], by rw [← heq]; exact hs.concat a[i], ?_⟩
    have hlength := hs.left.length_le
    rw [List.length_take] at hlength
    rw [UInt32.toNat_add, hcell, UInt32.toNat_one, List.length_append, List.length_singleton]
    exact Nat.mod_eq_of_lt (by omega)
  · rename_i hne
    obtain ⟨s, hs, habove⟩ := habove hi.le hj
    obtain ⟨s', hs', hbeside⟩ := hbeside hi hj.le
    rw [← List.take_append_getElem hj] at hs
    rw [← List.take_append_getElem hi] at hs'
    rw [UInt32.toNat_max, habove, hbeside]
    rcases Nat.le_total s.length s'.length with hle | hle
    · exact ⟨s', hs.leave_right hne hs' hle, Nat.max_eq_right hle⟩
    · exact ⟨s, hs.leave_left hne hs' hle, Nat.max_eq_left hle⟩

/-- Filling goes on to the end of the row. Induction on the columns that are left. -/
theorem filled_fillRow (hbound : a.length < 4294967295) (hi : i < a.length) {ys : Bytes}
    (hys : b.drop j = ys) (hj : j + ys.length = b.length) (h : t.Filled a b (i + 1) j) :
    (fillRow i hi a[i] j ys hj t).Filled a b (i + 1) b.length := by
  induction ys generalizing j t with
  | nil => exact (show j = b.length from hj) ▸ h
  | cons y ys ih =>
      have hlt : j < b.length := by
        rw [List.length_cons] at hj
        omega
      obtain ⟨rfl, hrest⟩ := List.cons.inj ((List.drop_eq_getElem_cons hlt).symm.trans hys)
      have hnew := right_next hbound hi hlt (h _ _ (.inl (Nat.lt_succ_self i)))
        (h _ _ (.inl (Nat.lt_succ_self i))) (h _ _ (.inr (.inl ⟨rfl, Nat.le_refl j⟩)))
      refine ih hrest _ fun i' j' hfilled => right_set (fun hne => h i' j' ?_) hnew
      omega

/-- Filling goes on to the last row. Induction on the rows that are left. -/
theorem filled_fillRows (hbound : a.length < 4294967295) {xs : Bytes} (hxs : a.drop i = xs)
    (hi : i + xs.length = a.length) (h : t.Filled a b i b.length) :
    (fillRows i xs b hi rfl t).Filled a b a.length b.length := by
  induction xs generalizing i t with
  | nil => exact (show i = a.length from hi) ▸ h
  | cons x xs ih =>
      have hlt : i < a.length := by
        rw [List.length_cons] at hi
        omega
      obtain ⟨rfl, hrest⟩ := List.cons.inj ((List.drop_eq_getElem_cons hlt).symm.trans hxs)
      refine ih hrest _ (filled_fillRow hbound hlt rfl _ fun i' j' hfilled hi' hj' => ?_)
      exact h i' j' (by omega) hi' hj'

end Fill

/-- Every cell of the table is right, if the lengths of the inputs are 32-bit integers. -/
theorem right_of {a b : Bytes} (hbound : a.length < 4294967295) (i j : Nat) :
    (of a b).Right a b i j := by
  have hzero : (zero a.length b.length).Filled a b 0 b.length := by
    intro i' j' hfilled hi' hj'
    refine ⟨[], ?_, by rw [cell_zero]; rfl⟩
    rcases hfilled with hrow | ⟨rfl, -⟩ | rfl
    · exact absurd hrow (Nat.not_lt_zero i')
    · exact .nil _
    · exact (Longest.nil _).symm
  intro hi hj
  exact filled_fillRows hbound rfl _ hzero i j (by omega) hi hj

end Table

end RespStore.Lcs
