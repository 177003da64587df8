import RespStore.Proofs.Lcs.Size
import RespStore.Proofs.Lcs.Table

/-!
# The walk back

The walk goes back from the last cell of the table to an edge. It picks equal bytes, and else leaves
out a byte whose absence costs nothing, which the table tells.

* `walk_longest`: what the walk picks is a longest common subsequence of the beginnings that it
  starts from.
* `solve_longest` is the main result, about all inputs whose table fits.
-/

namespace RespStore.Lcs

/-- The cell that is right for two beginnings tells the length of each longest common
subsequence. -/
theorem Table.Right.cell_eq {n m : Nat} {t : Table n m} {a b s : Bytes} {i j : Nat}
    (h : t.Right a b i j) (hi : i ≤ n) (hj : j ≤ m) (hs : Longest s (a.take i) (b.take j)) :
    (t.cell i j hi hj).toNat = s.length := by
  obtain ⟨s', hs', hcell⟩ := h hi hj
  exact hcell.trans (hs'.length_eq hs)

/-- One more byte of an input. -/
theorem take_toList_succ {a : Array UInt8} {i : Nat} (hi : i < a.size) :
    a.toList.take (i + 1) = a.toList.take i ++ [a[i]] := by
  rw [← Array.getElem_toList]
  exact (List.take_append_getElem hi).symm

/-- What the walk puts in front of the bytes picked so far is a longest common subsequence of the
beginnings that are left. Induction on the walk, with one rule of `Longest` for each way that it can
go. -/
theorem walk_longest {a b : Array UInt8} {t : Table a.size b.size}
    (hright : ∀ i j, t.Right a.toList b.toList i j) (i j : Nat) (hi : i ≤ a.size)
    (hj : j ≤ b.size) (trail : Trail) :
    ∃ s, (walk a b t i j hi hj trail).sequence = s ++ trail.sequence ∧
      Longest s (a.toList.take i) (b.toList.take j) := by
  fun_induction walk a b t i j hi hj trail with
  | case1 => exact ⟨[], rfl, .nil _⟩
  | case2 => exact ⟨[], rfl, (Longest.nil _).symm⟩
  | case3 trail i j hi hj heq _ _ ih =>
      obtain ⟨s, hsequence, hs⟩ := ih
      refine ⟨s ++ [a[i]], ?_, ?_⟩
      · rw [hsequence, Trail.sequence_pick, List.append_assoc, List.singleton_append]
      · rw [take_toList_succ hi, take_toList_succ hj, ← heq]
        exact hs.concat a[i]
  | case4 trail i j hi hj hne hcell _ _ ih =>
      obtain ⟨s, hsequence, hs⟩ := ih
      obtain ⟨s', hs', hbeside⟩ := hright (i + 1) j hi (Nat.le_of_lt hj)
      have habove := (hright i (j + 1)).cell_eq (Nat.le_of_lt hi) hj hs
      have hlt := UInt32.lt_iff_toNat_lt.mp hcell
      rw [take_toList_succ hj] at hs
      rw [take_toList_succ hi] at hs'
      refine ⟨s, hsequence, ?_⟩
      rw [take_toList_succ hi, take_toList_succ hj]
      exact hs.leave_left hne hs' (by omega)
  | case5 trail i j hi hj hne hcell _ _ ih =>
      obtain ⟨s, hsequence, hs⟩ := ih
      obtain ⟨s', hs', habove⟩ := hright i (j + 1) (Nat.le_of_lt hi) hj
      have hbeside := (hright (i + 1) j).cell_eq hi (Nat.le_of_lt hj) hs
      have hle := UInt32.le_iff_toNat_le.mp (UInt32.not_lt.mp hcell)
      rw [take_toList_succ hi] at hs
      rw [take_toList_succ hj] at hs'
      refine ⟨s, hsequence, ?_⟩
      rw [take_toList_succ hi, take_toList_succ hj]
      exact hs'.leave_right hne hs (by omega)

/-- What is computed for inputs whose table fits. -/
theorem solve_of_fits {a b : Bytes} {limit : Nat} (h : fits limit a b) :
    solve a b limit =
      .ok ⟨(walk a.toArray b.toArray (Table.of a b) a.length b.length (Nat.le_refl _)
          (Nat.le_refl _) .empty).sequence,
        (walk a.toArray b.toArray (Table.of a b) a.length b.length (Nat.le_refl _)
          (Nat.le_refl _) .empty).closed.reverse⟩ :=
  if_pos h

/-- **What is found is a longest common subsequence.** Whatever the inputs are, if their table fits,
then a sequence is found that is a subsequence of both, and no common subsequence is longer. -/
theorem solve_longest {a b : Bytes} {limit : Nat} (h : fits limit a b) :
    ∃ alignment, solve a b limit = .ok alignment ∧ Longest alignment.sequence a b := by
  refine ⟨_, solve_of_fits h, ?_⟩
  obtain ⟨s, hsequence, hs⟩ := walk_longest (a := a.toArray) (b := b.toArray)
    (Table.right_of (length_lt_of_fits h).1) a.length b.length (Nat.le_refl _) (Nat.le_refl _)
    .empty
  have hs' : Longest s a b := by
    simpa using hs
  rwa [hsequence, show Trail.empty.sequence = [] from rfl, List.append_nil]

/-- The hypothesis can be met by two texts that differ in front, at the end and in between. -/
theorem solve_longest_gtab :
    fits 512 (Bytes.ofString "aggtab") (Bytes.ofString "gxtxayb") ∧
      ∃ alignment, solve (Bytes.ofString "aggtab") (Bytes.ofString "gxtxayb") 512 = .ok alignment ∧
        alignment.sequence = Bytes.ofString "gtab" ∧
        Longest alignment.sequence (Bytes.ofString "aggtab") (Bytes.ofString "gxtxayb") := by
  have hfits : fits 512 (Bytes.ofString "aggtab") (Bytes.ofString "gxtxayb") := by decide
  have hsolve : (solve (Bytes.ofString "aggtab") (Bytes.ofString "gxtxayb") 512).map
      Alignment.sequence = .ok (Bytes.ofString "gtab") := by
    decide +kernel
  obtain ⟨alignment, halignment, hlongest⟩ := solve_longest hfits
  rw [halignment] at hsolve
  exact ⟨hfits, alignment, halignment, Except.ok.inj hsolve, hlongest⟩

end RespStore.Lcs
