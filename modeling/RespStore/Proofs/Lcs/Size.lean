import Mathlib
import RespStore.Lcs

/-!
# The size of an alignment

Every step of the walk back picks at most one byte and begins at most one run, and goes at
least one byte towards the start of an input. So a longest common subsequence is no longer
than its first input, and it has no more runs than both inputs have bytes.
-/

namespace RespStore.Lcs

namespace Trail

/-- The number of runs, the growing one included. -/
def runCount (t : Trail) : Nat := t.current.toList.length + t.closed.length

/-- Closing the growing run makes no new one. -/
theorem runCount_close (t : Trail) : t.close.runCount = t.runCount := by
  simp [runCount, close]

/-- Closing a run at the start of an input makes no new one. -/
theorem runCount_closeAtStart (t : Trail) : t.closeAtStart.runCount = t.runCount := by
  rw [closeAtStart]
  split
  · split
    · exact runCount_close t
    · rfl
  · rfl

/-- Closing a run at the start of an input picks no byte. -/
theorem sequence_closeAtStart (t : Trail) : t.closeAtStart.sequence = t.sequence := by
  rw [closeAtStart]
  split
  · split
    · rfl
    · rfl
  · rfl

/-- Picking a byte begins one run at most. -/
theorem runCount_pick_le (t : Trail) (x : UInt8) (i j : Nat) :
    (t.pick x i j).runCount ≤ t.runCount + 1 := by
  rw [pick]
  cases h : t.current with
  | none =>
      simp only
      rw [runCount_closeAtStart]
      simp only [runCount, h, Option.toList_some, Option.toList_none, List.length_cons,
        List.length_nil]
      omega
  | some run =>
      simp only
      split
      · rw [runCount_closeAtStart]
        simp only [runCount, h, Option.toList_some, List.length_singleton]
        exact Nat.le_succ _
      · rw [runCount_close]
        simp only [runCount, h]
        exact Nat.le_succ _

/-- A byte that is picked goes in front. -/
theorem sequence_pick (t : Trail) (x : UInt8) (i j : Nat) :
    (t.pick x i j).sequence = x :: t.sequence := by
  rw [pick]
  cases t.current with
  | none => exact sequence_closeAtStart _
  | some run =>
      dsimp only
      split
      · exact sequence_closeAtStart _
      · rfl

end Trail

/-- From where it stands, the walk picks at most the bytes in front in the first input, and begins
at most as many runs as there are bytes in front in both. Induction on the walk. -/
theorem walk_le (a b : Array UInt8) (t : Table a.size b.size) (i j : Nat) (hi : i ≤ a.size)
    (hj : j ≤ b.size) (trail : Trail) :
    (walk a b t i j hi hj trail).sequence.length ≤ trail.sequence.length + i ∧
      (walk a b t i j hi hj trail).runCount ≤ trail.runCount + (i + j) := by
  fun_induction walk a b t i j hi hj trail with
  | case1 => exact ⟨Nat.le_add_right _ _, Nat.le_add_right _ _⟩
  | case2 => exact ⟨Nat.le_add_right _ _, Nat.le_add_right _ _⟩
  | case3 trail i j hi hj heq _ _ ih =>
      have hruns := trail.runCount_pick_le a[i] i j
      rw [Trail.sequence_pick, List.length_cons] at ih
      exact ⟨by omega, by omega⟩
  | case4 trail i j hi hj hne hcell _ _ ih =>
      rw [Trail.runCount_close] at ih
      have hsequence : trail.close.sequence = trail.sequence := rfl
      rw [hsequence] at ih
      exact ⟨by omega, by omega⟩
  | case5 trail i j hi hj hne hcell _ _ ih =>
      rw [Trail.runCount_close] at ih
      have hsequence : trail.close.sequence = trail.sequence := rfl
      rw [hsequence] at ih
      exact ⟨by omega, by omega⟩

/-- The size of an alignment, in terms of the inputs. -/
theorem length_solve_le {a b : Bytes} {limit : Nat} {alignment : Alignment}
    (h : solve a b limit = .ok alignment) :
    alignment.sequence.length ≤ a.length ∧ alignment.runs.length ≤ a.length + b.length := by
  rw [solve] at h
  split at h
  · obtain rfl := Except.ok.inj h
    obtain ⟨hsequence, hruns⟩ := walk_le a.toArray b.toArray (Table.of a b) a.length b.length
      (Nat.le_refl _) (Nat.le_refl _) .empty
    refine ⟨?_, ?_⟩
    · have hempty : Trail.empty.sequence.length = 0 := rfl
      rwa [hempty, Nat.zero_add] at hsequence
    · have hempty : Trail.empty.runCount = 0 := rfl
      rw [hempty, Nat.zero_add, Trail.runCount] at hruns
      rw [List.length_reverse]
      exact Nat.le_trans (Nat.le_add_left _ _) hruns
  · exact nomatch h

/-- Where an alignment is found, the table has fit. -/
theorem fits_of_solve {a b : Bytes} {limit : Nat} {alignment : Alignment}
    (h : solve a b limit = .ok alignment) : fits limit a b := by
  rw [solve] at h
  split at h
  · assumption
  · exact nomatch h

/-- Inputs whose table fits can be counted in 32 bits. -/
theorem length_lt_of_fits {a b : Bytes} {limit : Nat} (h : fits limit a b) :
    a.length < 4294967295 ∧ b.length < 4294967295 := by
  obtain ⟨hcells, -⟩ := h
  have ha : a.length + 1 ≤ cellCount a b := Nat.le_mul_of_pos_right _ (Nat.succ_pos _)
  have hb : b.length + 1 ≤ cellCount a b := Nat.le_mul_of_pos_left _ (Nat.succ_pos _)
  exact ⟨by omega, by omega⟩

/-- What is announced about an alignment can be counted. -/
theorem length_solve_lt {a b : Bytes} {limit : Nat} {alignment : Alignment}
    (h : solve a b limit = .ok alignment) :
    alignment.sequence.length < 2 ^ 63 ∧ alignment.runs.length < 2 ^ 63 := by
  obtain ⟨ha, hb⟩ := length_lt_of_fits (fits_of_solve h)
  obtain ⟨hsequence, hruns⟩ := length_solve_le h
  exact ⟨by omega, by omega⟩

end RespStore.Lcs
