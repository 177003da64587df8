import RespStore.Proofs.Deque

/-!
# Offsets and ranges

Offsets are normalised by one rule: a negative one counts from the tail. Looking up an element and
taking a range have shortcuts around that rule, for the two ends, for equal offsets and for offsets
in the wrong order, and all of them work on 64-bit signed integers. This module says that neither
the shortcuts nor the integers can be noticed.

* `ListValue.scan` is a range that is taken without a shortcut, `ListValue.sublist_eq_scan` says
  that every range is one.
* `ListValue.Exact` says that no sum wraps around and that no position lies outside of the list.
* `ListValue.offsets_exact` is the main result.

All of this is about lists whose length is a 64-bit signed integer.
-/

namespace RespStore.ListValue

open Deque

variable {α : Type}

/-- The elements between two offsets, found by going through the whole list. -/
def scan (items : List α) (first last : Int64) : List α :=
  let length : Int64 := .ofNat items.length
  ((items.zipIdx.dropWhile fun p =>
    Int64.ofNat p.2 < fromHead length first).takeWhile fun p =>
      Int64.ofNat p.2 ≤ fromHead length last).map Prod.fst

/-- Whether everything that is computed on the way from an offset to an element is exact. -/
structure Exact (items : List α) (offset : Int64) : Prop where
  /-- The length and every position are 64-bit signed integers. -/
  position_eq : ∀ n ≤ items.length, (Int64.ofNat n).toInt = n
  /-- The position of the last element, or minus one. -/
  last_eq : (Int64.ofNat items.length - 1).toInt = items.length - 1
  /-- The sum of the length and an offset that counts from the tail. -/
  sum_eq : offset < 0 → (Int64.ofNat items.length + offset).toInt = items.length + offset.toInt
  /-- An offset that counts from the head, as an index. -/
  ahead_eq : 0 < offset → (offset.toNatClampNeg : Int) = offset.toInt
  /-- The distance from the tail of an offset that counts from there, which one is taken off. -/
  fromTail_pos : offset < 0 → 0 < offset.toInt.natAbs

section Offsets

variable {items : List α} (hlength : items.length < 2 ^ 63)

include hlength

/-- On the way from an offset to an element, every number is exact. -/
theorem exact (offset : Int64) : Exact items offset where
  position_eq n hn := Int64.toInt_ofNat_of_lt (by omega)
  last_eq := by
    rw [Int64.toInt_sub, toInt_length hlength, Int64.toInt_one, Int.bmod_def]
    omega
  sum_eq hnegative := by
    have hsum := toInt_fromHead hlength offset
    have hbelow : offset.toInt < 0 := Int64.lt_iff_toInt_lt.mp hnegative
    rwa [fromHead, if_pos hnegative, position, if_pos hbelow] at hsum
  ahead_eq hpositive := by
    have hpositive : 0 < offset.toInt := Int64.lt_iff_toInt_lt.mp hpositive
    exact Int.toNat_of_nonneg hpositive.le
  fromTail_pos hnegative := by
    have hnegative : offset.toInt < 0 := Int64.lt_iff_toInt_lt.mp hnegative
    omega

/-- A range can be taken without a shortcut. -/
theorem sublist_eq_scan (first last : Int64) :
    sublist items first last = scan items first last :=
  (sublist_eq_between hlength first last).trans (scan_eq_between hlength first last).symm

end Offsets

/-- The bounds of a range can be moved into the list. -/
theorem between_eq_clamped (items : List α) (first last : Int) :
    between items first last =
      (items.zipIdx.filter fun p => max 0 (position items first) ≤ p.2 ∧
        p.2 ≤ min ((items.length : Int) - 1) (position items last)).map Prod.fst := by
  refine congrArg _ (List.filter_congr fun p hp => ?_)
  have hlt := (List.mem_zipIdx hp).2.1
  rw [decide_eq_decide]
  omega

/-- An element is found at its position, and nothing outside of the list. -/
theorem at?_eq_clamped (items : List α) (offset : Int) :
    at? items offset =
      if 0 ≤ position items offset ∧ position items offset ≤ items.length - 1 then
        items[(position items offset).toNat]?
      else none := by
  rw [at?]
  by_cases hnonneg : 0 ≤ position items offset
  · rw [if_pos hnonneg]
    split
    · rfl
    · exact List.getElem?_eq_none (by omega)
  · rw [if_neg hnonneg, if_neg fun hin => hnonneg hin.1]

/-- **Offsets and ranges are exact.** Of every list whose length is a 64-bit signed integer, and of
all offsets:

* A range is the elements at the positions between its bounds, in order, with the bounds normalised
  and moved into the list. It is what going through the whole list finds.
* Bounds of one sign in the wrong order have nothing between them, and equal bounds have the element
  at them, if there is one.
* An element is the one at the normalised position, and there is none outside of the list. The two
  ends are found where they are looked for.
* No sum wraps around, no position is cut, and nothing is taken off zero. -/
theorem offsets_exact {items : List α} (hlength : items.length < 2 ^ 63)
    (first last offset : Int64) :
    (sublist items first last =
      (items.zipIdx.filter fun p => max 0 (position items first.toInt) ≤ p.2 ∧
        p.2 ≤ min ((items.length : Int) - 1) (position items last.toInt)).map Prod.fst ∧
      sublist items first last = scan items first last ∧
      ((0 ≤ first ∧ 0 ≤ last ∨ first < 0 ∧ last < 0) → last < first →
        scan items first last = []) ∧
      (first = last → scan items first last = (index items first).toList)) ∧
    (index items offset =
      (if 0 ≤ position items offset.toInt ∧
          position items offset.toInt ≤ (items.length : Int) - 1 then
        items[(position items offset.toInt).toNat]?
      else none) ∧
      (offset = 0 → index items offset = items.head?) ∧
      (offset.toInt = (items.length : Int) - 1 → index items offset = items.getLast?)) ∧
    Exact items first ∧ Exact items last ∧ Exact items offset := by
  have hscan := sublist_eq_scan hlength first last
  refine ⟨⟨?_, hscan, fun hsigns hwrong => ?_, fun heq => ?_⟩,
    ⟨?_, fun hzero => ?_, fun hlast => ?_⟩,
    exact hlength first, exact hlength last, exact hlength offset⟩
  · rw [sublist_eq_between hlength, between_eq_clamped]
  · rw [← hscan, sublist, if_pos ⟨hsigns, hwrong⟩]
  · subst heq
    rw [← hscan, sublist_eq_between hlength, between_self, index_eq_at? hlength]
  · rw [index_eq_at? hlength, at?_eq_clamped]
  · rw [index, if_pos hzero]
  · have htail : offset = Int64.ofNat items.length - 1 :=
      Int64.toInt_inj.mp (hlast.trans (exact hlength offset).last_eq.symm)
    rw [index]
    split
    · -- The only element of the list is both of its ends.
      rename_i hzero
      have hone : items.length = 1 := by
        rw [hzero, Int64.toInt_zero] at hlast
        omega
      obtain ⟨item, rfl⟩ := List.length_eq_one_iff.mp hone
      rfl
    · rfl

/-- From the least to the greatest integer there is the whole list, and one in front of the head
there is nothing. -/
theorem offsets_exact_extreme :
    ([1, 2, 3] : List Nat).length < 2 ^ 63 ∧
      sublist [1, 2, 3] Int64.minValue Int64.maxValue = [1, 2, 3] ∧
      sublist [1, 2, 3] 2 (-3) = ([] : List Nat) ∧ index [1, 2, 3] (-4) = (none : Option Nat) := by
  have hlength : ([1, 2, 3] : List Nat).length < 2 ^ 63 := by decide
  obtain ⟨⟨hwhole, -⟩, ⟨hindex, -⟩, -⟩ :=
    offsets_exact hlength Int64.minValue Int64.maxValue (-4)
  obtain ⟨⟨hempty, -⟩, -⟩ := offsets_exact hlength 2 (-3) 0
  exact ⟨hlength, hwhole.trans (by decide), hempty.trans (by decide), hindex.trans (by decide)⟩

end RespStore.ListValue
