import Mathlib
import RespStore.Command.Execution

/-!
# Sequences with two ends

What lists do is best said one element at a time: a push puts one value at one end, a pop takes one
element off, and a range is the elements at the positions between two others. The operations on
lists do many of these at once, in an order of their own. This module shows that they come to the
same.

* `ListValue.offer_eq_pushEach`: the values are pushed one after the other.
* `ListValue.poll_eq_popEach`: the elements are popped one after the other. They are answered from
  head to tail, and `Execution.inOrderOf` puts them back into the order in which they were popped.
* `ListValue.index_eq_at?` and `ListValue.sublist_eq_between`: offsets are positions, counted from
  the tail when they are negative.

The last two hold of lists whose length is a 64-bit signed integer.
-/

namespace RespStore

namespace Deque

variable {α : Type}

/-- Puts one value at an end. -/
def pushAt (side : ListEnd) (items : List α) (value : α) : List α :=
  match side with
  | .head => value :: items
  | .tail => items ++ [value]

/-- Puts values at an end, one after the other. -/
def pushEach (side : ListEnd) (items values : List α) : List α := values.foldl (pushAt side) items

/-- Takes one element off an end, if there is one. Answers it, and what remains. -/
def pop? (side : ListEnd) (items : List α) : Option (α × List α) :=
  match side with
  | .head => items.head?.map fun value => (value, items.tail)
  | .tail => items.getLast?.map fun value => (value, items.dropLast)

/-- Takes elements off an end one after the other, so many or as many as there are. Answers them in
the order in which they were taken off, and what remains. -/
def popEach (side : ListEnd) : Nat → List α → List α × List α
  | 0, items => ([], items)
  | n + 1, items =>
    match pop? side items with
    | none => ([], items)
    | some (value, rest) => ((value :: (popEach side n rest).1), (popEach side n rest).2)

/-- The position that an offset means, counted from the head. A negative offset counts from the
tail. There need not be an element there. -/
def position (items : List α) (offset : Int) : Int :=
  if offset < 0 then items.length + offset else offset

/-- The element at an offset, if there is one. -/
def at? (items : List α) (offset : Int) : Option α :=
  if 0 ≤ position items offset then items[(position items offset).toNat]? else none

/-- The elements between two offsets, both included. -/
def between (items : List α) (first last : Int) : List α :=
  (items.zipIdx.filter fun p =>
    position items first ≤ p.2 ∧ p.2 ≤ position items last).map Prod.fst

/-! ### Positions -/

/-- An offset whose position is in the list names the element there. -/
theorem at?_of_position {items : List α} {offset : Int} {n : Nat}
    (h : position items offset = n) : at? items offset = items[n]? := by
  rw [at?, h, if_pos (Int.natCast_nonneg n), Int.toNat_natCast]

/-- An offset whose position is in front of the head names nothing. -/
theorem at?_of_position_neg {items : List α} {offset : Int} (h : position items offset < 0) :
    at? items offset = none := by
  rw [at?, if_neg (Int.not_le.mpr h)]

/-- At one position there is one element at most. -/
theorem filter_zipIdx (items : List α) (start n : Nat) :
    ((items.zipIdx start).filter fun p => p.2 = start + n).map Prod.fst = items[n]?.toList := by
  induction items generalizing start n with
  | nil => rfl
  | cons item items ih =>
      rw [List.zipIdx_cons]
      cases n with
      | zero =>
          have hrest : (items.zipIdx (start + 1)).filter (fun p => p.2 = start + 0) = [] := by
            rw [List.filter_eq_nil_iff]
            intro p hp
            have hle := (List.mem_zipIdx hp).1
            simp only [decide_eq_true_eq]
            omega
          rw [List.filter_cons_of_pos (by simp), hrest]
          rfl
      | succ n =>
          rw [List.filter_cons_of_neg (by simp), List.getElem?_cons_succ, ← ih (start + 1) n]
          simp only [Nat.add_assoc, Nat.add_comm 1 n]

/-- Between an offset and itself there is the element at it, if there is one. -/
theorem between_self (items : List α) (offset : Int) :
    between items offset offset = (at? items offset).toList := by
  rcases Int.lt_or_le (position items offset) 0 with hneg | hnonneg
  · rw [at?_of_position_neg hneg, between, List.filter_eq_nil_iff.mpr]
    · rfl
    · intro p _
      simp only [decide_eq_true_eq]
      omega
  · have hposition := (Int.toNat_of_nonneg hnonneg).symm
    rw [at?_of_position hposition, ← filter_zipIdx items 0, between]
    refine congrArg _ (List.filter_congr fun p _ => ?_)
    simp only [decide_eq_decide]
    omega

/-- When the last position is in front of the first one, there is nothing between them. -/
theorem between_eq_nil {items : List α} {first last : Int}
    (h : position items last < position items first) : between items first last = [] := by
  rw [between, List.filter_eq_nil_iff.mpr]
  · rfl
  · intro p _
    simp only [decide_eq_true_eq]
    omega

/-! ### Pushes and pops neither lose nor duplicate -/

/-- A push adds one value, at whichever end. -/
theorem perm_pushAt (side : ListEnd) (items : List α) (value : α) :
    (pushAt side items value).Perm (items ++ [value]) := by
  cases side with
  | head => exact (List.perm_append_singleton value items).symm
  | tail => exact List.Perm.refl _

/-- Pushes add the values, neither more nor less. -/
theorem perm_pushEach (side : ListEnd) (items values : List α) :
    (pushEach side items values).Perm (items ++ values) := by
  induction values generalizing items with
  | nil => rw [List.append_nil]; exact List.Perm.refl _
  | cons value values ih =>
      rw [pushEach, List.foldl_cons]
      refine (ih (pushAt side items value)).trans ?_
      rw [List.append_cons]
      exact (perm_pushAt side items value).append_right values

/-- Pushes make a list longer by as many elements as there are values. -/
theorem length_pushEach (side : ListEnd) (items values : List α) :
    (pushEach side items values).length = items.length + values.length :=
  (perm_pushEach side items values).length_eq.trans List.length_append

/-- A pop takes one element off, and leaves the others. -/
theorem perm_of_pop? {side : ListEnd} {items rest : List α} {value : α}
    (h : pop? side items = some (value, rest)) : (value :: rest).Perm items := by
  cases side with
  | head =>
      obtain ⟨_, hhead, hp⟩ := Option.map_eq_some_iff.mp h
      obtain ⟨rfl, rfl⟩ := Prod.mk.inj hp
      rw [List.cons_head?_tail hhead]
  | tail =>
      obtain ⟨_, hlast, hp⟩ := Option.map_eq_some_iff.mp h
      obtain ⟨rfl, rfl⟩ := Prod.mk.inj hp
      have hitems := List.dropLast_append_getLast? _ hlast
      exact (List.perm_append_singleton _ _).symm.trans (List.Perm.of_eq hitems)

/-- A list without elements has nothing to pop. -/
theorem popEach_nil (side : ListEnd) (n : Nat) :
    popEach side n ([] : List α) = ([], []) := by
  cases n with
  | zero => rfl
  | succ n =>
      cases side with
      | _ => rfl

/-- What is popped and what remains are the list. -/
theorem perm_popEach (side : ListEnd) (n : Nat) (items : List α) :
    ((popEach side n items).1 ++ (popEach side n items).2).Perm items := by
  induction n generalizing items with
  | zero => exact List.Perm.refl _
  | succ n ih =>
      rw [popEach]
      split
      · exact List.Perm.refl _
      · rename_i value rest hpop
        exact ((ih rest).cons value).trans (perm_of_pop? hpop)

/-! ### Many pops at once -/

/-- The head is to a list what the tail is to the reverse of it. -/
theorem popEach_tail (n : Nat) (items : List α) :
    popEach .tail n items =
      ((popEach .head n items.reverse).1, (popEach .head n items.reverse).2.reverse) := by
  induction n generalizing items with
  | zero => rw [popEach, popEach, List.reverse_reverse]
  | succ n ih =>
      rcases List.eq_nil_or_concat items with rfl | ⟨initial, last, rfl⟩
      · rfl
      · rw [List.concat_eq_append, popEach, popEach, pop?, pop?, List.reverse_concat,
          List.getLast?_concat, List.dropLast_concat]
        simp only [Option.map_some, List.head?_cons, List.tail_cons, ih initial]

/-- Pops at the head take the front of the list. -/
theorem popEach_head (n : Nat) (items : List α) :
    popEach .head n items = (items.take n, items.drop n) := by
  induction n generalizing items with
  | zero => rfl
  | succ n ih =>
      cases items with
      | nil => rfl
      | cons item items =>
          simp only [popEach, pop?, List.head?_cons, Option.map_some, List.tail_cons, ih,
            List.take_succ_cons, List.drop_succ_cons]

end Deque

namespace ListValue

open Deque

variable {α : Type}

/-- Adding values is pushing them one after the other. -/
theorem offer_eq_pushEach (side : ListEnd) (items values : List α) :
    offer items values side = pushEach side items values := by
  induction values generalizing items with
  | nil =>
      cases side with
      | head => rfl
      | tail => exact List.append_nil items
  | cons value values ih =>
      rw [pushEach, List.foldl_cons]
      refine Eq.trans ?_ (ih (pushAt side items value))
      cases side with
      | head =>
          simp only [offer, pushAt, List.reverse_cons, List.append_assoc, List.singleton_append]
      | tail => simp only [offer, pushAt, List.append_assoc, List.singleton_append]

/-- Taking elements off is popping them one after the other, but they are answered in the order of
the list. -/
theorem poll_eq_popEach (side : ListEnd) (n : Nat) (items : List Bytes) :
    (Execution.inOrderOf side (poll items side n).1, (poll items side n).2) =
      popEach side n items := by
  cases side with
  | head =>
      rw [popEach_head, poll]
      split
      · rename_i hlength
        rw [List.take_of_length_le hlength, List.drop_of_length_le hlength]
        rfl
      · rfl
  | tail =>
      rw [popEach_tail, popEach_head, List.take_reverse, List.drop_reverse, List.reverse_reverse,
        poll]
      split
      · rename_i hlength
        rw [Nat.sub_eq_zero_of_le hlength]
        rfl
      · rfl

/-! ### Offsets -/

/-- Positions grow along a list. -/
theorem pairwise_zipIdx (items : List α) : items.zipIdx.Pairwise fun p q => p.2 < q.2 := by
  have hrange : (items.zipIdx.map Prod.snd).Pairwise (· < ·) := by
    rw [List.zipIdx_map_snd]
    exact List.pairwise_lt_range'
  exact List.pairwise_map.mp hrange

/-- Where a property never comes back once it is lost, dropping those in front that have it leaves
all that lack it. -/
theorem dropWhile_eq_filter {p : α → Bool} {items : List α}
    (h : items.Pairwise fun x y => p x = false → p y = false) :
    items.dropWhile p = items.filter fun x => !p x := by
  induction items with
  | nil => rfl
  | cons item items ih =>
      obtain ⟨hitem, hitems⟩ := List.pairwise_cons.mp h
      cases hp : p item with
      | true =>
          rw [List.dropWhile_cons_of_pos hp, ih hitems, List.filter_cons_of_neg (by simp [hp])]
      | false =>
          rw [List.dropWhile_cons_of_neg (by simp [hp]), List.filter_eq_self.mpr]
          exact List.forall_mem_cons.mpr ⟨by simp [hp], fun x hx => by simp [hitem x hx hp]⟩

/-- Where a property never comes back once it is lost, those in front that have it are all that have
it. -/
theorem takeWhile_eq_filter {p : α → Bool} {items : List α}
    (h : items.Pairwise fun x y => p x = false → p y = false) :
    items.takeWhile p = items.filter p := by
  induction items with
  | nil => rfl
  | cons item items ih =>
      obtain ⟨hitem, hitems⟩ := List.pairwise_cons.mp h
      cases hp : p item with
      | true => rw [List.takeWhile_cons_of_pos hp, ih hitems, List.filter_cons_of_pos hp]
      | false =>
          rw [List.takeWhile_cons_of_neg (by simp [hp]), List.filter_cons_of_neg (by simp [hp]),
            eq_comm, List.filter_eq_nil_iff]
          exact fun x hx => by simp [hitem x hx hp]

section Offsets

variable {items : List α} (hlength : items.length < 2 ^ 63)

include hlength

/-- The length of a list whose length is a 64-bit signed integer does not wrap around. -/
theorem toInt_length : (Int64.ofNat items.length).toInt = items.length :=
  Int64.toInt_ofNat_of_lt hlength

/-- Counting an offset from the head gives its position, without wrapping around. -/
theorem toInt_fromHead (offset : Int64) :
    (fromHead (.ofNat items.length) offset).toInt = position items offset.toInt := by
  rw [fromHead, position]
  split
  · rename_i hnegative
    have hnegative : offset.toInt < 0 := Int64.lt_iff_toInt_lt.mp hnegative
    have hle := Int64.le_toInt offset
    rw [if_pos hnegative, Int64.toInt_add, toInt_length hlength, Int.bmod_def]
    omega
  · rename_i hpositive
    have hpositive : ¬ offset.toInt < 0 := fun h => hpositive (Int64.lt_iff_toInt_lt.mpr h)
    rw [if_neg hpositive]

/-- The element at an offset. The two ends are looked at first, and then offsets from the head and
offsets from the tail are told apart. -/
theorem index_eq_at? (offset : Int64) : index items offset = at? items offset.toInt := by
  have hlast : (Int64.ofNat items.length - 1).toInt = items.length - 1 := by
    rw [Int64.toInt_sub, toInt_length hlength, Int64.toInt_one, Int.bmod_def]
    omega
  rw [index]
  split
  · rename_i hzero
    subst hzero
    rw [at?_of_position (n := 0) rfl, List.head?_eq_getElem?]
  split
  · rename_i hnonzero hoffset
    rw [hoffset, hlast, List.getLast?_eq_getElem?]
    by_cases hempty : items.length = 0
    · have hposition : position items (items.length - 1) < 0 := by
        rw [position]
        omega
      rw [at?_of_position_neg hposition, List.getElem?_eq_none]
      omega
    · refine (at?_of_position ?_).symm
      rw [position]
      omega
  split
  · rename_i hpositive
    have hpositive : 0 < offset.toInt := Int64.lt_iff_toInt_lt.mp hpositive
    have hposition : position items offset.toInt = offset.toInt.toNat := by
      rw [position]
      omega
    rw [at?_of_position hposition]
    split
    · rename_i hout
      have hout := toInt_length hlength ▸ Int64.le_iff_toInt_le.mp hout
      rw [List.getElem?_eq_none]
      omega
    · rfl
  · rename_i hnonzero _ hnegative
    have hnegative : offset.toInt < 0 := by
      have hne : offset.toInt ≠ 0 := fun heq => hnonzero (Int64.toInt_inj.mp heq)
      have hle : ¬ 0 < offset.toInt := fun h => hnegative (Int64.lt_iff_toInt_lt.mpr h)
      omega
    dsimp only
    split
    · rename_i hout
      refine (at?_of_position_neg ?_).symm
      rw [position]
      omega
    · rename_i hin
      have hposition :
          position items offset.toInt = (items.length - offset.toInt.natAbs : Nat) := by
        rw [position]
        omega
      rw [at?_of_position hposition, List.getElem?_reverse (by omega)]
      congr 1
      omega

/-- Dropping the elements in front of a position and taking those up to another one finds the
elements between them. -/
theorem scan_eq_between (first last : Int64) :
    ((items.zipIdx.dropWhile fun p =>
        Int64.ofNat p.2 < fromHead (.ofNat items.length) first).takeWhile fun p =>
          Int64.ofNat p.2 ≤ fromHead (.ofNat items.length) last).map Prod.fst =
      between items first.toInt last.toInt := by
  have hoffset {p : α × Nat} (hp : p ∈ items.zipIdx) : (Int64.ofNat p.2).toInt = p.2 := by
    have hlt := (List.mem_zipIdx hp).2.1
    exact Int64.toInt_ofNat_of_lt (by omega)
  have hlt {p : α × Nat} (hp : p ∈ items.zipIdx) :
      (Int64.ofNat p.2 < fromHead (.ofNat items.length) first) ↔
        (p.2 : Int) < position items first.toInt := by
    rw [Int64.lt_iff_toInt_lt, hoffset hp, toInt_fromHead hlength]
  have hle {p : α × Nat} (hp : p ∈ items.zipIdx) :
      (Int64.ofNat p.2 ≤ fromHead (.ofNat items.length) last) ↔
        (p.2 : Int) ≤ position items last.toInt := by
    rw [Int64.le_iff_toInt_le, hoffset hp, toInt_fromHead hlength]
  have hdrop : items.zipIdx.Pairwise fun p q =>
      decide (Int64.ofNat p.2 < fromHead (.ofNat items.length) first) = false →
        decide (Int64.ofNat q.2 < fromHead (.ofNat items.length) first) = false := by
    refine (pairwise_zipIdx items).imp_of_mem fun hp hq hpq => ?_
    rw [decide_eq_false_iff_not, decide_eq_false_iff_not, hlt hp, hlt hq]
    omega
  have htake : items.zipIdx.Pairwise fun p q =>
      decide (Int64.ofNat p.2 ≤ fromHead (.ofNat items.length) last) = false →
        decide (Int64.ofNat q.2 ≤ fromHead (.ofNat items.length) last) = false := by
    refine (pairwise_zipIdx items).imp_of_mem fun hp hq hpq => ?_
    rw [decide_eq_false_iff_not, decide_eq_false_iff_not, hle hp, hle hq]
    omega
  rw [dropWhile_eq_filter hdrop, takeWhile_eq_filter (htake.sublist List.filter_sublist),
    List.filter_filter, between]
  refine congrArg _ (List.filter_congr fun p hp => ?_)
  rw [Bool.eq_iff_iff]
  simp only [Bool.and_eq_true, Bool.not_eq_true', decide_eq_true_eq, decide_eq_false_iff_not,
    hlt hp, hle hp, Int.not_lt]
  exact and_comm

/-- The elements between two offsets. Two offsets of one sign in the wrong order have nothing
between them, and two that are equal have one element at most. -/
theorem sublist_eq_between (first last : Int64) :
    sublist items first last = between items first.toInt last.toInt := by
  rw [sublist]
  split
  · rename_i hwrong
    obtain ⟨hsigns, hless⟩ := hwrong
    simp only [Int64.le_iff_toInt_le, Int64.lt_iff_toInt_lt, Int64.toInt_zero] at hsigns hless
    refine (between_eq_nil ?_).symm
    rw [position, position]
    omega
  split
  · rename_i heq
    rw [← heq, index_eq_at? hlength, between_self]
  · exact scan_eq_between hlength first last

end Offsets

end ListValue

end RespStore
