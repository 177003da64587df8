import RespStore.Proofs.Lcs.Walk

/-!
# The runs of an alignment

While the walk goes back it collects runs of bytes that stand in both inputs. A run is opened by a
byte that is picked, grows with every byte that stands right in front of it, and is closed where the
walk leaves out a byte or comes to the start of an input.

* `Decomposes` says what runs have to do with the sequence that they are made of.
* `Trail.Sound` is the invariant of the walk: the runs collected so far decompose the bytes picked
  so far, the growing run begins where the walk stands, and the walk is nowhere at the start of an
  input while a run grows. So a byte that is picked is never without a run.
* `exists_decomposition` says it of what is found for inputs whose table fits.
-/

namespace RespStore

/-- The bytes of a span. -/
def Span.slice (s : Span) (bytes : Bytes) : Bytes := (bytes.drop s.first).take s.length

namespace Lcs

/-! ### Runs -/

namespace Run

/-- Whether a run stands in both inputs. -/
structure Matches (run : Run) (a b : Bytes) : Prop where
  /-- It is not empty in the first input. -/
  a_le : run.a.first ≤ run.a.last
  /-- It lies inside of the first input. -/
  a_lt : run.a.last < a.length
  /-- It is not empty in the second input. -/
  b_le : run.b.first ≤ run.b.last
  /-- It lies inside of the second input. -/
  b_lt : run.b.last < b.length
  /-- It has the same length in both. -/
  length_eq : run.b.length = run.a.length
  /-- It has the same bytes in both. -/
  getElem?_eq : ∀ k < run.length, a[run.a.first + k]? = b[run.b.first + k]?

/-- Whether a run ends in front of another one, in both inputs. -/
def Before (run other : Run) : Prop :=
  run.a.last < other.a.first ∧ run.b.last < other.b.first

/-- Whether a run ends right in front of another one, in both inputs. -/
def Adjoins (run other : Run) : Prop :=
  run.a.last + 1 = other.a.first ∧ run.b.last + 1 = other.b.first

/-- A run that stands in an input has all its bytes there. -/
theorem Matches.length_slice {run : Run} {a b : Bytes} (h : run.Matches a b) :
    (run.a.slice a).length = run.length := by
  have hle := h.a_le
  have hlt := h.a_lt
  rw [Span.slice, List.length_take, List.length_drop, Run.length, Span.length]
  omega

end Run

/-- Whether runs, from the start of the inputs towards their end, are what a common subsequence is
made of. -/
structure Decomposes (runs : List Run) (a b sequence : Bytes) : Prop where
  /-- Every run stands in both inputs. -/
  matched : ∀ run ∈ runs, run.Matches a b
  /-- The runs are in order, and none overlaps another one. -/
  ordered : runs.Pairwise Run.Before
  /-- No run could have been part of the next one. -/
  apart : runs.IsChain fun run next => ¬ run.Adjoins next
  /-- The bytes of the runs are the sequence. -/
  flatMap_eq : (runs.flatMap fun run => run.a.slice a) = sequence

namespace Decomposes

variable {run : Run} {runs : List Run} {a b s : Bytes}

theorem nil (a b : Bytes) : Decomposes [] a b [] :=
  ⟨List.forall_mem_nil _, List.Pairwise.nil, List.isChain_nil, rfl⟩

/-- A run goes in front of the others. -/
theorem cons_iff : Decomposes (run :: runs) a b s ↔ run.Matches a b ∧
    (∀ other ∈ runs, run.Before other) ∧ (∀ next ∈ runs.head?, ¬ run.Adjoins next) ∧
      ∃ rest, Decomposes runs a b rest ∧ s = run.a.slice a ++ rest := by
  constructor
  · rintro ⟨hmatched, hordered, hapart, rfl⟩
    obtain ⟨hrun, hruns⟩ := List.forall_mem_cons.mp hmatched
    obtain ⟨hbefore, hordered⟩ := List.pairwise_cons.mp hordered
    obtain ⟨hnext, hapart⟩ := List.isChain_cons.mp hapart
    exact ⟨hrun, hbefore, hnext, _, ⟨hruns, hordered, hapart, rfl⟩, List.flatMap_cons⟩
  · rintro ⟨hrun, hbefore, hnext, rest, ⟨hruns, hordered, hapart, rfl⟩, rfl⟩
    exact ⟨List.forall_mem_cons.mpr ⟨hrun, hruns⟩, List.pairwise_cons.mpr ⟨hbefore, hordered⟩,
      List.isChain_cons.mpr ⟨hnext, hapart⟩, List.flatMap_cons⟩

/-- The lengths of the runs add up to that of the sequence. -/
theorem sum_length (h : Decomposes runs a b s) : (runs.map Run.length).sum = s.length := by
  rw [← h.flatMap_eq, List.length_flatMap]
  refine congrArg _ (List.map_congr_left fun run hrun => ?_)
  exact (h.matched run hrun).length_slice.symm

end Decomposes

/-! ### A byte that is picked -/

section Pick

variable {a b : Bytes} {i j : Nat} {x : UInt8} (ha : a[i]? = some x) (hb : b[j]? = some x)

include ha hb

/-- A byte that stands in both inputs is a run. -/
theorem matches_single : Run.Matches ⟨⟨i, i⟩, ⟨j, j⟩⟩ a b where
  a_le := Nat.le_refl i
  a_lt := (List.getElem?_eq_some_iff.mp ha).1
  b_le := Nat.le_refl j
  b_lt := (List.getElem?_eq_some_iff.mp hb).1
  length_eq := by rw [Span.length, Span.length, Nat.sub_self, Nat.sub_self]
  getElem?_eq k hk := by
    rw [Run.length, Span.length, Nat.sub_self] at hk
    obtain rfl : k = 0 := by omega
    exact ha.trans hb.symm

/-- A run grows by a byte that stands right in front of it in both inputs. -/
theorem matches_grown {last last' : Nat}
    (h : Run.Matches ⟨⟨i + 1, last⟩, ⟨j + 1, last'⟩⟩ a b) :
    Run.Matches ⟨⟨i, last⟩, ⟨j, last'⟩⟩ a b := by
  have hale : i + 1 ≤ last := h.a_le
  have hble : j + 1 ≤ last' := h.b_le
  have hlength : last' - (j + 1) + 1 = last - (i + 1) + 1 := h.length_eq
  refine ⟨Nat.le_of_succ_le hale, h.a_lt, Nat.le_of_succ_le hble, h.b_lt, ?_, fun k hk => ?_⟩
  · change last' - j + 1 = last - i + 1
    omega
  · change k < last - i + 1 at hk
    cases k with
    | zero => exact ha.trans hb.symm
    | succ k =>
        have hin : k < last - (i + 1) + 1 := by omega
        have hbytes : a[i + 1 + k]? = b[j + 1 + k]? := h.getElem?_eq k hin
        rwa [Nat.add_right_comm i, Nat.add_right_comm j] at hbytes

end Pick

/-- A span of one byte holds that byte. -/
theorem slice_single {a : Bytes} {i : Nat} {x : UInt8} (ha : a[i]? = some x) :
    Span.slice ⟨i, i⟩ a = [x] := by
  obtain ⟨hi, rfl⟩ := List.getElem?_eq_some_iff.mp ha
  rw [Span.slice, List.drop_eq_getElem_cons hi, Span.length, Nat.sub_self]
  rfl

/-- A span that reaches one byte further to the front holds one more byte in front. -/
theorem slice_grown {a : Bytes} {i last : Nat} {x : UInt8} (ha : a[i]? = some x)
    (hle : i + 1 ≤ last) : Span.slice ⟨i, last⟩ a = x :: Span.slice ⟨i + 1, last⟩ a := by
  obtain ⟨hi, rfl⟩ := List.getElem?_eq_some_iff.mp ha
  have hlength : last - i + 1 = (last - (i + 1) + 1) + 1 := by omega
  simp only [Span.slice, Span.length]
  rw [List.drop_eq_getElem_cons hi, hlength, List.take_succ_cons]

/-! ### The invariant of the walk -/

/-- All runs, the growing one included, from the start of the inputs towards their end. -/
def Trail.runs (t : Trail) : List Run := t.current.toList ++ t.closed

/-- What the walk has collected when the first `i` and the first `j` bytes are left. -/
structure Trail.Sound (a b : Bytes) (i j : Nat) (t : Trail) : Prop where
  /-- The runs are what the bytes that were picked are made of. -/
  decomposes : Decomposes t.runs a b t.sequence
  /-- The runs stand behind what is left. -/
  behind : ∀ run ∈ t.runs, i ≤ run.a.first ∧ j ≤ run.b.first
  /-- A run that grows stands right behind what is left, and something is left of both inputs. -/
  growing : ∀ run ∈ t.current, run.a.first = i ∧ run.b.first = j ∧ 0 < i ∧ 0 < j
  /-- A run that is closed does not stand right behind what is left, if something is left of
  both. -/
  shut : t.current = none → 0 < i → 0 < j →
    ∀ run ∈ t.closed.head?, ¬ (run.a.first = i ∧ run.b.first = j)

namespace Trail.Sound

variable {a b : Bytes} {i j : Nat} {t : Trail}

theorem empty (a b : Bytes) (i j : Nat) : Trail.empty.Sound a b i j :=
  ⟨.nil a b, List.forall_mem_nil _, nofun, fun _ _ _ => nofun⟩

/-- A byte is left out, which closes the growing run. -/
theorem close {i' j' : Nat} (h : t.Sound a b i j) (hi : i' ≤ i) (hj : j' ≤ j)
    (hout : i' < i ∨ j' < j) : t.close.Sound a b i' j' where
  decomposes := h.decomposes
  behind run hrun := by
    obtain ⟨hia, hjb⟩ := h.behind run hrun
    exact ⟨hi.trans hia, hj.trans hjb⟩
  growing := nofun
  shut _ _ _ run hrun := by
    obtain ⟨hia, hjb⟩ := h.behind run (List.mem_of_head? hrun)
    omega

/-- A run that stands right behind what is left is closed if an input is used up, and else goes on
growing. -/
theorem closeAtStart {run : Run} (hcurrent : t.current = some run) (hi : run.a.first = i)
    (hj : run.b.first = j) (hdecomposes : Decomposes t.runs a b t.sequence)
    (hbehind : ∀ run ∈ t.runs, i ≤ run.a.first ∧ j ≤ run.b.first) :
    t.closeAtStart.Sound a b i j := by
  rw [Trail.closeAtStart, hcurrent]
  dsimp only
  split
  · rename_i hstart
    refine ⟨hdecomposes, hbehind, fun other hother => absurd hother (Option.not_mem_none other),
      fun _ _ _ => ?_⟩
    omega
  · rename_i hinside
    refine ⟨hdecomposes, hbehind, fun other hother => ?_, fun hnone => ?_⟩
    · obtain rfl := Option.some.inj (hcurrent.symm.trans hother)
      omega
    · exact absurd (hcurrent.symm.trans hnone) (Option.some_ne_none run)

/-- A byte is picked. A run that grows stands right behind it, so that the run takes it in. -/
theorem pick {x : UInt8} (h : t.Sound a b (i + 1) (j + 1)) (ha : a[i]? = some x)
    (hb : b[j]? = some x) : (t.pick x i j).Sound a b i j := by
  obtain ⟨sequence, current, closed⟩ := t
  have hbehind : ∀ run ∈ closed, i ≤ run.a.first ∧ j ≤ run.b.first := by
    intro run hrun
    obtain ⟨hia, hjb⟩ := h.behind run (List.mem_append_right _ hrun)
    omega
  rw [Trail.pick]
  cases current with
  | none =>
      have hclosed : Decomposes closed a b sequence := h.decomposes
      refine closeAtStart rfl rfl rfl ?_ (List.forall_mem_cons.mpr ⟨⟨le_rfl, le_rfl⟩, hbehind⟩)
      refine Decomposes.cons_iff.mpr ⟨matches_single ha hb, fun run hrun => h.behind run hrun,
        fun next hnext hadjoins => ?_, sequence, hclosed, ?_⟩
      · exact h.shut rfl (Nat.succ_pos i) (Nat.succ_pos j) next hnext
          ⟨hadjoins.1.symm, hadjoins.2.symm⟩
      · rw [slice_single ha]
        rfl
  | some run =>
      obtain ⟨⟨first, last⟩, ⟨first', last'⟩⟩ := run
      obtain ⟨hfirst, hfirst', -⟩ := h.growing _ rfl
      obtain rfl : first = i + 1 := hfirst
      obtain rfl : first' = j + 1 := hfirst'
      obtain ⟨hrun, hbefore, hnext, rest, hclosed, hsequence⟩ :=
        Decomposes.cons_iff.mp h.decomposes
      dsimp only
      rw [if_pos ⟨rfl, rfl⟩]
      refine closeAtStart rfl rfl rfl ?_ (List.forall_mem_cons.mpr ⟨⟨le_rfl, le_rfl⟩, hbehind⟩)
      refine Decomposes.cons_iff.mpr ⟨matches_grown ha hb hrun, hbefore, hnext, rest, hclosed, ?_⟩
      change x :: sequence = Span.slice ⟨i, last⟩ a ++ rest
      rw [slice_grown ha hrun.a_le, List.cons_append]
      exact congrArg (x :: ·) hsequence

end Trail.Sound

/-- The walk keeps the invariant to its end, which is the start of an input. Induction on the
walk. -/
theorem walk_sound {a b : Array UInt8} (t : Table a.size b.size) (i j : Nat) (hi : i ≤ a.size)
    (hj : j ≤ b.size) {trail : Trail} (h : trail.Sound a.toList b.toList i j) :
    ∃ i' j', (i' = 0 ∨ j' = 0) ∧ (walk a b t i j hi hj trail).Sound a.toList b.toList i' j' := by
  fun_induction walk a b t i j hi hj trail with
  | case1 => exact ⟨0, _, .inl rfl, h⟩
  | case2 => exact ⟨_, 0, .inr rfl, h⟩
  | case3 trail i j hi hj heq _ _ ih =>
      have ha : a.toList[i]? = some a[i] := List.getElem?_eq_getElem hi
      have hb : b.toList[j]? = some a[i] := heq ▸ List.getElem?_eq_getElem hj
      exact ih (h.pick ha hb)
  | case4 trail i j hi hj hne hcell _ _ ih =>
      exact ih (h.close (Nat.le_succ i) le_rfl (.inl (Nat.lt_succ_self i)))
  | case5 trail i j hi hj hne hcell _ _ ih =>
      exact ih (h.close le_rfl (Nat.le_succ j) (.inr (Nat.lt_succ_self j)))

/-- Where the walk ends, every run is closed. -/
theorem runs_of_end {a b : Bytes} {i j : Nat} {t : Trail} (h : t.Sound a b i j)
    (hend : i = 0 ∨ j = 0) : t.runs = t.closed := by
  have hcurrent : t.current = none := by
    cases hcurrent : t.current with
    | none => rfl
    | some run =>
        obtain ⟨-, -, hi, hj⟩ := h.growing run hcurrent
        omega
  rw [Trail.runs, hcurrent]
  rfl

/-- What is found for inputs whose table fits is made of its runs. -/
theorem exists_decomposition {a b : Bytes} {limit : Nat} (h : fits limit a b) :
    ∃ alignment, solve a b limit = .ok alignment ∧
      Decomposes alignment.runs.reverse a b alignment.sequence := by
  refine ⟨_, solve_of_fits h, ?_⟩
  obtain ⟨i, j, hend, hsound⟩ := walk_sound (Table.of a b) a.length b.length (Nat.le_refl _)
    (Nat.le_refl _) (Trail.Sound.empty a b a.length b.length)
  have hdecomposes := hsound.decomposes
  rw [runs_of_end hsound hend] at hdecomposes
  rwa [List.reverse_reverse]

end Lcs

end RespStore
