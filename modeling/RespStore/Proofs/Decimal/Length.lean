import RespStore.Decimal.Real
import RespStore.Proofs.Wire.Text

/-!
# The length of a number's text

Doubles are written positionally, so the text of one that is far from one is mostly zeros.
How many there can be is bounded by the range of a double's exponent. The bound of
`Real.length_text_le` is generous: what matters is `Real.length_ofString_text_lt`, that the
length of every number can be announced in front of it. No text is empty (`Real.text_ne_empty`).
-/

namespace RespStore.Decimal

/-! ### Widths -/

/-- A number has one digit at least. -/
theorem width_pos (n : Nat) : 0 < width n := by
  rw [width]
  split
  · exact Nat.one_pos
  · exact Nat.succ_pos _

/-- A number below a power of ten has no more digits than that power has zeros. -/
theorem width_le {n k : Nat} (h : n < 10 ^ k) (hk : 0 < k) : width n ≤ k := by
  induction k generalizing n with
  | zero => exact absurd hk (Nat.lt_irrefl 0)
  | succ k ih =>
      rw [width]
      split
      · exact Nat.succ_le_succ (Nat.zero_le k)
      · rename_i hn
        refine Nat.succ_le_succ (ih ?_ ?_)
        · rw [Nat.pow_succ] at h
          omega
        · refine Nat.pos_of_ne_zero fun hzero => ?_
          subst hzero
          omega

/-- A number is below the power of ten with as many zeros as the number has digits. -/
theorem lt_ten_pow_width (n : Nat) : n < 10 ^ width n := by
  fun_induction width n with
  | case1 n h => exact h
  | case2 n h ih =>
      rw [Nat.pow_succ]
      omega

/-- Trailing zeros that are dropped are no longer counted. -/
theorem width_dropZeros_le (d : Nat) :
    width (dropZeros d).1 + (dropZeros d).2 ≤ width d := by
  fun_induction dropZeros d with
  | case1 => exact Nat.le_refl _
  | case2 d hd hzero d' zeros heq ih =>
      have hten : ¬ d < 10 := by omega
      rw [heq] at ih
      rw [width.eq_1 d, if_neg hten]
      exact Nat.succ_le_succ ih
  | case3 d => exact Nat.le_refl _

/-! ### The shortest decimal -/

/-- The range of the significand and of the exponent of a finite double. -/
structure InRange (m : Nat) (q : Int) : Prop where
  /-- A significand has 53 bits. -/
  significand_lt : m < 2 ^ 53
  /-- The least exponent. -/
  le_exponent : -1074 ≤ q
  /-- The greatest exponent. -/
  exponent_le : q ≤ 971

/-- More zeros than a power of ten needs to lie beyond every double and the inverse of every
double. -/
def reach : Nat := 1077

/-- A power of two is at most the power of ten with an exponent as large. -/
theorem two_pow_le_ten_pow {a b : Nat} (h : a ≤ b) : 2 ^ a ≤ 10 ^ b :=
  Nat.le_trans (Nat.pow_le_pow_left (by decide) a) (Nat.pow_le_pow_right (by decide) h)

/-- What a double stands for is a quotient whose upper side is in reach. -/
theorem value_lt {m : Nat} {q : Int} (h : InRange m q) : (Interval.of m q).value < 10 ^ reach := by
  have hm : 4 * m < 2 ^ 55 := by
    have := h.significand_lt
    omega
  have hreach : 55 + (q - 2).toNat ≤ reach := by
    have := h.exponent_le
    rw [reach]
    omega
  calc (Interval.of m q).value = 4 * m * 2 ^ (q - 2).toNat := rfl
    _ < 2 ^ 55 * 2 ^ (q - 2).toNat := Nat.mul_lt_mul_of_pos_right hm (Nat.two_pow_pos _)
    _ = 2 ^ (55 + (q - 2).toNat) := (Nat.pow_add 2 55 _).symm
    _ ≤ 10 ^ reach := two_pow_le_ten_pow hreach

/-- The lower side of the quotient that a double stands for is in reach. -/
theorem den_lt {m : Nat} {q : Int} (h : InRange m q) : (Interval.of m q).den < 10 ^ reach := by
  have hreach : (2 - q).toNat + 1 ≤ reach := by
    have := h.le_exponent
    rw [reach]
    omega
  calc (Interval.of m q).den = 2 ^ (2 - q).toNat := rfl
    _ < 2 ^ ((2 - q).toNat + 1) := Nat.pow_lt_pow_succ (by decide)
    _ ≤ 10 ^ reach := two_pow_le_ten_pow hreach

/-- The magnitude of a quotient is bounded by a power of ten that lies above both of its sides. -/
theorem natAbs_magnitude_le {num den k : Nat} (hnum : num < 10 ^ k) (hden : den < 10 ^ k)
    (hk : 0 < k) : (magnitude num den).natAbs ≤ k := by
  rw [magnitude]
  split
  · have := width_le (Nat.lt_of_le_of_lt (Nat.div_le_self num den) hnum) hk
    omega
  · have hwidth := width_le (Nat.lt_of_le_of_lt (Nat.div_le_self den num) hden) hk
    have hpos := width_pos (den / num)
    simp only
    split
    · omega
    · omega

/-- The point of a grid is hardly greater than the value in units of the grid. -/
theorem le_of_onGrid {i : Interval} {e : Int} {d : Nat} (h : i.onGrid e = some d) :
    d ≤ i.value * pow10 (-e).toNat + 1 := by
  have hdiv : i.value * pow10 (-e).toNat / (i.den * pow10 e.toNat) ≤ i.value * pow10 (-e).toNat :=
    Nat.div_le_self _ _
  simp only [Interval.onGrid] at h
  split at h
  · rw [Option.some.injEq] at h
    split at h
    · omega
    · omega
  · rw [Option.some.injEq] at h
    omega
  · rw [Option.some.injEq] at h
    omega
  · exact absurd h (by simp)

/-- The grid that is chosen, and the size of the point on it. -/
theorem firstGrid_le (i : Interval) (k : Int) (tries n : Nat) :
    ∃ j, j ≤ n + tries ∧ (i.firstGrid k tries n).2 = k - j ∧
      (i.firstGrid k tries n).1 ≤ i.value * pow10 (j - k).toNat + 1 := by
  induction tries generalizing n with
  | zero =>
      refine ⟨n, Nat.le_refl n, rfl, ?_⟩
      exact Nat.le_succ_of_le (Nat.div_le_self _ _)
  | succ tries ih =>
      rw [Interval.firstGrid]
      cases hgrid : i.onGrid (k - n) with
      | some d =>
          refine ⟨n, Nat.le_add_right n _, rfl, ?_⟩
          have := le_of_onGrid hgrid
          rwa [Int.neg_sub] at this
      | none =>
          obtain ⟨j, hj, hexponent, hdigits⟩ := ih (n + 1)
          exact ⟨j, by omega, hexponent, hdigits⟩

/-- A value in units of a grid, and one more, has few more digits than the value and the unit
together. -/
theorem lt_ten_pow_of_le {d value n r : Nat} (hd : d ≤ value * pow10 n + 1)
    (hvalue : value < 10 ^ r) (hn : n ≤ r + 18) : d < 10 ^ (2 * r + 19) := by
  have hpow : pow10 n ≤ 10 ^ (r + 18) := Nat.pow_le_pow_right (by decide) hn
  have hone : 1 < 10 ^ (2 * r + 18) := Nat.one_lt_pow (Nat.succ_ne_zero _) (by decide)
  calc d ≤ value * pow10 n + 1 := hd
    _ ≤ 10 ^ r * 10 ^ (r + 18) + 1 :=
      Nat.add_le_add_right (Nat.mul_le_mul (Nat.le_of_lt hvalue) hpow) 1
    _ = 10 ^ (2 * r + 18) + 1 := by rw [← Nat.pow_add, Nat.two_mul, Nat.add_assoc]
    _ < 10 ^ (2 * r + 18) * 10 := by omega
    _ = 10 ^ (2 * r + 19) := (Nat.pow_succ 10 _).symm

/-- The digits and the point of the decimal of a double stay in range. -/
theorem shortest_le {m : Nat} {q : Int} (h : InRange m q) :
    width (shortest m q).digits ≤ 2 * reach + 19 ∧
      (shortest m q).point.natAbs ≤ 3 * reach + 37 := by
  obtain ⟨j, hj, hexponent, hdigits⟩ :=
    firstGrid_le (Interval.of m q) (magnitude (Interval.of m q).value (Interval.of m q).den) 17 1
  have hvalue := value_lt h
  have hmagnitude := natAbs_magnitude_le hvalue (den_lt h) (by decide)
  have hshortest : ∀ grid, (Interval.of m q).firstGrid
      (magnitude (Interval.of m q).value (Interval.of m q).den) 17 1 = grid →
      shortest m q = ⟨(dropZeros grid.1).1,
        grid.2 + (dropZeros grid.1).2 + width (dropZeros grid.1).1⟩ := by
    rintro grid rfl
    rfl
  replace hshortest := hshortest _ rfl
  generalize magnitude (Interval.of m q).value (Interval.of m q).den = k at *
  generalize (Interval.of m q).firstGrid k 17 1 = grid at *
  obtain ⟨d, e⟩ := grid
  have hd : d < 10 ^ (2 * reach + 19) := lt_ten_pow_of_le hdigits hvalue (by omega)
  have hwidth := width_le hd (Nat.succ_pos _)
  have hdrop := width_dropZeros_le d
  rw [hshortest]
  simp only at hexponent ⊢
  constructor
  · omega
  · omega

/-! ### Texts -/

namespace Real

/-- The text of some digits is no longer than there are digits. -/
theorem length_digitText (n : Nat) : (digitText n).length ≤ width n := by
  have hrepr : digitText n = n.repr := rfl
  rw [hrepr, Nat.length_repr_le_iff (width_pos n)]
  exact lt_ten_pow_width n

/-- A sign takes one character at most. -/
theorem length_sign_le (negative : Bool) : (sign negative).length ≤ 1 := by
  cases negative with
  | false => exact Nat.zero_le 1
  | true => exact Nat.le_refl 1

/-- A positional text has the digits, the zeros up to the point, and two characters more at most. -/
theorem length_positional_le (s : Scientific) :
    (positional s "").length ≤ width s.digits + s.point.natAbs + 2 := by
  have hdigits := length_digitText s.digits
  have hzeros : ∀ n, (zeros n).length = n := by
    intro n
    rw [zeros, String.length_ofList, List.length_replicate]
  have hpoint : "0.".length = 2 ∧ ".".length = 1 ∧ "".length = 0 := by decide
  unfold positional
  simp only
  split
  · simp only [String.length_append, hzeros]
    omega
  · split
    · simp only [String.length_append, hzeros]
      omega
    · simp only [String.length_append, String.length_ofList, List.length_take, List.length_drop,
        String.length_toList]
      omega

/-- The range of what a double stands for. -/
theorem inRange_of_ofFloat {x : Float} {negative : Bool} {m : Nat} {q : Int}
    (h : Binary64.ofFloat x = .finite negative m q) : InRange m q := by
  have hfraction : x.toBits.toNat % Binary64.pow2 52 < 2 ^ 52 := Nat.mod_lt _ (by decide)
  have hexponent : x.toBits.toNat / Binary64.pow2 52 % Binary64.pow2 11 < 2048 :=
    Nat.mod_lt _ (by decide)
  have hpow : Binary64.pow2 52 = 2 ^ 52 := rfl
  simp only [Binary64.ofFloat] at h
  split at h
  · split at h
    · exact absurd h (by simp)
    · exact absurd h (by simp)
  · split at h
    · obtain ⟨-, rfl, rfl⟩ := Binary64.finite.inj h
      exact ⟨by omega, by decide, by decide⟩
    · obtain ⟨-, rfl, rfl⟩ := Binary64.finite.inj h
      exact ⟨by omega, by omega, by omega⟩

/-- The text of a double is a few times as long as its exponent can reach. -/
theorem length_text_le (x : Float) : (text x).length ≤ 5 * reach + 59 := by
  have hwords : "inf".length = 3 ∧ "0".length = 1 := by decide
  rw [text]
  split
  · decide
  · rename_i negative _
    have := length_sign_le negative
    rw [String.length_append]
    omega
  · rename_i negative _ _
    have := length_sign_le negative
    rw [String.length_append]
    omega
  · rename_i negative m q _ h
    have hsign := length_sign_le negative
    have hpositional := length_positional_le (shortest m q)
    obtain ⟨hwidth, hpoint⟩ := shortest_le (inRange_of_ofFloat h)
    rw [String.length_append]
    omega

/-- A positional text is not empty. -/
theorem length_positional_pos (s : Scientific) : 0 < (positional s "").length := by
  have hdigits : 0 < (digitText s.digits).length := Nat.length_repr_pos
  have hpoint : "0.".length = 2 ∧ ".".length = 1 := by decide
  unfold positional
  simp only
  split
  · simp only [String.length_append]
    omega
  · split
    · simp only [String.length_append]
      omega
    · simp only [String.length_append]
      omega

/-- A number has a text of one character at least. -/
theorem text_ne_empty (x : Float) : text x ≠ "" := by
  intro hempty
  have hlength : (text x).length = 0 := congrArg String.length hempty
  have hwords : "inf".length = 3 ∧ "0".length = 1 := by decide
  rw [text] at hlength
  split at hlength
  · exact absurd hlength (by decide)
  · rw [String.length_append] at hlength
    omega
  · rw [String.length_append] at hlength
    omega
  · rename_i negative m q _ h
    have hpositional := length_positional_pos (shortest m q)
    rw [String.length_append] at hlength
    omega

/-- The length of every number's text can be announced in front of it. -/
theorem length_ofString_text_lt (x : Float) : (Bytes.ofString (text x)).length < 2 ^ 63 := by
  have := Bytes.length_ofString_le (text x)
  have := length_text_le x
  have : reach = 1077 := rfl
  omega

end Real

end RespStore.Decimal
