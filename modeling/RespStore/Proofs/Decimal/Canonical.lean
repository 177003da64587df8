import RespStore.Proofs.Wire.Text

/-!
# The one way to write an integer

Reading takes several texts for one integer: plus signs and leading zeros may stand in front.
Writing does not. `Decimal.Canonical` says what is written, without saying how, and
`Decimal.canonical_iff` that `Decimal.ofInt` writes just that.
-/

namespace RespStore.Decimal

/-- The number that digits denote. -/
def value (ds : Bytes) : Nat := ds.foldl (fun n d => 10 * n + (d.toNat - 48)) 0

/-- Whether these are the digits of a number, without a zero too many. -/
structure Digits (n : Nat) (ds : Bytes) : Prop where
  /-- There is a digit. -/
  ne_nil : ds ≠ []
  /-- All of them are digits. -/
  isDigit : ∀ d ∈ ds, 48 ≤ d ∧ d ≤ 57
  /-- Only zero itself starts with a zero. -/
  eq_zero : ds.head? = some 48 → ds = [48]
  /-- They denote the number. -/
  value_eq : value ds = n

/-- Whether a text is the canonical one of an integer: its digits, behind a minus sign if it is
negative. -/
def Canonical (i : Int) (text : Bytes) : Prop :=
  ∃ ds, Digits i.natAbs ds ∧ text = if i < 0 then 45 :: ds else ds

/-- The last digit counts for itself, and those in front of it for ten times as much. -/
theorem value_concat (ds : Bytes) (d : UInt8) :
    value (ds ++ [d]) = 10 * value ds + (d.toNat - 48) :=
  List.foldl_concat ..

/-- The character of a digit comes as many places behind the zero as the digit says. -/
theorem toNat_digit {n : Nat} (h : n < 10) : (digit n).toNat = n + 48 := by
  revert n
  decide

/-- A digit is the digit of its value. -/
theorem digit_toNat {d : UInt8} (h : 48 ≤ d ∧ d ≤ 57) :
    d.toNat - 48 < 10 ∧ digit (d.toNat - 48) = d := by
  have hlow : 48 ≤ d.toNat := UInt8.le_iff_toNat_le.mp h.1
  have hhigh : d.toNat ≤ 57 := UInt8.le_iff_toNat_le.mp h.2
  refine ⟨by omega, UInt8.toNat_inj.mp ?_⟩
  rw [toNat_digit (by omega)]
  omega

/-- What is written for a number denotes it. -/
theorem value_digits (n : Nat) : value (digits n) = n := by
  fun_induction digits n with
  | case1 n hn =>
      have hdigit := toNat_digit hn
      simp only [value, List.foldl_cons, List.foldl_nil]
      omega
  | case2 n hn ih =>
      have hdigit := toNat_digit (Nat.mod_lt n (by decide : 0 < 10))
      rw [value_concat, ih]
      omega

/-- What is written for a number starts with a zero only if the number is zero. -/
theorem digits_of_head?_zero {n : Nat} (h : (digits n).head? = some 48) : digits n = [48] := by
  fun_induction digits n with
  | case1 n hn => exact congrArg (fun d => [d]) (Option.some.inj h)
  | case2 n hn ih =>
      rw [List.head?_append_of_ne_nil _ (digits_ne_nil _)] at h
      have hvalue := value_digits (n / 10)
      rw [ih h] at hvalue
      have hzero : value [48] = 0 := rfl
      omega

/-- What is written for a number are its digits, without a zero too many. -/
theorem digits_digits (n : Nat) : Digits n (digits n) :=
  ⟨digits_ne_nil n, fun _ => mem_digits, digits_of_head?_zero, value_digits n⟩

/-- There is one way to write a number without a zero too many. Induction on its digits, from the
last one. -/
theorem Digits.eq_digits {n : Nat} {ds : Bytes} (h : Digits n ds) : ds = digits n := by
  induction ds using List.reverseRecOn generalizing n with
  | nil => exact absurd rfl h.ne_nil
  | append_singleton ds d ih =>
      have hvalue := h.value_eq
      rw [value_concat] at hvalue
      obtain ⟨hlt, hdigit⟩ := digit_toNat (h.isDigit d List.mem_concat_self)
      cases ds with
      | nil =>
          have hn : n = d.toNat - 48 := hvalue.symm.trans (Nat.zero_add _)
          rw [digits, if_pos (hn ▸ hlt), hn, hdigit]
          rfl
      | cons first ds =>
          have hfirst : first ≠ 48 := by
            rintro rfl
            exact List.concat_ne_nil d ds (List.cons.inj (h.eq_zero rfl)).2
          have hfront : Digits (value (first :: ds)) (first :: ds) :=
            ⟨List.cons_ne_nil _ _, fun x hx => h.isDigit x (List.mem_append_left _ hx),
              fun hzero => absurd (Option.some.inj hzero) hfirst, rfl⟩
          have heq := ih hfront
          have hpos : value (first :: ds) ≠ 0 := by
            intro hzero
            rw [hzero, digits, if_pos (by decide)] at heq
            exact hfirst (List.cons.inj heq).1
          rw [digits, if_neg (by omega), (by omega : n / 10 = value (first :: ds)),
            (by omega : n % 10 = d.toNat - 48), hdigit, ← heq]

/-- The text that is written is the canonical one, and the only one. -/
theorem canonical_iff {i : Int} {text : Bytes} : Canonical i text ↔ text = ofInt i := by
  rw [ofInt]
  constructor
  · rintro ⟨ds, hds, rfl⟩
    rw [hds.eq_digits]
  · rintro rfl
    exact ⟨digits i.natAbs, digits_digits _, rfl⟩

end RespStore.Decimal
