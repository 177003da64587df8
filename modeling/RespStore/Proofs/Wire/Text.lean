import Mathlib
import RespStore.Decimal.Integer

/-!
# Text and decimals on the wire

What is written as text reads back as that text, and what is written as a decimal reads back
as that number.

* `Bytes.toString?_ofString`: the bytes of a text spell it.
* `Decimal.readInt64?_ofInt`: the decimal of a 64-bit integer reads back.
* `Bytes.HasBreak` says that a line would end inside a byte string. A byte string without a
  carriage return has no break, and decimals have none.
-/

namespace RespStore

namespace Bytes

/-- The bytes of a text spell it. -/
theorem toString?_ofString (s : String) : toString? (ofString s) = some s := by
  rw [toString?, ofString, String.fromUTF8?]
  rw [Array.toArray_toList]
  exact dif_pos s.isValidUTF8

/-- The bytes of a text are those of its characters, one behind the other. -/
theorem ofString_ofList (cs : List Char) :
    ofString (String.ofList cs) = cs.flatMap String.utf8EncodeChar := by
  simp [ofString, List.utf8Encode]

/-- No character takes up more than four bytes. -/
theorem length_ofString_le (s : String) : (ofString s).length ≤ 4 * s.length := by
  rw [← String.ofList_toList (s := s), ofString_ofList, String.length_ofList]
  induction s.toList with
  | nil => exact Nat.zero_le _
  | cons c cs ih =>
      have := c.utf8Size_le_four
      rw [List.flatMap_cons, List.length_append, String.length_utf8EncodeChar, List.length_cons]
      omega

/-- A character below 128 is written as the byte with its number. -/
theorem utf8EncodeChar_ofNat {x : UInt8} (h : x < 128) :
    String.utf8EncodeChar (Char.ofNat x.toNat) = [x] := by
  have hall : ∀ n < 128, String.utf8EncodeChar (Char.ofNat n) = [n.toUInt8] := by decide
  rw [hall _ (UInt8.lt_iff_toNat_lt.mp h)]
  simp

/-- Bytes below 128 are the bytes of a text. -/
theorem ofString_of_ascii {b : Bytes} (h : ∀ x ∈ b, x < 128) :
    ofString (String.ofList (b.map fun x => Char.ofNat x.toNat)) = b := by
  rw [ofString_ofList, List.flatMap_map]
  induction b with
  | nil => rfl
  | cons x b ih =>
      rw [List.flatMap_cons, utf8EncodeChar_ofNat (h x List.mem_cons_self),
        ih fun y hy => h y (List.mem_cons_of_mem _ hy)]
      rfl

/-- A byte below 128 stands for the character with that number. -/
theorem toNat_of_mem_utf8EncodeChar {c : Char} {x : UInt8} (hx : x < 128)
    (h : x ∈ String.utf8EncodeChar c) : c.toNat = x.toNat := by
  have hx : x.toNat < 128 := UInt8.lt_iff_toNat_lt.mp hx
  have hmod : ∀ n : Nat, x = UInt8.ofNat n → n % 256 = x.toNat := by
    intro n hn
    have := congrArg UInt8.toNat hn
    simpa using this.symm
  change c.val.toNat = x.toNat
  unfold String.utf8EncodeChar at h
  simp only at h
  split at h
  · have := hmod _ (List.mem_singleton.mp h)
    omega
  · split at h
    · simp only [List.mem_cons, List.not_mem_nil, or_false] at h
      rcases h with h | h <;> have := hmod _ h <;> omega
    · split at h
      · simp only [List.mem_cons, List.not_mem_nil, or_false] at h
        rcases h with h | h | h <;> have := hmod _ h <;> omega
      · simp only [List.mem_cons, List.not_mem_nil, or_false] at h
        rcases h with h | h | h | h <;> have := hmod _ h <;> omega

/-- Only a carriage return is written with the byte 13. -/
theorem eq_cr_of_mem_utf8EncodeChar {c : Char} (h : 13 ∈ String.utf8EncodeChar c) : c = '\r' :=
  Char.toNat_inj.mp (toNat_of_mem_utf8EncodeChar (by decide) h)

/-- Only a line feed is written with the byte 10. -/
theorem eq_lf_of_mem_utf8EncodeChar {c : Char} (h : 10 ∈ String.utf8EncodeChar c) : c = '\n' :=
  Char.toNat_inj.mp (toNat_of_mem_utf8EncodeChar (by decide) h)

/-- What starts with an encoded character starts with one of its bytes. -/
theorem mem_of_utf8EncodeChar_append {c : Char} {x : UInt8} {rest rest' : Bytes}
    (h : x :: rest = String.utf8EncodeChar c ++ rest') : x ∈ String.utf8EncodeChar c := by
  cases hencoded : String.utf8EncodeChar c with
  | nil =>
      have hlength := String.length_utf8EncodeChar c
      rw [hencoded] at hlength
      exact absurd hlength (Nat.ne_of_lt c.utf8Size_pos)
  | cons y ys =>
      rw [hencoded] at h
      exact (List.cons.inj h).1 ▸ List.mem_cons_self

/-! ### Breaks -/

/-- Whether a line would end inside the bytes. -/
def HasBreak (b : Bytes) : Prop := crlf <:+: b

instance (b : Bytes) : Decidable b.HasBreak := inferInstanceAs (Decidable (crlf <:+: b))

/-- Bytes without a carriage return have no break. -/
theorem not_hasBreak_of_forall_ne {b : Bytes} (h : ∀ x ∈ b, x ≠ 13) : ¬ b.HasBreak := by
  rintro ⟨before, after, rfl⟩
  exact h 13 (by simp [crlf]) rfl

/-- Bytes without a carriage return in front of others make no break with them. -/
theorem hasBreak_of_hasBreak_append {b rest : Bytes} (h : ∀ x ∈ b, x ≠ 13)
    (hbreak : (b ++ rest).HasBreak) : rest.HasBreak := by
  induction b with
  | nil => exact hbreak
  | cons x b ih =>
      rcases List.infix_cons_iff.mp hbreak with hfirst | hbreak
      · exact absurd (List.cons_prefix_cons.mp hfirst).1.symm (h x List.mem_cons_self)
      · exact ih (fun y hy => h y (List.mem_cons_of_mem x hy)) hbreak

/-- A text is written with a break where a line feed follows a carriage return, and nowhere
else. -/
theorem hasBreak_ofString_iff {s : String} :
    (ofString s).HasBreak ↔ ['\r', '\n'] <:+: s.toList := by
  have hbreak : ∀ cs : List Char,
      HasBreak (cs.flatMap String.utf8EncodeChar) ↔ ['\r', '\n'] <:+: cs := by
    intro cs
    constructor
    · intro h
      induction cs with
      | nil => exact absurd h (by decide)
      | cons c cs ih =>
          rw [List.flatMap_cons] at h
          by_cases hc : c = '\r'
          · subst hc
            have hcr : String.utf8EncodeChar '\r' = [13] := by decide
            rw [hcr, List.singleton_append] at h
            rcases List.infix_cons_iff.mp h with hfirst | h
            · cases cs with
              | nil => exact absurd (List.cons_prefix_cons.mp hfirst).2 (by decide)
              | cons d cs =>
                  obtain ⟨-, after, hafter⟩ := List.cons_prefix_cons.mp hfirst
                  rw [List.flatMap_cons] at hafter
                  obtain rfl := eq_lf_of_mem_utf8EncodeChar (mem_of_utf8EncodeChar_append hafter)
                  exact ⟨[], cs, rfl⟩
            · exact List.infix_cons_iff.mpr (.inr (ih h))
          · refine List.infix_cons_iff.mpr (.inr (ih (hasBreak_of_hasBreak_append ?_ h)))
            rintro x hx rfl
            exact hc (eq_cr_of_mem_utf8EncodeChar hx)
    · rintro ⟨before, after, rfl⟩
      refine ⟨before.flatMap String.utf8EncodeChar, after.flatMap String.utf8EncodeChar, ?_⟩
      rw [List.flatMap_append, List.flatMap_append]
      rfl
  rw [← hbreak, ← ofString_ofList, String.ofList_toList]

/-- A text without a carriage return has no break. -/
theorem not_hasBreak_ofString {s : String} (h : '\r' ∉ s.toList) : ¬ (ofString s).HasBreak := by
  intro hbreak
  exact h ((hasBreak_ofString_iff.mp hbreak).mem (by decide))

end Bytes

/-! ### Decimals -/

namespace Decimal

/-- A digit reads back. -/
theorem digit?_digit {n : Nat} (h : n < 10) : digit? (digit n) = some n := by
  revert n
  decide

/-- A digit is a byte between those of zero and nine. -/
theorem digit_mem {n : Nat} (h : n < 10) : 48 ≤ digit n ∧ digit n ≤ 57 := by
  revert n
  decide

/-- A decimal consists of digits. -/
theorem mem_digits {n : Nat} {x : UInt8} (h : x ∈ digits n) : 48 ≤ x ∧ x ≤ 57 := by
  fun_induction digits n with
  | case1 n hn => exact List.mem_singleton.mp h ▸ digit_mem hn
  | case2 n hn ih =>
      rcases List.mem_append.mp h with h | h
      · exact ih h
      · exact List.mem_singleton.mp h ▸ digit_mem (Nat.mod_lt n (by decide))

/-- A decimal has a digit at least. -/
theorem digits_ne_nil (n : Nat) : digits n ≠ [] := by
  rw [digits]
  split
  · simp
  · simp

/-- Digits are read one after the other. -/
theorem readDigits_append (acc : Nat) (xs ys : Bytes) :
    readDigits acc (xs ++ ys) = (readDigits acc xs).bind fun acc => readDigits acc ys := by
  induction xs generalizing acc with
  | nil => rfl
  | cons x xs ih =>
      simp only [List.cons_append, readDigits]
      cases digit? x with
      | none => rfl
      | some d =>
          simp only [Option.bind_some]
          split
          · exact ih _
          · rfl

/-- The digits of a number read back as that number. -/
theorem readDigits_digits {n : Nat} (h : n < UInt64.size) : readDigits 0 (digits n) = some n := by
  fun_induction digits n with
  | case1 n hn =>
      simp only [readDigits, digit?_digit hn, Option.bind_some, Nat.mul_zero, Nat.zero_add,
        if_pos h]
  | case2 n hn ih =>
      have hdiv : 10 * (n / 10) + n % 10 = n := Nat.div_add_mod n 10
      rw [readDigits_append, ih (by omega), Option.bind_some]
      simp only [readDigits, digit?_digit (Nat.mod_lt n (by decide : 0 < 10)), Option.bind_some,
        hdiv, if_pos h]

/-- The decimal of a number below `2 ^ 64` reads back. -/
theorem readNat?_digits {n : Nat} (h : n < UInt64.size) : readNat? (digits n) = some n := by
  unfold readNat?
  split
  · rename_i heq
    exact absurd heq (digits_ne_nil n)
  · rename_i heq
    exact heq ▸ readDigits_digits h

/-- Without a sign, the decimal of a number below `2 ^ 64` reads back as an integer. -/
theorem readInt?_digits {n : Nat} (h : n < UInt64.size) : readInt? (digits n) = some (n : Int) := by
  unfold readInt? signed?
  split
  · rename_i heq
    exact absurd (mem_digits (heq ▸ List.mem_cons_self : (45 : UInt8) ∈ digits n)) (by decide)
  · rename_i heq
    exact absurd (mem_digits (heq ▸ List.mem_cons_self : (43 : UInt8) ∈ digits n)) (by decide)
  · rw [readNat?_digits h]
    rfl

/-- The decimal of an integer whose magnitude is below `2 ^ 64` reads back. -/
theorem readInt?_ofInt {i : Int} (h : i.natAbs < UInt64.size) : readInt? (ofInt i) = some i := by
  rw [ofInt]
  split
  · rw [readInt?, signed?]
    simp only [readNat?_digits h]
    change some (-(i.natAbs : Int)) = some i
    rw [Option.some.injEq]
    omega
  · rw [readInt?_digits h, Option.some.injEq]
    omega

/-- The decimal of a 64-bit signed integer reads back. -/
theorem readInt64?_ofInt (i : Int64) : readInt64? (ofInt i.toInt) = some i := by
  have hlow := i.le_toInt
  have hhigh := i.toInt_lt
  have hsize : UInt64.size = 2 ^ 64 := rfl
  rw [readInt64?]
  rw [readInt?_ofInt (by omega), Option.bind_some,
    if_pos ⟨i.minValue_le_toInt, i.toInt_le⟩, Int64.ofInt_toInt]

/-- The decimal of an integer consists of digits and perhaps a minus. -/
theorem mem_ofInt {i : Int} {x : UInt8} (h : x ∈ ofInt i) : x = 45 ∨ 48 ≤ x ∧ x ≤ 57 := by
  rw [ofInt] at h
  split at h
  · rcases List.mem_cons.mp h with h | h
    · exact .inl h
    · exact .inr (mem_digits h)
  · exact .inr (mem_digits h)

/-- The decimal of an integer has no break. -/
theorem not_hasBreak_ofInt (i : Int) : ¬ (ofInt i).HasBreak := by
  refine Bytes.not_hasBreak_of_forall_ne fun x hx heq => ?_
  subst heq
  exact absurd (mem_ofInt hx) (by decide)

/-- A decimal is text. -/
theorem toString?_ofInt (i : Int) : ∃ text, Bytes.toString? (ofInt i) = some text := by
  have hascii : ∀ x ∈ ofInt i, x < 128 := by
    intro x hx
    rcases mem_ofInt hx with rfl | ⟨-, h⟩
    · decide
    · exact UInt8.lt_of_le_of_lt h (by decide)
  exact ⟨_, Bytes.ofString_of_ascii hascii ▸ Bytes.toString?_ofString _⟩

/-- The decimal of a number is that of the number as an integer. -/
theorem digits_eq_ofInt (n : Nat) : digits n = ofInt n := by
  rw [ofInt]
  rw [if_neg (by omega), Int.natAbs_natCast]

end Decimal

end RespStore
