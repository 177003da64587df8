import RespStore.Proofs.Wire.Text
import RespStore.Text.Upper

/-!
# Which bytes spell a keyword

A keyword is compared with the upper-case form of a text, character by character, and the text is
what some bytes decode to. Here the comparison is brought down to the bytes themselves, where it is
one of lower-case forms: the form of a keyword of ASCII letters, and the form of the bytes in which
every dotless i, the one character outside ASCII that such a keyword can have for a letter, is an i.

* `Bytes.folded` is the form in which the bytes are compared.
* `Upper.Plain` is for the letters of the keywords. It leaves out F and S, which are in the
  upper-case forms of further characters.
* `Upper.spells_iff` is the main result. One direction goes through the characters of the text, the
  other through the letters of the keyword.
-/

namespace RespStore

namespace Bytes

/-- A byte string with an i in the place of every dotless i, which takes up two bytes. -/
def dotted : Bytes → Bytes
  | 0xC4 :: 0xB1 :: rest => 0x69 :: dotted rest
  | x :: rest => x :: dotted rest
  | [] => []

/-- A byte that begins no dotless i stands for itself. -/
theorem dotted_cons_of_ne {x : UInt8} (h : x ≠ 0xC4) (rest : Bytes) :
    dotted (x :: rest) = x :: dotted rest := by
  rw [dotted]
  rintro rest' rfl
  exact absurd rfl h

/-- A byte string without the first byte of a dotless i has none. -/
theorem dotted_of_not_mem {b : Bytes} (h : 0xC4 ∉ b) : b.dotted = b := by
  induction b with
  | nil => rfl
  | cons x b ih =>
      rw [List.mem_cons, not_or] at h
      rw [dotted_cons_of_ne (Ne.symm h.1), ih h.2]

/-- What the first byte comes from. -/
theorem dotted_eq_cons {b rest : Bytes} {x : UInt8} (h : b.dotted = x :: rest) :
    ∃ behind : Bytes, behind.dotted = rest ∧
      (b = x :: behind ∨ x = 0x69 ∧ b = 0xC4 :: 0xB1 :: behind) := by
  revert h
  fun_cases dotted b with
  | case1 behind =>
      intro h
      obtain ⟨rfl, rfl⟩ := List.cons.inj h
      exact ⟨behind, rfl, .inr ⟨rfl, rfl⟩⟩
  | case2 y behind hy =>
      intro h
      obtain ⟨rfl, rfl⟩ := List.cons.inj h
      exact ⟨behind, rfl, .inl rfl⟩
  | case3 => exact fun h => nomatch h

/-- The form in which keywords are compared: in lower case, and with an i for every dotless i. -/
def folded (b : Bytes) : Bytes := lower b.dotted

/-- Bytes whose form has nothing in it are none. -/
theorem eq_nil_of_dotted {b : Bytes} (h : b.dotted = []) : b = [] := by
  revert h
  fun_cases dotted b with
  | case3 => exact fun _ => rfl
  | _ => exact fun h => nomatch h

theorem lower_cons (x : UInt8) (b : Bytes) : lower (x :: b) = lowerByte x :: lower b := rfl

theorem lower_append (b rest : Bytes) : lower (b ++ rest) = lower b ++ lower rest :=
  List.map_append

/-- Only a letter of the other case has the same lower-case form as an upper-case letter. -/
theorem eq_of_lowerByte_eq {x y : UInt8} (hy : 65 ≤ y ∧ y ≤ 90) (h : lowerByte x = lowerByte y) :
    x = y ∨ x = y + 32 := by
  rw [lowerByte, lowerByte, if_pos hy] at h
  split at h
  · exact .inl ((UInt8.add_left_inj 32).mp h)
  · exact .inr h

/-- Bytes decode to a text just when they are those of the text. -/
theorem toString?_eq_some_iff {b : Bytes} {text : String} :
    toString? b = some text ↔ b = ofString text := by
  constructor
  · intro h
    rw [toString?, String.fromUTF8?] at h
    split at h
    · obtain rfl := Option.some.inj h
      exact List.toList_toArray.symm
    · cases h
  · rintro rfl
    exact toString?_ofString text

end Bytes

namespace Upper

/-- Whether a character is an upper-case letter that is in the upper-case form of no character
outside ASCII but the dotless i. -/
def Plain (c : Char) : Prop := 'A' ≤ c ∧ c ≤ 'Z' ∧ c ≠ 'F' ∧ c ≠ 'S'

instance : DecidablePred Plain := fun _ => inferInstanceAs (Decidable (_ ∧ _))

/-- A character of ASCII is one byte, and so is its upper-case form. -/
theorem ofChar_ascii {c : Char} (h : c.toNat < 128) :
    ofChar c = [c.toUpper] ∧ String.utf8EncodeChar c = [c.toNat.toUInt8] ∧
      c.toNat.toUInt8 ≠ 0xC4 ∧
      Bytes.lower (String.utf8EncodeChar c.toUpper) = [Bytes.lowerByte c.toNat.toUInt8] := by
  have hall : ∀ n < 128, ofChar (Char.ofNat n) = [(Char.ofNat n).toUpper] ∧
      String.utf8EncodeChar (Char.ofNat n) = [n.toUInt8] ∧ n.toUInt8 ≠ 0xC4 ∧
      Bytes.lower (String.utf8EncodeChar (Char.ofNat n).toUpper) =
        [Bytes.lowerByte n.toUInt8] := by
    decide +kernel
  have hc := hall c.toNat h
  rwa [Char.ofNat_toNat] at hc

/-- A plain letter is one of the bytes of ASCII. -/
theorem Plain.exists_byte {u : Char} (h : Plain u) :
    ∃ y : UInt8, (65 ≤ y ∧ y ≤ 90) ∧ u = Char.ofNat y.toNat := by
  have hle : u.toNat ≤ 90 := h.2.1
  have hy : u.toNat.toUInt8.toNat = u.toNat := Nat.mod_eq_of_lt (by omega)
  refine ⟨u.toNat.toUInt8, ?_, by rw [hy, Char.ofNat_toNat]⟩
  rw [UInt8.le_iff_toNat_le, UInt8.le_iff_toNat_le, hy]
  exact ⟨h.1, hle⟩

/-- A letter is the upper-case form of itself and of its lower-case form. -/
theorem ofChar_letter {x y : UInt8} (hy : 65 ≤ y ∧ y ≤ 90)
    (h : Bytes.lowerByte x = Bytes.lowerByte y) :
    ofChar (Char.ofNat x.toNat) = [Char.ofNat y.toNat] ∧
      String.utf8EncodeChar (Char.ofNat x.toNat) = [x] := by
  have hall : ∀ n < 26, ofChar (Char.ofNat (65 + n)) = [Char.ofNat (65 + n)] ∧
      ofChar (Char.ofNat (97 + n)) = [Char.ofNat (65 + n)] := by
    decide +kernel
  obtain ⟨n, hn⟩ : ∃ n, y.toNat = 65 + n :=
    Nat.exists_eq_add_of_le (UInt8.le_iff_toNat_le.mp hy.1)
  have hhigh : y.toNat ≤ 90 := UInt8.le_iff_toNat_le.mp hy.2
  have hlowered : (y + 32).toNat = 97 + n := by
    have hthirtyTwo : UInt8.toNat 32 = 32 := rfl
    rw [UInt8.toNat_add, hn, hthirtyTwo, Nat.mod_eq_of_lt (by omega)]
    omega
  obtain ⟨hupper, hlower⟩ := hall n (by omega)
  have hsmall : ∀ {z : UInt8}, z.toNat < 128 → String.utf8EncodeChar (Char.ofNat z.toNat) = [z] :=
    fun hz => Bytes.utf8EncodeChar_ofNat (UInt8.lt_iff_toNat_lt.mpr hz)
  rcases Bytes.eq_of_lowerByte_eq hy h with rfl | rfl
  · exact ⟨hn ▸ hupper, hsmall (by omega)⟩
  · exact ⟨by rw [hlowered, hn]; exact hlower, hsmall (by omega)⟩

/-- The letter whose lower-case form is the i. -/
theorem ofNat_eq_of_lowerByte_eq {y : UInt8} (hy : 65 ≤ y ∧ y ≤ 90)
    (h : Bytes.lowerByte 0x69 = Bytes.lowerByte y) : Char.ofNat y.toNat = 'I' := by
  rcases Bytes.eq_of_lowerByte_eq hy h with rfl | h
  · exact absurd hy.2 (by decide)
  · have hadd : (0x49 : UInt8) + 32 = y + 32 := h
    rw [← (UInt8.add_left_inj 32).mp hadd]
    rfl

/-- Outside ASCII, only the dotless i has plain letters for its upper-case form. -/
theorem eq_dotless_of_plain {c : Char} (h : 128 ≤ c.toNat) (hplain : ∀ u ∈ ofChar c, Plain u) :
    c = '\u0131' := by
  have hlower : c.isLower = false := by
    rw [Bool.eq_false_iff]
    intro h
    simp [Char.isLower, UInt32.le_iff_toNat_le] at h
    have : c.toNat = c.val.toNat := rfl
    omega
  rw [ofChar, if_neg (by simp [hlower])] at hplain
  split at hplain
  case h_2 h => exact Char.toNat_inj.mp h
  case h_11 =>
    have hle : c.toNat ≤ 'Z'.toNat := (hplain c (List.mem_singleton_self c)).2.1
    exact absurd (Nat.le_trans h hle) (by decide)
  all_goals exact absurd (hplain _ List.mem_cons_self) (by decide)

/-- What is a plain keyword in upper case is written with its letters, in any case, or with dotless
i's. -/
theorem lower_dotted_of_flatMap {cs keyword : List Char} (hplain : ∀ u ∈ keyword, Plain u)
    (h : cs.flatMap ofChar = keyword) :
    Bytes.lower (Bytes.dotted (cs.flatMap String.utf8EncodeChar)) =
      Bytes.lower (keyword.flatMap String.utf8EncodeChar) := by
  subst h
  induction cs with
  | nil => rfl
  | cons c cs ih =>
      rw [List.flatMap_cons, List.forall_mem_append] at hplain
      obtain ⟨hc, hcs⟩ := hplain
      simp only [List.flatMap_cons, List.flatMap_append]
      rcases Nat.lt_or_ge c.toNat 128 with hlt | hge
      · obtain ⟨hupper, hbytes, hne, hlower⟩ := ofChar_ascii hlt
        rw [hupper, hbytes, List.flatMap_singleton, List.singleton_append,
          Bytes.dotted_cons_of_ne hne, Bytes.lower_cons, ih hcs, Bytes.lower_append, hlower]
        rfl
      · obtain rfl := eq_dotless_of_plain hge hc
        change Bytes.lower (0x69 :: Bytes.dotted (cs.flatMap String.utf8EncodeChar)) = _
        rw [Bytes.lower_cons, ih hcs]
        rfl

/-- What is written with the letters of a plain keyword, in any case, or with dotless i's, is that
keyword in upper case. -/
theorem exists_flatMap_of_lower_dotted {b : Bytes} {keyword : List Char}
    (hplain : ∀ u ∈ keyword, Plain u)
    (h : Bytes.lower (Bytes.dotted b) = Bytes.lower (keyword.flatMap String.utf8EncodeChar)) :
    ∃ cs : List Char, b = cs.flatMap String.utf8EncodeChar ∧ cs.flatMap ofChar = keyword := by
  induction keyword generalizing b with
  | nil =>
      refine ⟨[], ?_, rfl⟩
      cases hb : b.dotted with
      | nil => exact Bytes.eq_nil_of_dotted hb
      | cons x rest =>
          rw [hb] at h
          exact nomatch h
  | cons u keyword ih =>
      obtain ⟨hu, hkeyword⟩ := List.forall_mem_cons.mp hplain
      obtain ⟨y, hy, rfl⟩ := hu.exists_byte
      have hbytes := (ofChar_letter hy rfl).2
      rw [List.flatMap_cons, hbytes, List.singleton_append, Bytes.lower_cons] at h
      cases hb : b.dotted with
      | nil =>
          rw [hb] at h
          exact nomatch h
      | cons x rest =>
          rw [hb, Bytes.lower_cons] at h
          obtain ⟨hx, hrest⟩ := List.cons.inj h
          obtain ⟨behind, rfl, hfirst⟩ := Bytes.dotted_eq_cons hb
          obtain ⟨cs, rfl, hcs⟩ := ih hkeyword hrest
          rcases hfirst with rfl | ⟨rfl, rfl⟩
          · obtain ⟨hupper, hchar⟩ := ofChar_letter hy hx
            refine ⟨Char.ofNat x.toNat :: cs, ?_, ?_⟩
            · rw [List.flatMap_cons, hchar, List.singleton_append]
            · rw [List.flatMap_cons, hupper, hcs, List.singleton_append]
          · rw [ofNat_eq_of_lowerByte_eq hy hx]
            exact ⟨'\u0131' :: cs, rfl, congrArg ('I' :: ·) hcs⟩

/-- A plain keyword has no dotless i. -/
theorem folded_keyword {keyword : String} (hplain : ∀ u ∈ keyword.toList, Plain u) :
    (Bytes.ofString keyword).folded =
      Bytes.lower (keyword.toList.flatMap String.utf8EncodeChar) := by
  have hkeyword : Bytes.ofString keyword = keyword.toList.flatMap String.utf8EncodeChar := by
    rw [← Bytes.ofString_ofList, String.ofList_toList]
  rw [Bytes.folded, hkeyword, Bytes.dotted_of_not_mem]
  intro hmem
  obtain ⟨u, hu, hmem⟩ := List.mem_flatMap.mp hmem
  obtain ⟨y, hy, rfl⟩ := (hplain u hu).exists_byte
  rw [(ofChar_letter hy rfl).2, List.mem_singleton] at hmem
  exact absurd (hmem ▸ hy.2) (by decide)

/-- Keywords are compared without regard to the case of ASCII letters, once every dotless i is read
as an i. Bytes that are not text spell no keyword. -/
theorem spells_iff {b : Bytes} {keyword : String} (hplain : ∀ u ∈ keyword.toList, Plain u) :
    (∃ text, Bytes.toString? b = some text ∧ spells text keyword = true) ↔
      b.folded = (Bytes.ofString keyword).folded := by
  rw [folded_keyword hplain]
  constructor
  · rintro ⟨text, htext, hspells⟩
    rw [Bytes.folded, Bytes.toString?_eq_some_iff.mp htext,
      ← lower_dotted_of_flatMap hplain (beq_iff_eq.mp hspells), ← Bytes.ofString_ofList,
      String.ofList_toList]
  · intro h
    obtain ⟨cs, hcs, hupper⟩ := exists_flatMap_of_lower_dotted hplain h
    rw [← Bytes.ofString_ofList] at hcs
    refine ⟨String.ofList cs, Bytes.toString?_eq_some_iff.mpr hcs, beq_iff_eq.mpr ?_⟩
    rwa [String.toList_ofList]

end Upper
end RespStore
