import RespStore.Bytes

/-!
# Reading bytes as text

Error messages quote what a client sent, which need not be text at all. `Utf8.lossy` reads
any byte string: well-formed UTF-8 becomes the characters it encodes, and every maximal
piece that starts like a character but does not finish as one becomes one U+FFFD. A piece
ends before the first byte that cannot continue it, so no byte of a later character is lost.
-/

namespace RespStore.Utf8

/-- Takes one continuation byte between `lo` and `hi` off the front, behind the bits read
so far. -/
def continuation (bits : Nat) (lo hi : UInt8) : Bytes → Option (Nat × Bytes)
  | [] => none
  | b :: rest => if lo ≤ b ∧ b ≤ hi then some (64 * bits + (b &&& 63).toNat, rest) else none

/-- Takes one more continuation byte, of any value. -/
def following (bits : Nat) (rest : Bytes) : Option (Nat × Bytes) :=
  continuation bits 0x80 0xBF rest

/-- The least value that the byte behind the given lead byte may have. It rules out overlong
forms of three and four bytes. -/
def secondFloor (lead : UInt8) : UInt8 :=
  if lead = 0xE0 then 0xA0 else if lead = 0xF0 then 0x90 else 0x80

/-- The greatest value that the byte behind the given lead byte may have. It rules out
surrogates and values past the last code point. -/
def secondCeiling (lead : UInt8) : UInt8 :=
  if lead = 0xED then 0x9F else if lead = 0xF4 then 0x8F else 0xBF

/-- How many continuation bytes a lead byte announces, with the bits it carries itself. -/
def announced (lead : UInt8) : Option (Nat × Nat) :=
  if 0xC2 ≤ lead ∧ lead ≤ 0xDF then some (1, (lead &&& 0x1F).toNat)
  else if 0xE0 ≤ lead ∧ lead ≤ 0xEF then some (2, (lead &&& 0x0F).toNat)
  else if 0xF0 ≤ lead ∧ lead ≤ 0xF4 then some (3, (lead &&& 0x07).toNat)
  else none

/-- Reads `count` more continuation bytes. `none` in front says that the piece is not a
character; the bytes that belong to it are gone all the same. -/
def finish : Nat → Nat → Bytes → Option Char × Bytes
  | 0, bits, rest => (some (Char.ofNat bits), rest)
  | count + 1, bits, rest =>
    match following bits rest with
    | none => (none, rest)
    | some (bits', rest') => finish count bits' rest'

/-- The first character or ill-formed piece of a byte string that starts with `lead`, and
what follows it. -/
def next (lead : UInt8) (rest : Bytes) : Option Char × Bytes :=
  if lead < 0x80 then (some (Char.ofNat lead.toNat), rest) else
  match announced lead with
  | none => (none, rest)
  | some (count, bits) =>
    match continuation bits (secondFloor lead) (secondCeiling lead) rest with
    | none => (none, rest)
    | some (bits', rest') => finish (count - 1) bits' rest'

/-- A continuation byte is taken off the front. -/
theorem length_of_continuation {bits : Nat} {lo hi : UInt8} {rest : Bytes} {p : Nat × Bytes}
    (h : continuation bits lo hi rest = some p) : p.2.length < rest.length := by
  cases rest with
  | nil => simp [continuation] at h
  | cons b rest =>
    simp only [continuation, Option.ite_none_right_eq_some, Option.some.injEq] at h
    obtain ⟨-, rfl⟩ := h
    simp

/-- Continuation bytes are taken off the front, if there are any. -/
theorem length_finish_le (count bits : Nat) (rest : Bytes) :
    (finish count bits rest).2.length ≤ rest.length := by
  fun_induction finish count bits rest with
  | case1 => simp
  | case2 => simp
  | case3 count bits rest bits' rest' h ih =>
    have := length_of_continuation h
    simp only at this
    omega

/-- A character leaves at most what followed its first byte. -/
theorem length_next_le (lead : UInt8) (rest : Bytes) :
    (next lead rest).2.length ≤ rest.length := by
  rw [next]
  split
  · simp
  · split
    · simp
    · split
      · simp
      · rename_i h
        have := length_of_continuation h
        exact Nat.le_trans (length_finish_le _ _ _) (Nat.le_of_lt this)

/-- The characters of a byte string, one U+FFFD for each ill-formed piece, behind those
already read, which stand in reverse. -/
def lossyFrom (done : List Char) : Bytes → List Char
  | [] => done.reverse
  | lead :: rest =>
    let piece := next lead rest
    lossyFrom (piece.1.getD '\uFFFD' :: done) piece.2
termination_by b => b.length
decreasing_by
  have := length_next_le lead rest
  simp only [List.length_cons]
  omega

/-- The text that the bytes spell, with one U+FFFD for each ill-formed piece. -/
def lossy (b : Bytes) : String := String.ofList (lossyFrom [] b)

end RespStore.Utf8
