import RespStore.Proofs.Wire.Reading
import RespStore.Reply.Encoder

/-!
# Replies read back

What the encoder writes, the parser reads. `Reply.frames` gives the frames that a client makes
of a reply, and `Reply.WellFramed` says what it takes: a line of text has no break inside,
whatever is announced by its length can be counted in a 64-bit signed integer, and no element
of an array is more than one frame. An error needs nothing, since its breaks are taken out
when it is written.

The main result is `Reply.reads_encode`: a well-framed reply is read frame by frame, and
whatever follows it is left.
-/

namespace RespStore

namespace Frame

/-! ### Lines and lengths -/

/-- A text without a break reads back as a line. -/
theorem textLine?_ofString {text : String} (h : ¬ (Bytes.ofString text).HasBreak) (rest : Bytes) :
    textLine? (Bytes.ofString text ++ 13 :: 10 :: rest) = .ok (text, rest) := by
  simp only [textLine?, line?_append h, Except.bind, Bytes.toString?_ofString]

/-- A 64-bit signed integer reads back as a line. -/
theorem integerLine?_ofInt (fault : ParseError) (value : Int64) (rest : Bytes) :
    integerLine? fault (Decimal.ofInt value.toInt ++ 13 :: 10 :: rest) = .ok (value, rest) := by
  obtain ⟨text, htext⟩ := Decimal.toString?_ofInt value.toInt
  simp only [integerLine?, line?_append (Decimal.not_hasBreak_ofInt _), Except.bind, htext,
    Decimal.readInt64?_ofInt]

/-- A length that a 64-bit signed integer can count reads back. -/
theorem lengthLine?_digits {n : Nat} (h : n < 2 ^ 63) (rest : Bytes) :
    lengthLine? (Decimal.digits n ++ 13 :: 10 :: rest) = .ok (some n, rest) := by
  have hvalue : (Int64.ofNat n).toInt = n := Int64.toInt_ofNat_of_lt h
  have hnull : Int64.ofNat n ≠ -1 := by
    intro heq
    have := congrArg Int64.toInt heq
    rw [hvalue] at this
    simp at this
  have hnegative : ¬ Int64.ofNat n < 0 := by
    rw [Int64.lt_iff_toInt_lt, hvalue]
    simp
  have hinteger : integerLine? .badLength (Decimal.digits n ++ 13 :: 10 :: rest) =
      .ok (Int64.ofNat n, rest) := by
    rw [Decimal.digits_eq_ofInt, ← hvalue]
    exact integerLine?_ofInt .badLength _ rest
  simp only [lengthLine?, hinteger, Except.bind, hnull, hnegative, if_false]
  rw [Int64.toNatClampNeg, hvalue, Int.toNat_natCast]

/-- A payload reads back by its length, whatever it holds. -/
theorem payload?_append (payload rest : Bytes) :
    payload? payload.length (payload ++ 13 :: 10 :: rest) = .ok (payload, rest) := by
  simp only [payload?, List.drop_left, List.take_left]

end Frame

/-! ### Pieces -/

namespace Piece

open RespStore.Frame

/-- A text without a break reads back as a simple string. -/
theorem parse?_line_simple {text : String} (h : ¬ (Bytes.ofString text).HasBreak) (rest : Bytes) :
    parse? ((line 43 (Bytes.ofString text)).bytes ++ rest) = .ok (.simple text, rest) := by
  simp only [line, Bytes.crlf, List.cons_append, List.append_assoc, List.nil_append]
  rw [parse?_simple, textLine?_ofString h, Except.map]

/-- The text of an error as it is read back. -/
def oneLine (text : String) : String := String.ofList (text.toList.map errorChar)

/-- The text of an error has no break once it is one line. -/
theorem not_hasBreak_oneLine (text : String) : ¬ (Bytes.ofString (oneLine text)).HasBreak := by
  refine Bytes.not_hasBreak_ofString ?_
  rw [oneLine, String.toList_ofList, List.mem_map]
  rintro ⟨c, -, hc⟩
  rw [errorChar] at hc
  split at hc
  · exact absurd hc (by decide)
  · rename_i hplain
    exact hplain (.inl hc)

/-- An error reads back as its text in one line. -/
theorem parse?_error (text : String) (rest : Bytes) :
    parse? ((error text).bytes ++ rest) = .ok (.error (oneLine text), rest) := by
  simp only [error, line, Bytes.crlf, List.cons_append, List.append_assoc, List.nil_append]
  rw [Frame.parse?_error, ← oneLine, textLine?_ofString (not_hasBreak_oneLine text), Except.map]

/-- A 64-bit signed integer reads back. -/
theorem parse?_integer (value : Int64) (rest : Bytes) :
    parse? ((integer value).bytes ++ rest) = .ok (.integer value, rest) := by
  simp only [integer, line, Bytes.crlf, List.cons_append, List.append_assoc, List.nil_append]
  rw [Frame.parse?_integer, integerLine?_ofInt, Except.map]

/-- A byte string reads back if its length can be counted. -/
theorem parse?_bulk {payload : Bytes} (h : payload.length < 2 ^ 63) (rest : Bytes) :
    parse? ((bulk payload).bytes ++ rest) = .ok (.bulk payload, rest) := by
  simp only [bulk, Bytes.crlf, List.cons_append, List.append_assoc, List.nil_append]
  rw [Frame.parse?_bulk, lengthLine?_digits h]
  simp only [Except.bind, payload?_append, Except.map]

/-- The length of what is missing reads back as none. -/
theorem lengthLine?_none (rest : Bytes) :
    lengthLine? (45 :: 49 :: 13 :: 10 :: rest) = .ok (none, rest) := by
  have hdecimal : ([45, 49] : Bytes) = Decimal.ofInt (-1 : Int64).toInt := by
    have : (-1 : Int64).toInt = -1 := by decide
    rw [this, Decimal.ofInt, if_pos (by decide), Int.natAbs_neg, Int.natAbs_one, Decimal.digits,
      if_pos (by decide)]
    rfl
  have hinteger := integerLine?_ofInt .badLength (-1) rest
  rw [← hdecimal] at hinteger
  simp only [List.cons_append, List.nil_append] at hinteger
  simp only [lengthLine?, hinteger, Except.bind, if_true]

/-- A missing value reads back as null. -/
theorem parse?_null (rest : Bytes) : parse? (null.bytes ++ rest) = .ok (.null, rest) := by
  simp only [null, raw, List.cons_append, List.nil_append]
  rw [Frame.parse?_bulk, lengthLine?_none, Except.bind]

/-- A missing list reads back as null. -/
theorem parse?_nullArray (rest : Bytes) : parse? (nullArray.bytes ++ rest) = .ok (.null, rest) := by
  simp only [nullArray, raw, List.cons_append, List.nil_append]
  rw [parse?_array, lengthLine?_none, Except.bind]

/-- The line that opens an array, with the elements of the array behind it. -/
theorem parse?_arrayOf {items : List Frame} {input rest : Bytes} (h : Reads input items rest)
    (hlength : items.length < 2 ^ 63) :
    parse? ((arrayOf items.length).bytes ++ input) = .ok (.array items, rest) := by
  simp only [arrayOf, line, Bytes.crlf, List.cons_append, List.append_assoc, List.nil_append]
  rw [parse?_array, lengthLine?_digits hlength]
  simp only [Except.bind, parseMany?_eq_ok_iff.mpr ⟨rfl, h⟩, Except.map]

end Piece

/-! ### Replies -/

namespace MatchRange

/-- The frame that a span is read as. -/
def spanFrame (s : Span) : Frame := .array [.integer (.ofNat s.first), .integer (.ofNat s.last)]

/-- The frame that a range is read as. -/
def frame (r : MatchRange) : Frame :=
  match r.length with
  | none => .array [spanFrame r.a, spanFrame r.b]
  | some n => .array [spanFrame r.a, spanFrame r.b, .integer (.ofNat n)]

end MatchRange

namespace Reply

mutual

/-- The frames that a client makes of a reply. -/
def frames : Reply → List Frame
  | .ok => [.simple "OK"]
  | .simple text => [.simple text]
  | .error text => [.error (Piece.oneLine text)]
  | .integer value => [.integer value]
  | .double value => [.bulk (Bytes.ofString (Decimal.Real.text value))]
  | .bulk payload => [.bulk payload]
  | .null => [.null]
  | .nullArray => [.null]
  | .array items => [.array (framesOfEach items)]
  | .alignment ranges total =>
    [.array [.bulk (Bytes.ofString "matches"), .array (ranges.map MatchRange.frame),
      .bulk (Bytes.ofString "len"), .integer (.ofNat total)]]
  | .message channel payload =>
    [.array [.bulk (Bytes.ofString "message"), .bulk channel, .bulk payload]]
  | .subscribed channel count =>
    [.array [.bulk (Bytes.ofString "subscribe"), .bulk channel, .integer (.ofNat count)]]
  | .unsubscribed channel count =>
    [.array [.bulk (Bytes.ofString "unsubscribe"), channel.elim .null .bulk,
      .integer (.ofNat count)]]
  | .many replies => framesOfEach replies

/-- The frames of several replies, one behind the other. -/
def framesOfEach : List Reply → List Frame
  | [] => []
  | reply :: replies => frames reply ++ framesOfEach replies

end

mutual

/-- Whether the pieces of a reply fit together as frames. -/
def WellFramed : Reply → Prop
  | .simple text => ¬ (Bytes.ofString text).HasBreak
  | .double value => (Bytes.ofString (Decimal.Real.text value)).length < 2 ^ 63
  | .bulk payload => payload.length < 2 ^ 63
  | .array items =>
    items.length < 2 ^ 63 ∧ (framesOfEach items).length = items.length ∧ EachWellFramed items
  | .alignment ranges _ => ranges.length < 2 ^ 63
  | .message channel payload => channel.length < 2 ^ 63 ∧ payload.length < 2 ^ 63
  | .subscribed channel _ => channel.length < 2 ^ 63
  | .unsubscribed channel _ => ∀ name ∈ channel, name.length < 2 ^ 63
  | .many replies => EachWellFramed replies
  | _ => True

/-- Whether each of several replies is well-framed. -/
def EachWellFramed : List Reply → Prop
  | [] => True
  | reply :: replies => reply.WellFramed ∧ EachWellFramed replies

end

end Reply

/-! ### Pieces that are read as frames -/

/-- Whether pieces are read as the given frames, whatever follows them. -/
def Piece.Spell (pieces : List Piece) (frames : List Frame) : Prop :=
  ∀ rest, Frame.Reads (pieces.flatMap Piece.bytes ++ rest) frames rest

namespace Piece.Spell

theorem nil : Spell [] [] := fun _ => rfl

/-- Pieces one behind the other are read as frames one behind the other. -/
theorem append {pieces pieces' : List Piece} {frames frames' : List Frame}
    (h : Spell pieces frames) (h' : Spell pieces' frames') :
    Spell (pieces ++ pieces') (frames ++ frames') := by
  intro rest
  rw [List.flatMap_append, List.append_assoc]
  exact (h _).append (h' rest)

/-- A piece that is read as a frame, whatever follows it, spells that frame. -/
theorem single {piece : Piece} {frame : Frame}
    (h : ∀ rest, Frame.parse? (piece.bytes ++ rest) = .ok (frame, rest)) :
    Spell [piece] [frame] := by
  intro rest
  rw [List.flatMap_cons, List.flatMap_nil, List.append_nil]
  exact ⟨rest, h rest, rfl⟩

/-- Pieces behind the line that opens an array are the elements of that array. -/
theorem array {n : Nat} {pieces : List Piece} {items : List Frame} (h : Spell pieces items)
    (hlength : items.length = n) (hn : n < 2 ^ 63) :
    Spell (arrayOf n :: pieces) [.array items] := by
  subst hlength
  intro rest
  rw [List.flatMap_cons, List.append_assoc]
  exact ⟨rest, parse?_arrayOf (h rest) hn, rfl⟩

/-- A byte string whose length can be counted spells itself. -/
theorem bulk {payload : Bytes} (h : payload.length < 2 ^ 63) :
    Spell [Piece.bulk payload] [.bulk payload] :=
  single (parse?_bulk h)

/-- A count spells the integer that it is in 64 bits. -/
theorem count (n : Nat) : Spell [Piece.count n] [.integer (.ofNat n)] :=
  single (parse?_integer _)

/-- Ranges spell one array each. -/
theorem ranges (ranges : List MatchRange) :
    Spell (ranges.flatMap MatchRange.pieces) (ranges.map MatchRange.frame) := by
  have hspan : ∀ s : Span, Spell (MatchRange.spanPieces s) [MatchRange.spanFrame s] :=
    fun s => array ((count s.first).append (count s.last)) rfl (by decide)
  induction ranges with
  | nil => exact nil
  | cons r ranges ih =>
      rw [List.flatMap_cons, List.map_cons]
      refine append (?_ : Spell r.pieces [r.frame]) ih
      rw [MatchRange.pieces, MatchRange.frame]
      cases r.length with
      | none => exact array ((hspan r.a).append (hspan r.b)) rfl (by decide)
      | some n =>
          exact array (((hspan r.a).append (hspan r.b)).append (count n)) rfl (by decide)

end Piece.Spell

namespace Reply

open RespStore.Piece (Spell)

mutual

/-- The pieces of a well-framed reply are read as its frames. -/
theorem spell_pieces : (reply : Reply) → reply.WellFramed → Spell reply.pieces reply.frames
  | .ok, _ => .single (@Piece.parse?_line_simple "OK" (by decide))
  | .simple _, h => .single (Piece.parse?_line_simple h)
  | .error text, _ => .single (Piece.parse?_error text)
  | .integer value, _ => .single (Piece.parse?_integer value)
  | .double _, h => .bulk h
  | .bulk _, h => .bulk h
  | .null, _ => .single Piece.parse?_null
  | .nullArray, _ => .single Piece.parse?_nullArray
  | .array items, h => by
      obtain ⟨hlength, hframes, heach⟩ := h
      exact .array (spell_piecesOfEach items heach) hframes hlength
  | .alignment ranges total, h => by
      have hranges : Spell (.arrayOf ranges.length :: ranges.flatMap MatchRange.pieces)
          [.array (ranges.map MatchRange.frame)] :=
        .array (.ranges ranges) (List.length_map _) h
      have hmatches : Spell [.bulk (Bytes.ofString "matches")] [.bulk (Bytes.ofString "matches")] :=
        .bulk (by decide)
      have hlen : Spell [.bulk (Bytes.ofString "len")] [.bulk (Bytes.ofString "len")] :=
        .bulk (by decide)
      have hpieces : (Reply.alignment ranges total).pieces =
          .arrayOf 4 :: ([.bulk (Bytes.ofString "matches")] ++
            (.arrayOf ranges.length :: ranges.flatMap MatchRange.pieces) ++
            [.bulk (Bytes.ofString "len")] ++ [.count total]) := by
        simp only [pieces, List.cons_append, List.nil_append, List.append_assoc]
      rw [hpieces]
      exact .array (((hmatches.append hranges).append hlen).append (.count total)) rfl (by decide)
  | .message channel payload, h => by
      have hkind : Spell [.bulk (Bytes.ofString "message")] [.bulk (Bytes.ofString "message")] :=
        .bulk (by decide)
      exact .array ((hkind.append (.bulk h.1)).append (.bulk h.2)) rfl (by decide)
  | .subscribed channel n, h => by
      have hkind : Spell [.bulk (Bytes.ofString "subscribe")]
          [.bulk (Bytes.ofString "subscribe")] := .bulk (by decide)
      exact .array ((hkind.append (.bulk h)).append (.count n)) rfl (by decide)
  | .unsubscribed channel n, h => by
      have hkind : Spell [.bulk (Bytes.ofString "unsubscribe")]
          [.bulk (Bytes.ofString "unsubscribe")] := .bulk (by decide)
      have hchannel : Spell [channel.elim .null .bulk] [channel.elim .null .bulk] := by
        cases channel with
        | none => exact .single Piece.parse?_null
        | some name => exact .bulk (h name rfl)
      exact .array ((hkind.append hchannel).append (.count n)) rfl (by decide)
  | .many replies, h => spell_piecesOfEach replies h

/-- Well-framed replies one behind the other are read as their frames. -/
theorem spell_piecesOfEach : (replies : List Reply) → EachWellFramed replies →
    Spell (piecesOfEach replies) (framesOfEach replies)
  | [], _ => .nil
  | reply :: replies, h => (spell_pieces reply h.1).append (spell_piecesOfEach replies h.2)

end

/-- A well-framed reply is read frame by frame, and whatever follows it is left. -/
theorem reads_encode {reply : Reply} (h : reply.WellFramed) (rest : Bytes) :
    Frame.Reads (reply.encode ++ rest) reply.frames rest :=
  spell_pieces reply h rest

end Reply

end RespStore
