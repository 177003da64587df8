import RespStore.Decimal.Real
import RespStore.Reply

/-!
# Replies on the wire

A reply is written as a sequence of pieces: a fixed text, a prefixed line, or a payload with
its length in front. Each piece states the room it needs before it is written, so that the
buffer it goes into can be chosen first; pieces are never split between buffers.

Error texts quote what clients sent. Their line breaks are written as spaces, so that an
error is always one line.
-/

namespace RespStore

/-- Bytes written in one go, and the room asked for them beforehand. -/
structure Piece where
  /-- How many bytes were asked for. -/
  size : Nat
  /-- The bytes written. -/
  bytes : Bytes
  deriving Repr, DecidableEq

namespace Piece

/-- A fixed text. -/
def raw (bytes : Bytes) : Piece := ⟨bytes.length, bytes⟩

/-- A line behind the byte that gives its type. -/
def line (type : UInt8) (content : Bytes) : Piece :=
  ⟨1 + content.length + 2, type :: content ++ Bytes.crlf⟩

/-- A payload behind its length. -/
def bulk (payload : Bytes) : Piece :=
  ⟨1 + Decimal.width payload.length + 2 + payload.length + 2,
    36 :: Decimal.digits payload.length ++ Bytes.crlf ++ payload ++ Bytes.crlf⟩

/-- The line `+OK`. -/
def ok : Piece := raw [43, 79, 75, 13, 10]

/-- The null payload, `$-1`. -/
def null : Piece := raw [36, 45, 49, 13, 10]

/-- The null array, `*-1`. -/
def nullArray : Piece := raw [42, 45, 49, 13, 10]

/-- The line that opens an array of `n` elements. -/
def arrayOf (n : Nat) : Piece := line 42 (Decimal.digits n)

/-- An integer. -/
def integer (value : Int64) : Piece := line 58 (Decimal.ofInt value.toInt)

/-- A count, as a 64-bit signed integer; counts from `2 ^ 63` on wrap around. -/
def count (n : Nat) : Piece := integer (.ofNat n)

/-- A character of an error text, as it is written. -/
def errorChar (c : Char) : Char := if c = '\r' ∨ c = '\n' then ' ' else c

/-- An error on one line. -/
def error (text : String) : Piece :=
  line 45 (Bytes.ofString (String.ofList (text.toList.map errorChar)))

end Piece

namespace MatchRange

/-- The pieces of a span: an array of its two ends. -/
def spanPieces (s : Span) : List Piece :=
  [.arrayOf 2, .count s.first, .count s.last]

/-- The pieces of a range: an array of two spans, and the length if it was asked for. -/
def pieces (r : MatchRange) : List Piece :=
  match r.length with
  | none => .arrayOf 2 :: spanPieces r.a ++ spanPieces r.b
  | some n => .arrayOf 3 :: spanPieces r.a ++ spanPieces r.b ++ [.count n]

end MatchRange

namespace Reply

mutual

/-- The pieces a reply is written in. -/
def pieces : Reply → List Piece
  | .ok => [.ok]
  | .simple text => [.line 43 (Bytes.ofString text)]
  | .error text => [.error text]
  | .integer value => [.integer value]
  | .double value => [.bulk (Bytes.ofString (Decimal.Real.text value))]
  | .bulk payload => [.bulk payload]
  | .null => [.null]
  | .nullArray => [.nullArray]
  | .array items => .arrayOf items.length :: piecesOfEach items
  | .alignment ranges total =>
    [.arrayOf 4, .bulk (Bytes.ofString "matches"), .arrayOf ranges.length] ++
      ranges.flatMap MatchRange.pieces ++ [.bulk (Bytes.ofString "len"), .count total]
  | .message channel payload =>
    [.arrayOf 3, .bulk (Bytes.ofString "message"), .bulk channel, .bulk payload]
  | .subscribed channel count =>
    [.arrayOf 3, .bulk (Bytes.ofString "subscribe"), .bulk channel, .count count]
  | .unsubscribed channel count =>
    [.arrayOf 3, .bulk (Bytes.ofString "unsubscribe"),
      channel.elim .null .bulk, .count count]
  | .many replies => piecesOfEach replies

/-- The pieces of several replies, one behind the other. -/
def piecesOfEach : List Reply → List Piece
  | [] => []
  | reply :: replies => pieces reply ++ piecesOfEach replies

end

/-- The bytes of a reply on the wire. -/
def encode (reply : Reply) : Bytes := reply.pieces.flatMap Piece.bytes

end Reply

end RespStore
