import RespStore.Decimal.Integer
import RespStore.Text.Utf8

/-!
# Frames

A frame is one value of the wire format as a client sends it: a line of text, an integer, a
length-prefixed payload, a null, or an array of frames. `Frame.display` is the one-line form
used when a frame is shown to a person, and `Frame.weight` counts the nodes of a frame.
-/

namespace RespStore

/-- One value of the wire format. -/
inductive Frame where
  /-- A line of text. -/
  | simple (text : String)
  /-- A line of text that reports an error. -/
  | error (text : String)
  /-- A 64-bit signed integer. -/
  | integer (value : Int64)
  /-- A payload of any bytes. -/
  | bulk (payload : Bytes)
  /-- An absent value. -/
  | null
  /-- A sequence of frames. -/
  | array (items : List Frame)
  deriving Repr, Inhabited, BEq

namespace Frame

mutual

/-- The number of nodes of a frame, arrays included. -/
def weight : Frame → Nat
  | .array items => weights items + 1
  | _ => 1

/-- The number of nodes of a sequence of frames. -/
def weights : List Frame → Nat
  | [] => 0
  | item :: items => weight item + weights items

end

mutual

/-- The one-line form of a frame: its type byte, then its content; the elements of an array
follow its length, each behind a space. -/
def display : Frame → String
  | .simple text => "+" ++ text
  | .error text => "-" ++ text
  | .integer value => ":" ++ Decimal.text value.toInt
  | .bulk payload => "$" ++ Utf8.lossy payload
  | .null => "$-1"
  | .array items => "*" ++ Decimal.text items.length ++ displayEach items

/-- The one-line forms of the elements of an array, each behind a space. -/
def displayEach : List Frame → String
  | [] => ""
  | item :: items => " " ++ display item ++ displayEach items

end

/-- Why no frame could be read off the front of a byte string. -/
inductive ParseError where
  /-- The bytes end before the frame does. More input can still complete it. -/
  | incomplete
  /-- No frame starts with this byte. -/
  | unknownType (byte : UInt8)
  /-- The line of an integer is not a 64-bit signed integer. -/
  | badInteger
  /-- A length header is not an integer, or is negative and not the null marker. -/
  | badLength
  /-- A line is not well-formed UTF-8. -/
  | notText
  /-- A payload is not followed by the end of a line. -/
  | unterminated
  deriving Repr, DecidableEq

/-- The text that reports a parse error. -/
def ParseError.message : ParseError → String
  | .incomplete => "not enough data is available to parse an entire frame"
  | .unknownType byte => "Protocol error: invalid frame data type " ++ Decimal.text byte.toNat
  | .badInteger => "Protocol error: invalid integer"
  | .badLength => "Protocol error: invalid length"
  | .notText => "Protocol error: invalid frame format"
  | .unterminated => "Protocol error: bulk string is not terminated by CRLF"

end Frame

end RespStore
