import RespStore.Bytes
import RespStore.Span

/-!
# Replies

What a request is answered with, before it is put on the wire. Most replies are one value; a
request that names several channels is answered with one acknowledgement for each, which
`Reply.many` holds together.
-/

namespace RespStore

/-- Where two byte strings hold the same run of bytes. -/
structure MatchRange where
  /-- The run in the first byte string. -/
  a : Span
  /-- The run in the second byte string. -/
  b : Span
  /-- The length of the run, when it was asked for. -/
  length : Option Nat
  deriving Repr, DecidableEq

/-- The answer to a request, and the messages sent to subscribers. -/
inductive Reply where
  /-- Acknowledges a request that has nothing else to say. -/
  | ok
  /-- A line of text. -/
  | simple (text : String)
  /-- Reports an error; the text starts with the error's code. -/
  | error (text : String)
  /-- A 64-bit signed integer. -/
  | integer (value : Int64)
  /-- A double. -/
  | double (value : Float)
  /-- A payload of any bytes. -/
  | bulk (payload : Bytes)
  /-- An absent value. -/
  | null
  /-- An absent sequence. -/
  | nullArray
  /-- A sequence of values. -/
  | array (items : List Reply)
  /-- Where two byte strings match, and how many bytes match in total. -/
  | alignment (ranges : List MatchRange) (total : Nat)
  /-- A message published on a channel. -/
  | message (channel payload : Bytes)
  /-- Acknowledges a subscription, with the number of subscriptions now held. -/
  | subscribed (channel : Bytes) (count : Nat)
  /-- Acknowledges the end of a subscription, with the number of subscriptions left. The
  channel is absent when there was none to leave. -/
  | unsubscribed (channel : Option Bytes) (count : Nat)
  /-- Several replies to one request, one behind the other. -/
  | many (replies : List Reply)
  deriving Repr, Inhabited, BEq

namespace Reply

/-- A payload, or null when there is none. -/
def optional : Option Bytes → Reply
  | none => .null
  | some payload => .bulk payload

/-- A sequence of payloads. -/
def bulks (payloads : List Bytes) : Reply := .array (payloads.map .bulk)

/-- A count, as the integer that goes on the wire. Counts from `2 ^ 63` on wrap around. -/
def count (n : Nat) : Reply := .integer (.ofNat n)

end Reply

end RespStore
