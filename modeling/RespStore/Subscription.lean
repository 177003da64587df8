import RespStore.Task

/-!
# Messages on channels

A channel is a key. Whatever creates or changes the key with a non-empty byte string is a
message on the channel, and goes to every connection that has a listener there. A message
waits in the mailbox of its connection, which has room for a fixed number of them; messages
that find it full are lost.
-/

namespace RespStore

/-- What a subscription listener's notices are addressed to: a connection, and the channel
that it registered the listener for. -/
structure Subscriber where
  /-- The number of the connection. -/
  client : Nat
  /-- The channel. -/
  channel : Bytes
  deriving Repr, DecidableEq

/-- A message on its way to a connection. -/
structure Delivery where
  /-- The channel it was published on. -/
  channel : Bytes
  /-- What was published. -/
  payload : Bytes
  deriving Repr, DecidableEq

/-- The message that a notice brings, if it brings one: the key must have been created or
modified, and hold a byte string now that is not empty. -/
def Notice.delivery? (notice : Notice Subscriber) : Option Delivery :=
  match notice.event.kind, notice.event.value with
  | .removed, _ => none
  | _, some (.bytes payload) =>
    if payload = [] then none else some ⟨notice.target.channel, payload⟩
  | _, _ => none

/-- The messages that wait for a connection, oldest first. -/
structure Mailbox where
  /-- How many messages can wait. -/
  capacity : Nat
  /-- The messages that wait. -/
  queued : List Delivery := []
  deriving Repr, DecidableEq

namespace Mailbox

/-- Whether no further message can wait. -/
def isFull (m : Mailbox) : Bool := m.capacity ≤ m.queued.length

/-- Adds a message, which is lost when the mailbox is full. -/
def offer (m : Mailbox) (d : Delivery) : Mailbox :=
  if m.isFull then m else { m with queued := m.queued ++ [d] }

/-- Takes the oldest message. -/
def take? (m : Mailbox) : Option (Delivery × Mailbox) :=
  match m.queued with
  | [] => none
  | d :: rest => some (d, { m with queued := rest })

/-- The mailbox without its messages. -/
def cleared (m : Mailbox) : Mailbox := { m with queued := [] }

end Mailbox

/-- The messages for one connection that a sequence of notices brings. -/
def deliveriesFor (client : Nat) (notices : List (Notice Subscriber)) : List Delivery :=
  (notices.filter fun notice => notice.target.client = client).filterMap Notice.delivery?

end RespStore
