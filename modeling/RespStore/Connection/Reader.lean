import RespStore.Request.Decoder

/-!
# What a connection reads

The client's input arrives in chunks of any size, until it ends or fails. The reader moves
arrived bytes into its buffer, but only when the buffer holds no complete request, and never
more than one chunk, nor more bytes than the buffer has room for. Input that ends inside a
request is an error.

The buffer lies in a space of limited extent. Requests are taken off its front, which leaves
a gap there. When the space behind the buffer is used up, the buffer moves to the front of
its space if the gap is at least as long as the buffer itself; otherwise the space grows.
-/

namespace RespStore

/-- Something that arrives from the client. -/
inductive Arrival where
  /-- Some bytes. -/
  | chunk (bytes : Bytes)
  /-- The end of the input. -/
  | finish
  /-- The input fails. -/
  | reset
  deriving Repr, DecidableEq

/-- The bytes that arrive. -/
def Arrival.bytes : Arrival → Bytes
  | .chunk bytes => bytes
  | _ => []

/-- Why the reader cannot go on. -/
inductive ReadError where
  /-- The bytes are not a request. -/
  | decode (cause : Request.DecodeError)
  /-- The input ends inside a request. -/
  | leftover
  /-- The input failed. -/
  | reset
  deriving Repr, DecidableEq

/-- The text that reports a read error. -/
def ReadError.message : ReadError → String
  | .decode cause => cause.message
  | .leftover => "bytes remaining on stream"
  | .reset => "connection reset"

/-- The input of a connection: what is buffered, and what has arrived but is not read yet. -/
structure Reader where
  /-- Bytes that were read and belong to no request taken so far. -/
  buffer : Buffer := .empty
  /-- How many bytes lie unused in front of them. -/
  gap : Nat := 0
  /-- The extent of the space that gap and buffer lie in. -/
  extent : Nat := 8192
  /-- What has arrived behind the buffer, oldest first. -/
  arrivals : List Arrival := []
  deriving Repr, DecidableEq

namespace Reader

/-- What the reader finds, when it does not have to wait. -/
inductive Found where
  /-- The next request. -/
  | request (request : Request)
  /-- The end of the input. -/
  | finished
  /-- An error. -/
  | failed (cause : ReadError)
  deriving Repr, DecidableEq

/-- How many bytes fit behind the buffer. -/
def room (r : Reader) : Nat := r.extent - (r.gap + r.buffer.size)

/-- Sees to it that at least one byte fits behind the buffer. -/
def makeRoom (r : Reader) : Reader :=
  if 0 < r.room then r
  else if r.buffer.size < r.extent ∧ r.buffer.size ≤ r.gap then { r with gap := 0 }
  else { r with extent := max (2 * r.extent) (r.gap + r.buffer.size + 1) }

/-- There is room for at least one byte, once room has been made. -/
theorem room_makeRoom_pos (r : Reader) : 0 < r.makeRoom.room := by
  rw [makeRoom]
  split
  · assumption
  · split
    · simp only [room]
      omega
    · simp only [room]
      omega

/-- The buffer once a request has been taken off, which widens the gap. -/
def leave (r : Reader) (left : Buffer) : Reader :=
  { r with buffer := left, gap := r.gap + (r.buffer.size - left.size) }

/-- Moves the front of a chunk into the buffer, as far as there is room. What does not fit is
still the first to come. -/
def takeIn (r : Reader) (bytes : Bytes) (arrivals : List Arrival) : Reader :=
  let r := r.makeRoom
  let left := bytes.drop r.room
  { r with
    buffer := r.buffer.append (bytes.take r.room)
    arrivals := if left = [] then arrivals else .chunk left :: arrivals }

/-- The bytes that have arrived and belong to no request taken so far. -/
def unread (r : Reader) : Bytes := r.buffer.bytes ++ r.arrivals.flatMap Arrival.bytes

/-- Making room leaves the buffer as it is. -/
theorem buffer_makeRoom (r : Reader) : r.makeRoom.buffer = r.buffer := by
  rw [makeRoom]
  split
  · rfl
  · split <;> rfl

/-- Reading moves bytes and loses none. -/
theorem unread_takeIn {r : Reader} {bytes : Bytes} {arrivals : List Arrival}
    (h : r.arrivals = .chunk bytes :: arrivals) : (r.takeIn bytes arrivals).unread = r.unread := by
  have hrest : (if bytes.drop r.makeRoom.room = [] then arrivals
      else .chunk (bytes.drop r.makeRoom.room) :: arrivals).flatMap Arrival.bytes =
      bytes.drop r.makeRoom.room ++ arrivals.flatMap Arrival.bytes := by
    split
    · rename_i hleft
      rw [hleft, List.nil_append]
    · rfl
  simp only [unread, takeIn, hrest, buffer_makeRoom, h, Buffer.append, List.flatMap_cons,
    Arrival.bytes]
  rw [List.append_assoc, ← List.append_assoc (bytes.take _), List.take_append_drop]

/-- A measure of what has arrived. -/
def pending : List Arrival → Nat
  | [] => 0
  | .chunk bytes :: arrivals => bytes.length + 1 + pending arrivals
  | _ :: arrivals => 1 + pending arrivals

/-- Taking in a chunk leaves less to be read, be it by one byte. -/
theorem pending_takeIn_lt (r : Reader) (bytes : Bytes) (arrivals : List Arrival) :
    pending (r.takeIn bytes arrivals).arrivals < pending (.chunk bytes :: arrivals) := by
  have h := r.room_makeRoom_pos
  simp only [takeIn, pending]
  split
  · omega
  · rename_i hleft
    have := List.length_pos_iff.mpr hleft
    simp only [pending, List.length_drop] at *
    omega

/-- Looks for the next request, reading on as long as that helps. Finds nothing when it has to
wait for more input. -/
def poll (limit : Nat) (r : Reader) : Option Found × Reader :=
  match Request.decode limit r.buffer with
  | (.error cause, left) => (some (.failed (.decode cause)), r.leave left)
  | (.ok (some request), left) => (some (.request request), r.leave left)
  | (.ok none, _) =>
    match h : r.arrivals with
    | [] => (none, r)
    | .chunk bytes :: arrivals =>
      have : pending (r.takeIn bytes arrivals).arrivals < pending r.arrivals :=
        h ▸ r.pending_takeIn_lt bytes arrivals
      poll limit (r.takeIn bytes arrivals)
    | .finish :: arrivals =>
      (some (if r.buffer.size = 0 then .finished else .failed .leftover), { r with arrivals })
    | .reset :: arrivals => (some (.failed .reset), { r with arrivals })
termination_by pending r.arrivals

/-- Notes an arrival. A chunk without bytes is none. -/
def arrive (r : Reader) (a : Arrival) : Reader :=
  if a = .chunk [] then r else { r with arrivals := r.arrivals ++ [a] }

end Reader

end RespStore
