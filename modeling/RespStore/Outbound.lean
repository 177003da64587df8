import RespStore.Pile
import RespStore.Reply.Encoder

/-!
# The outbound buffer

Replies gather in a buffer between two flushes. Pieces are appended to the current chunk as
long as they fit; the first one that does not fit closes the chunk, which then waits behind
the chunks closed before, and opens a new one with room for the piece and at least for the
minimum size. A flush takes every chunk, oldest first; those behind a chunk that the writer
fails at are dropped.
-/

namespace RespStore

/-- A chunk that is still being filled. -/
structure Chunk where
  /-- The pieces that have been written into it. -/
  content : Pile
  /-- How many bytes it has room for. -/
  capacity : Nat
  deriving Repr, DecidableEq

namespace Chunk

/-- A chunk with nothing in it. -/
def empty (capacity : Nat) : Chunk := ⟨.empty, capacity⟩

/-- How many bytes still fit. -/
def room (k : Chunk) : Nat := k.capacity - k.content.size

/-- Appends one piece. -/
def put (k : Chunk) (piece : Piece) : Chunk := { k with content := k.content.add piece.bytes }

end Chunk

/-- Reply bytes between two flushes. -/
structure Outbound where
  /-- The least room given to a new chunk. -/
  minimum : Nat
  /-- Chunks that are closed. -/
  closed : Pile
  /-- The chunk that is being filled. -/
  current : Option Chunk
  deriving Repr, DecidableEq

namespace Outbound

/-- A buffer with nothing in it. -/
def empty (minimum : Nat) : Outbound := ⟨minimum, .empty, none⟩

/-- What is in the chunk that is being filled. -/
def filling (o : Outbound) : Pile := (o.current.map Chunk.content).getD .empty

/-- The closed chunks once the current one is closed as well. A chunk without bytes is
dropped. -/
def sealed (o : Outbound) : Pile :=
  if o.filling.size = 0 then o.closed else o.closed.add o.filling.bytes

/-- Every chunk, oldest first. -/
def chunks (o : Outbound) : List Bytes := o.sealed.toList

/-- Every byte in the buffer, in the order of writing. -/
def pending (o : Outbound) : Bytes := o.closed.bytes ++ o.filling.bytes

/-- The number of bytes in the buffer. -/
def readable (o : Outbound) : Nat := o.closed.size + o.filling.size

/-- The bytes that are counted are those that are pending. -/
theorem length_pending (o : Outbound) : o.pending.length = o.readable := by
  simp [pending, readable]

/-- The chunks hold what is pending. -/
theorem flatten_chunks (o : Outbound) : o.chunks.flatten = o.pending := by
  change o.sealed.bytes = o.closed.bytes ++ o.filling.bytes
  rw [sealed]
  split
  · rename_i h
    rw [← Pile.length_bytes, List.length_eq_zero_iff] at h
    rw [h, List.append_nil]
  · rw [Pile.bytes_add]

/-- Whether no byte waits in the buffer. -/
def isEmpty (o : Outbound) : Bool := o.readable = 0

/-- Appends one piece to a new chunk. -/
def putNew (o : Outbound) (piece : Piece) : Outbound :=
  { o with
    closed := o.sealed
    current := some ((Chunk.empty (max piece.size o.minimum)).put piece) }

/-- Appends one piece: to the current chunk if it has room for it, else to a new one. -/
def put (o : Outbound) (piece : Piece) : Outbound :=
  match o.current with
  | none => o.putNew piece
  | some chunk =>
    if piece.size ≤ chunk.room then { o with current := some (chunk.put piece) }
    else o.putNew piece

/-- Appends a reply, piece by piece. -/
def push (o : Outbound) (reply : Reply) : Outbound := reply.pieces.foldl put o

/-- The buffer once its chunks have been taken, whether they were all written or not. -/
def cleared (o : Outbound) : Outbound := empty o.minimum

/-- What a writer makes of a chunk: it takes the whole of it, or it fails once it has taken so
many of its bytes. -/
inductive Outcome where
  /-- The chunk was written. -/
  | taken
  /-- The writer failed. -/
  | failed (bytes : Nat)
  deriving Repr, DecidableEq

/-- What a writer makes of what a flush asks of it. -/
structure Writer where
  /-- What it makes of the chunk that comes behind so many others. -/
  offered : Nat → Outcome
  /-- Whether it can be flushed in the end. -/
  syncs : Bool

/-- What a flush does to the writer. -/
structure Flush where
  /-- The chunks that were written. -/
  written : List Bytes
  /-- What the writer took of the chunk that it failed at. -/
  torn : Bytes
  /-- Whether the writer was asked to flush in the end. -/
  synced : Bool
  /-- Whether the writer failed. -/
  failed : Bool
  deriving Repr, DecidableEq

/-- Writes chunks behind the `n` ones before them, until there are none left or the writer fails,
and flushes the writer if it has taken them all. -/
def Writer.writeEach (writer : Writer) (n : Nat) : List Bytes → Flush
  | [] => ⟨[], [], true, !writer.syncs⟩
  | chunk :: chunks =>
    match writer.offered n with
    | .failed bytes => ⟨[], chunk.take bytes, false, true⟩
    | .taken =>
      let done := writer.writeEach (n + 1) chunks
      { done with written := chunk :: done.written }

/-- Flushes into a writer. Nothing is asked of the writer when the buffer holds nothing. -/
def flushInto (o : Outbound) (writer : Writer) : Flush × Outbound :=
  (if o.chunks.isEmpty then ⟨[], [], false, false⟩ else writer.writeEach 0 o.chunks, o.cleared)

/-- A writer that takes nothing more once it has taken `limit` chunks, or never fails. -/
def Writer.upTo (limit : Option Nat) : Writer :=
  ⟨fun n => if limit = some n then .failed 0 else .taken, true⟩

/-- Flushes into a writer that fails once it has taken `limit` chunks, or never. -/
def flush (o : Outbound) (limit : Option Nat) : Flush × Outbound := o.flushInto (.upTo limit)

end Outbound

end RespStore
