import RespStore.Frame.Parser
import RespStore.Request

/-!
# Requests off a growing buffer

Input arrives in chunks that are appended to a buffer, which knows how many bytes it holds.
`Request.decode` takes the first request off the buffer, if all of it is there. It looks at
the whole buffer first and refuses one that holds more bytes than the limit. A frame that is
complete is consumed even when it is no request; a malformed or unfinished one stays.
-/

namespace RespStore

/-- Bytes that belong to no request taken so far. -/
structure Buffer where
  /-- The bytes. -/
  bytes : Bytes
  /-- How many they are. -/
  size : Nat
  /-- The size is that of the bytes. -/
  length_bytes : bytes.length = size
  deriving Repr, DecidableEq

namespace Buffer

/-- No bytes. -/
def empty : Buffer := ⟨[], 0, rfl⟩

/-- The buffer with some bytes more at its end. -/
def append (b : Buffer) (bytes : Bytes) : Buffer :=
  ⟨b.bytes ++ bytes, b.size + bytes.length, by rw [List.length_append, b.length_bytes]⟩

/-- What is left behind a reading. -/
def after (b : Buffer) {α : Type} (r : Frame.Read α b.bytes) : Buffer :=
  ⟨r.rest, b.size - r.taken, by
    have := r.length_rest_add
    have := b.length_bytes
    omega⟩

/-- A reading leaves fewer bytes. -/
theorem size_after_lt (b : Buffer) {α : Type} (r : Frame.Read α b.bytes) :
    (b.after r).size < b.size := by
  have h₁ := r.shorter
  have h₂ := (b.after r).length_bytes
  have h₃ := b.length_bytes
  simp only [after] at h₂ ⊢
  omega

end Buffer

namespace Request

/-- Why the front of the buffer yields no request, now or later. -/
inductive DecodeError where
  /-- The buffer holds more bytes than a request may have. -/
  | tooLarge
  /-- The bytes are not a frame. -/
  | malformed (cause : Frame.ParseError)
  /-- The frame is not a request. -/
  | misshapen (cause : ShapeError)
  deriving Repr, DecidableEq

/-- The text that reports a decoding error. -/
def DecodeError.message : DecodeError → String
  | .tooLarge => "Protocol error: frame size exceeds limit"
  | .malformed cause => cause.message
  | .misshapen cause => cause.message

/-- Takes the first request off the buffer. Answers nothing while the buffer ends inside the
first frame, and in any case what stays in the buffer. -/
def decode (limit : Nat) (buffer : Buffer) : Except DecodeError (Option Request) × Buffer :=
  if buffer.size > limit then (.error .tooLarge, buffer)
  else
    match Frame.parse buffer.bytes with
    | .error .incomplete => (.ok none, buffer)
    | .error cause => (.error (.malformed cause), buffer)
    | .ok read =>
      match ofFrame read.value with
      | .error cause => (.error (.misshapen cause), buffer.after read)
      | .ok request => (.ok (some request), buffer.after read)

/-- A request that is decoded leaves fewer bytes. -/
theorem size_decode_lt {limit : Nat} {buffer left : Buffer} {request : Request}
    (h : decode limit buffer = (.ok (some request), left)) : left.size < buffer.size := by
  rw [decode] at h
  split at h
  · simp at h
  · split at h
    · simp at h
    · simp at h
    · rename_i read _
      split at h
      · simp at h
      · simp only [Prod.mk.injEq] at h
        exact h.2 ▸ buffer.size_after_lt read

/-- Takes every request off the buffer that it holds in full. Answers the requests, the
error that ended them, if one did, and what stays in the buffer. -/
def decodeAll (limit : Nat) (buffer : Buffer) : List Request × Option DecodeError × Buffer :=
  match _h : decode limit buffer with
  | (.error cause, left) => ([], some cause, left)
  | (.ok none, left) => ([], none, left)
  | (.ok (some request), left) =>
    let (requests, fault, left') := decodeAll limit left
    (request :: requests, fault, left')
termination_by buffer.size
decreasing_by exact size_decode_lt (by assumption)

end Request

end RespStore
