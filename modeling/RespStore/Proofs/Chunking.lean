import RespStore.Proofs.Connection.Reader
import RespStore.Proofs.Wire.Consumption

/-!
# A buffer that is fed in chunks

Input comes in chunks. Each is appended to a buffer, and then requests are taken off the buffer
until it holds no whole one, or until there is an error. How the input was cut cannot be told from
what comes of it.

* `Request.drain` takes requests off a buffer, and `Request.feed` does so chunk after chunk. Both
  tell which bytes each request took up.
* `Request.drain_append` says what more bytes at the end of the buffer change: nothing about what
  was taken off it, and nothing about an error.
* `Request.feed_sameResults` is the main result: as long as the whole input is within the limit, any
  two ways of cutting it give the same requests and the same error, and without an error they leave
  the same bytes behind those that the requests took up.
-/

namespace RespStore

namespace Buffer

/-- A buffer is told by its bytes. -/
theorem ext_bytes {b b' : Buffer} (h : b.bytes = b'.bytes) : b = b' := by
  obtain ⟨bytes, size, hlength⟩ := b
  obtain ⟨bytes', size', hlength'⟩ := b'
  obtain rfl : bytes = bytes' := h
  obtain rfl := hlength.symm.trans hlength'
  rfl

/-- Bytes that are appended one after the other are appended together. -/
theorem append_append (b : Buffer) (bytes more : Bytes) :
    (b.append bytes).append more = b.append (bytes ++ more) :=
  ext_bytes (List.append_assoc _ _ _)

theorem append_nil (b : Buffer) : b.append [] = b := ext_bytes (List.append_nil _)

end Buffer

namespace Request

/-- A request that was taken off a buffer, and the bytes that it took up. -/
structure Taken where
  /-- The request. -/
  request : Request
  /-- The bytes that were removed from the buffer with it. -/
  bytes : Bytes
  deriving Repr, DecidableEq

/-- What came of taking requests off a buffer. -/
structure Drained where
  /-- The requests that were taken off, in order. -/
  taken : List Taken
  /-- The error that ended it, if one did. -/
  fault : Option DecodeError
  /-- What stays in the buffer. -/
  left : Buffer
  deriving Repr, DecidableEq

/-- What came of it, behind what was taken off before. -/
def Drained.behind (d : Drained) (before : List Taken) : Drained :=
  { d with taken := before ++ d.taken }

/-- Takes requests off the buffer until there is no whole one any more, or an error. -/
def drain (limit : Nat) (buffer : Buffer) : Drained :=
  match _h : decode limit buffer with
  | (.error cause, left) => ⟨[], some cause, left⟩
  | (.ok none, left) => ⟨[], none, left⟩
  | (.ok (some request), left) =>
    (drain limit left).behind [⟨request, buffer.bytes.take (buffer.size - left.size)⟩]
termination_by buffer.size
decreasing_by exact size_decode_lt _h

/-- Appends chunks to the buffer, one after the other, and takes requests off it behind each of
them. The first error ends it. -/
def feed (limit : Nat) (buffer : Buffer) : List Bytes → Drained
  | [] => ⟨[], none, buffer⟩
  | chunk :: chunks =>
    let first := drain limit (buffer.append chunk)
    match first.fault with
    | some _ => first
    | none => (feed limit first.left chunks).behind first.taken

/-- The bytes that requests took up, one behind the other. -/
def Drained.consumed (d : Drained) : Bytes := d.taken.flatMap Taken.bytes

/-- Whether nobody can tell what came of one way of cutting the input from what came of another:
the requests, their bytes and the error are the same, and without an error so is what is left. -/
structure Drained.Same (d d' : Drained) : Prop where
  /-- The requests are the same. -/
  taken : d.taken = d'.taken
  /-- The error is the same, or there is none. -/
  fault : d.fault = d'.fault
  /-- What is left is the same, unless there was an error. -/
  left : d.fault = none → d.left = d'.left

namespace Drained

/-- Requests that were taken off earlier can be put in front one part after the other. -/
theorem behind_behind (d : Drained) (before more : List Taken) :
    (d.behind more).behind before = d.behind (before ++ more) := by
  rw [behind, behind, behind, List.append_assoc]

/-- The bytes that requests took up which were taken off before stand in front. -/
theorem consumed_behind (d : Drained) (before : List Taken) :
    (d.behind before).consumed = before.flatMap Taken.bytes ++ d.consumed :=
  List.flatMap_append

namespace Same

theorem refl (d : Drained) : d.Same d := ⟨rfl, rfl, fun _ => rfl⟩

/-- Two outcomes are the same in either order. -/
theorem symm {d d' : Drained} (h : d.Same d') : d'.Same d :=
  ⟨h.taken.symm, h.fault.symm, fun hnone => (h.left (h.fault.trans hnone)).symm⟩

/-- Outcomes that are the same as one other are the same. -/
theorem trans {d d' d'' : Drained} (h : d.Same d') (h' : d'.Same d'') : d.Same d'' :=
  ⟨h.taken.trans h'.taken, h.fault.trans h'.fault,
    fun hnone => (h.left hnone).trans (h'.left (h.fault.symm.trans hnone))⟩

/-- Outcomes that are the same are so behind the same requests. -/
theorem behind {d d' : Drained} (h : d.Same d') (before : List Taken) :
    (d.behind before).Same (d'.behind before) :=
  ⟨congrArg (before ++ ·) h.taken, h.fault, h.left⟩

end Same

end Drained

/-! ### Taking requests off a buffer -/

/-- What follows a request is the end of the input. -/
theorem suffix_of_front {input rest : Bytes} {request : Request}
    (h : front input = .request request rest) : rest <:+ input := by
  cases hparse : Frame.parse? input with
  | error cause =>
      by_cases hcause : cause = .incomplete
      · rw [front] at h
        rw [hparse, hcause] at h
        cases h
      · rw [front_of_error hparse hcause] at h
        cases h
  | ok p =>
      obtain ⟨frame, left⟩ := p
      rw [front_of_ok hparse] at h
      split at h
      · cases h
      · obtain ⟨-, rfl⟩ := Front.request.inj h
        exact (Frame.takes_parse? input).leaves hparse

/-! ### Decoding a buffer with more bytes at its end -/

section Decode

variable {limit : Nat} {buffer left : Buffer}

/-- A buffer that holds more than the limit is refused before it is looked at. -/
theorem decode_of_tooLarge (h : limit < buffer.size) :
    decode limit buffer = (.error .tooLarge, buffer) := by
  rw [decode, if_pos h]

/-- A buffer over the limit answers nothing but that. -/
theorem size_le_of_decode {found : Option Request}
    (h : decode limit buffer = (.ok found, left)) : buffer.size ≤ limit := by
  refine Nat.le_of_not_lt fun hlarge => ?_
  rw [decode_of_tooLarge hlarge] at h
  exact nomatch h

/-- A request that is taken off a buffer stood at its front. -/
theorem front_of_decode {request : Request}
    (h : decode limit buffer = (.ok (some request), left)) :
    front buffer.bytes = .request request left.bytes := by
  have hsize := buffer.length_bytes.symm ▸ size_le_of_decode h
  rcases decode_cases buffer hsize with
    ⟨-, heq⟩ | ⟨_, _, -, heq⟩ | ⟨request', left', hfront, heq⟩
  · exact nomatch h.symm.trans heq
  · exact nomatch h.symm.trans heq
  · obtain ⟨hrequest, rfl⟩ := Prod.mk.inj (h.symm.trans heq)
    obtain rfl := Option.some.inj (Except.ok.inj hrequest)
    exact hfront

/-- A buffer that yields nothing begins no whole request, and is left alone. -/
theorem incomplete_of_decode (h : decode limit buffer = (.ok none, left)) :
    left = buffer ∧ front buffer.bytes = .incomplete := by
  have hsize := buffer.length_bytes.symm ▸ size_le_of_decode h
  rcases decode_cases buffer hsize with ⟨hfront, heq⟩ | ⟨_, _, -, heq⟩ | ⟨_, _, -, heq⟩
  · exact ⟨(Prod.mk.inj (h.symm.trans heq)).2, hfront⟩
  · exact nomatch h.symm.trans heq
  · exact nomatch h.symm.trans heq

/-- The bytes that a request takes up are removed from the front of the buffer, and no others. -/
theorem take_append_of_decode {request : Request}
    (h : decode limit buffer = (.ok (some request), left)) :
    buffer.bytes.take (buffer.size - left.size) ++ left.bytes = buffer.bytes := by
  obtain ⟨consumed, hconsumed⟩ := suffix_of_front (front_of_decode h)
  have hlength := congrArg List.length hconsumed
  rw [List.length_append, left.length_bytes, buffer.length_bytes] at hlength
  have hsize : buffer.size - left.size = consumed.length := by omega
  rw [hsize, ← hconsumed, List.take_left]

variable {more : Bytes}

/-- A request is taken off a buffer in the same way when more bytes follow. -/
theorem decode_append_of_request {request : Request}
    (h : decode limit buffer = (.ok (some request), left))
    (hsize : buffer.size + more.length ≤ limit) :
    decode limit (buffer.append more) = (.ok (some request), left.append more) := by
  have hfront := front_append_of_request (front_of_decode h) more
  have hlength : (buffer.append more).bytes.length ≤ limit :=
    Nat.le_trans (Nat.le_of_eq (buffer.append more).length_bytes) hsize
  rcases decode_cases (buffer.append more) hlength with
    ⟨hother, -⟩ | ⟨_, _, hother, -⟩ | ⟨request', left', hother, hdecode⟩
  · exact nomatch hfront.symm.trans hother
  · exact nomatch hfront.symm.trans hother
  · obtain ⟨rfl, hrest⟩ := Front.request.inj (hfront.symm.trans hother)
    have hleft : left' = left.append more := Buffer.ext_bytes hrest.symm
    rw [hdecode, hleft]

/-- An error stays the same when more bytes follow. -/
theorem decode_append_of_error {cause : DecodeError}
    (h : decode limit buffer = (.error cause, left)) (hsize : buffer.size + more.length ≤ limit) :
    ∃ left', decode limit (buffer.append more) = (.error cause, left') := by
  have hlength : (buffer.append more).bytes.length ≤ limit :=
    Nat.le_trans (Nat.le_of_eq (buffer.append more).length_bytes) hsize
  have hbroken : front buffer.bytes = .broken cause := by
    have hlength' : buffer.bytes.length ≤ limit := buffer.length_bytes.symm ▸ by omega
    rcases decode_cases buffer hlength' with ⟨-, heq⟩ | ⟨_, _, hbroken, heq⟩ | ⟨_, _, -, heq⟩
    · exact nomatch h.symm.trans heq
    · rwa [Except.error.inj (Prod.mk.inj (h.symm.trans heq)).1]
    · exact nomatch h.symm.trans heq
  have hfront := front_append_of_broken hbroken more
  rcases decode_cases (buffer.append more) hlength with
    ⟨hother, -⟩ | ⟨_, left', hother, hdecode⟩ | ⟨_, _, hother, -⟩
  · exact nomatch hfront.symm.trans hother
  · obtain rfl := Front.broken.inj (hfront.symm.trans hother)
    exact ⟨left', hdecode⟩
  · exact nomatch hfront.symm.trans hother

end Decode

/-! ### Taking requests off a buffer -/

section Drain

variable {limit : Nat} {buffer : Buffer}

/-- What `drain` makes of a buffer, by what decoding answers. -/
theorem drain_eq (limit : Nat) (buffer : Buffer) :
    drain limit buffer = match decode limit buffer with
      | (.error cause, left) => ⟨[], some cause, left⟩
      | (.ok none, left) => ⟨[], none, left⟩
      | (.ok (some request), left) => (drain limit left).behind
        [⟨request, buffer.bytes.take (buffer.size - left.size)⟩] := by
  rw [drain]
  split
  · rename_i hdecode
    rw [hdecode]
  · rename_i hdecode
    rw [hdecode]
  · rename_i hdecode
    rw [hdecode]

/-- A request that is decoded is taken off, and then what is left is. -/
theorem drain_of_request {left : Buffer} {request : Request}
    (h : decode limit buffer = (.ok (some request), left)) :
    drain limit buffer = (drain limit left).behind
      [⟨request, buffer.bytes.take (buffer.size - left.size)⟩] := by
  rw [drain_eq, h]

/-- A request that is taken off first takes up the same bytes when more follow. -/
theorem drain_append_of_request {left : Buffer} {request : Request} {more : Bytes}
    (h : decode limit buffer = (.ok (some request), left))
    (hsize : buffer.size + more.length ≤ limit) :
    drain limit (buffer.append more) = (drain limit (left.append more)).behind
      [⟨request, buffer.bytes.take (buffer.size - left.size)⟩] := by
  have hless := size_decode_lt h
  have hlength := buffer.length_bytes
  have hbytes : (buffer.append more).bytes.take
      ((buffer.append more).size - (left.append more).size) =
      buffer.bytes.take (buffer.size - left.size) := by
    simp only [Buffer.append]
    rw [Nat.add_sub_add_right, List.take_append_of_le_length (by omega)]
  rw [drain_of_request (decode_append_of_request h hsize), hbytes]

/-- `drain` is `decodeAll`, apart from the bytes that it tells with each request. -/
theorem decodeAll_eq_drain (limit : Nat) (buffer : Buffer) :
    decodeAll limit buffer = ((drain limit buffer).taken.map Taken.request,
      (drain limit buffer).fault, (drain limit buffer).left) := by
  fun_induction decodeAll limit buffer with
  | case1 buffer cause left hdecode =>
      rw [drain_eq, hdecode]
      rfl
  | case2 buffer left hdecode =>
      rw [drain_eq, hdecode]
      rfl
  | case3 buffer request left hdecode requests fault left' hrest ih =>
      obtain ⟨rfl, hmore⟩ := Prod.mk.inj (hrest.symm.trans ih)
      obtain ⟨rfl, rfl⟩ := Prod.mk.inj hmore
      rw [drain_eq limit buffer, hdecode]
      rfl

/-- A buffer that begins no whole request is left alone. -/
theorem drain_of_incomplete (h : front buffer.bytes = .incomplete) (hsize : buffer.size ≤ limit) :
    drain limit buffer = ⟨[], none, buffer⟩ := by
  rcases decode_cases buffer (buffer.length_bytes.symm ▸ hsize) with
    ⟨-, hdecode⟩ | ⟨_, _, hfront, -⟩ | ⟨_, _, hfront, -⟩
  · rw [drain_eq, hdecode]
  · exact nomatch h.symm.trans hfront
  · exact nomatch h.symm.trans hfront

/-- What is left behind the last whole request begins none, unless there was an error. -/
theorem front_left_drain (h : (drain limit buffer).fault = none) :
    front (drain limit buffer).left.bytes = .incomplete := by
  fun_induction drain limit buffer with
  | case1 => exact nomatch h
  | case2 buffer left hdecode =>
      obtain ⟨rfl, hfront⟩ := incomplete_of_decode hdecode
      exact hfront
  | case3 buffer request left hdecode ih => exact ih h

/-- Nothing is lost: what was taken off and what is left are the buffer, unless there was an
error. -/
theorem consumed_append_left (h : (drain limit buffer).fault = none) :
    (drain limit buffer).consumed ++ (drain limit buffer).left.bytes = buffer.bytes := by
  fun_induction drain limit buffer with
  | case1 => exact nomatch h
  | case2 buffer left hdecode =>
      obtain ⟨rfl, -⟩ := incomplete_of_decode hdecode
      rfl
  | case3 buffer request left hdecode ih =>
      rw [Drained.consumed_behind, List.append_assoc, List.flatMap_singleton]
      exact (congrArg _ (ih h)).trans (take_append_of_decode hdecode)

/-- What is taken off a buffer stays the same when more bytes follow, and these come behind what
was left. -/
theorem drain_append {more : Bytes} (h : (drain limit buffer).fault = none)
    (hsize : buffer.size + more.length ≤ limit) :
    drain limit (buffer.append more) =
      (drain limit ((drain limit buffer).left.append more)).behind (drain limit buffer).taken := by
  fun_induction drain limit buffer with
  | case1 => exact nomatch h
  | case2 buffer left hdecode =>
      obtain ⟨rfl, -⟩ := incomplete_of_decode hdecode
      rfl
  | case3 buffer request left hdecode ih =>
      have hless := size_decode_lt hdecode
      rw [drain_append_of_request hdecode hsize, ih h (by omega), Drained.behind_behind]
      rfl

/-- What is taken off a buffer in front of an error stays the same when more bytes follow, and so
does the error. -/
theorem drain_append_of_fault {more : Bytes} {cause : DecodeError}
    (h : (drain limit buffer).fault = some cause) (hsize : buffer.size + more.length ≤ limit) :
    (drain limit buffer).Same (drain limit (buffer.append more)) := by
  fun_induction drain limit buffer with
  | case1 buffer cause left hdecode =>
      obtain ⟨left', hdecode'⟩ := decode_append_of_error hdecode hsize
      rw [drain_eq, hdecode']
      exact ⟨rfl, rfl, fun hnone => nomatch hnone⟩
  | case2 => exact nomatch h
  | case3 buffer request left hdecode ih =>
      have hless := size_decode_lt hdecode
      rw [drain_append_of_request hdecode hsize]
      exact (ih h (by omega)).behind _

end Drain

/-! ### Feeding chunks -/

section Feed

variable {limit : Nat}

/-- Feeding chunks comes to the same as having all of them in the buffer at once, when the buffer
begins no whole request at first. The induction is on the chunks. -/
theorem feed_same_drain {buffer : Buffer} (h : front buffer.bytes = .incomplete)
    {chunks : List Bytes} (hsize : buffer.size + chunks.flatten.length ≤ limit) :
    (feed limit buffer chunks).Same (drain limit (buffer.append chunks.flatten)) := by
  induction chunks generalizing buffer with
  | nil =>
      rw [List.flatten_nil, Buffer.append_nil, drain_of_incomplete h (Nat.le_of_add_right_le hsize)]
      exact .refl _
  | cons chunk chunks ih =>
      rw [List.flatten_cons, List.length_append] at hsize
      have hchunk : (buffer.append chunk).size + chunks.flatten.length ≤ limit := by
        simp only [Buffer.append]
        omega
      rw [List.flatten_cons, ← Buffer.append_append, feed]
      cases hfault : (drain limit (buffer.append chunk)).fault with
      | some cause =>
          exact drain_append_of_fault hfault hchunk
      | none =>
          have hleft := congrArg List.length (consumed_append_left hfault)
          rw [List.length_append, Buffer.length_bytes, Buffer.length_bytes] at hleft
          rw [drain_append hfault hchunk]
          exact (ih (front_left_drain hfault) (by omega)).behind _

/-- **How the input is cut does not show.** Input that is within the limit as a whole, and two ways
of cutting it into chunks that are appended to an empty buffer one after the other: the same
requests are taken off, with the same bytes, up to the same error if there is one. Without an error,
the same bytes stay in the buffer, and they stand behind the bytes of the requests and make up the
input with them. -/
theorem feed_sameResults {input : Bytes} (hfits : input.length ≤ limit)
    {chunks chunks' : List Bytes} (h : chunks.flatten = input) (h' : chunks'.flatten = input) :
    (feed limit .empty chunks).taken = (feed limit .empty chunks').taken ∧
    (feed limit .empty chunks).fault = (feed limit .empty chunks').fault ∧
    ((feed limit .empty chunks).fault = none →
      (feed limit .empty chunks).left = (feed limit .empty chunks').left ∧
      input = (feed limit .empty chunks).consumed ++ (feed limit .empty chunks).left.bytes) := by
  have hall {cut : List Bytes} (hcut : cut.flatten = input) :
      (feed limit .empty cut).Same (drain limit (Buffer.empty.append input)) := by
    have hsize : Buffer.empty.size + cut.flatten.length ≤ limit := by
      rw [hcut]
      exact Nat.le_trans (Nat.le_of_eq (Nat.zero_add _)) hfits
    exact hcut ▸ feed_same_drain front_nil hsize
  have hsame := (hall h).trans (hall h').symm
  refine ⟨hsame.taken, hsame.fault, fun hnone => ⟨hsame.left hnone, ?_⟩⟩
  have hdrain := consumed_append_left ((hall h).fault.symm.trans hnone)
  rw [(hall h).left hnone, Drained.consumed, (hall h).taken]
  exact hdrain.symm

/-- A request whose payload holds the end of a line, and the beginning of another request. -/
def echoing : Bytes := Bytes.ofString "*2\r\n$4\r\nECHO\r\n$4\r\na\r\nb\r\n*1\r\n$4\r\nPI"

/-- A request and the beginning of another one, sent at once or byte by byte: the first one is taken
off, and the same bytes are left. -/
theorem feed_sameResults_echoing :
    feed 64 .empty [echoing] =
      ⟨[⟨⟨[69, 67, 72, 79], [[97, 13, 10, 98]]⟩, echoing.take 24⟩], none,
        Buffer.empty.append (echoing.drop 24)⟩ ∧
    (feed 64 .empty (echoing.map ([·]))).taken = (feed 64 .empty [echoing]).taken ∧
    (feed 64 .empty (echoing.map ([·]))).fault = none ∧
    (feed 64 .empty (echoing.map ([·]))).left = (feed 64 .empty [echoing]).left := by
  have hwhole : feed 64 .empty [echoing] =
      ⟨[⟨⟨[69, 67, 72, 79], [[97, 13, 10, 98]]⟩, echoing.take 24⟩], none,
        Buffer.empty.append (echoing.drop 24)⟩ := by
    decide +kernel
  obtain ⟨htaken, hfault, hleft⟩ := @feed_sameResults 64 echoing (by decide) [echoing]
    (echoing.map ([·])) (by decide) (by decide)
  have hnone : (feed 64 .empty [echoing]).fault = none := congrArg Drained.fault hwhole
  exact ⟨hwhole, htaken.symm, hfault.symm.trans hnone, (hleft hnone).1.symm⟩

end Feed

end Request

end RespStore
