import RespStore.Outbound

/-!
# Replies in, bytes out

Replies are pushed into an outbound buffer, and flushes take chunks out of it. A client sees the
chunks only, and where one chunk ends and the next one begins depends on the minimum size. This
module says what does not depend on it, over every sequence of replies and flushes and whatever
the writers make of what they are asked to write.

* `Outbound.pending_push` says that a reply goes behind everything that is pending.
* `Outbound.Solid` is the invariant that no chunk is empty, so that a buffer without bytes is a
  buffer without chunks.
* `Outbound.Writer.writeEach_taken` and `Outbound.Writer.writeEach_failed` are the two ways in
  which chunks are written: all of them, or those before the first one that the writer fails at.
* `Outbound.run_eq` cuts a run into rounds: whatever its writer did, behind a flush the buffer is
  as good as new.
* `Outbound.faithful_queue` is the main result.
-/

namespace RespStore.Outbound

/-! ### Pushing -/

/-- A piece in a new chunk goes behind everything that is pending. -/
theorem pending_putNew (o : Outbound) (piece : Piece) :
    (o.putNew piece).pending = o.pending ++ piece.bytes := by
  have hsealed : o.sealed.bytes = o.pending := o.flatten_chunks
  rw [putNew]
  simp [pending, filling, Chunk.put, Chunk.empty, hsealed]

/-- A piece goes behind everything that is pending, whichever chunk has room for it. -/
theorem pending_put (o : Outbound) (piece : Piece) :
    (o.put piece).pending = o.pending ++ piece.bytes := by
  rw [put]
  cases hcurrent : o.current with
  | none => exact pending_putNew o piece
  | some chunk =>
      simp only
      split
      · simp [pending, filling, hcurrent, Chunk.put]
      · exact pending_putNew o piece

/-- A reply goes behind everything that is pending. -/
@[simp]
theorem pending_push (o : Outbound) (reply : Reply) :
    (o.push reply).pending = o.pending ++ reply.encode := by
  have hpieces : ∀ (pieces : List Piece) (o : Outbound),
      (pieces.foldl put o).pending = o.pending ++ pieces.flatMap Piece.bytes := by
    intro pieces
    induction pieces with
    | nil => exact fun o => (List.append_nil _).symm
    | cons piece pieces ih =>
        intro o
        rw [List.foldl_cons, ih, pending_put, List.append_assoc, List.flatMap_cons]
  exact hpieces reply.pieces o

/-- A buffer whose chunks have been taken holds nothing. -/
@[simp]
theorem pending_cleared (o : Outbound) : o.cleared.pending = [] := rfl

/-- Pushes several replies. -/
def pushEach (o : Outbound) (replies : List Reply) : Outbound := replies.foldl push o

theorem pushEach_cons (o : Outbound) (reply : Reply) (replies : List Reply) :
    o.pushEach (reply :: replies) = (o.push reply).pushEach replies :=
  rfl

theorem pushEach_append (o : Outbound) (replies more : List Reply) :
    o.pushEach (replies ++ more) = (o.pushEach replies).pushEach more :=
  List.foldl_append ..

/-- Several replies go behind everything that is pending, one behind the other. -/
theorem pending_pushEach (o : Outbound) (replies : List Reply) :
    (o.pushEach replies).pending = o.pending ++ replies.flatMap Reply.encode := by
  induction replies generalizing o with
  | nil => exact (List.append_nil _).symm
  | cons reply replies ih =>
      rw [pushEach_cons, ih, pending_push, List.append_assoc, List.flatMap_cons]

/-- What every piece keeps is kept by any number of pieces. -/
theorem putEach_keeps {P : Outbound → Prop} (hput : ∀ o piece, P o → P (put o piece))
    {o : Outbound} (h : P o) (pieces : List Piece) : P (pieces.foldl put o) := by
  induction pieces generalizing o with
  | nil => exact h
  | cons piece pieces ih => exact ih (hput o piece h)

/-- What every piece keeps is kept by any number of replies. -/
theorem pushEach_keeps {P : Outbound → Prop} (hput : ∀ o piece, P o → P (put o piece))
    {o : Outbound} (h : P o) (replies : List Reply) : P (o.pushEach replies) := by
  induction replies generalizing o with
  | nil => exact h
  | cons reply replies ih => exact ih (putEach_keeps hput h reply.pieces)

/-- A piece leaves the minimum size as it is. -/
theorem minimum_put (o : Outbound) (piece : Piece) : (o.put piece).minimum = o.minimum := by
  rw [put]
  split
  · rfl
  · split
    · rfl
    · rfl

/-- Replies leave the minimum size as it is. -/
theorem minimum_pushEach (o : Outbound) (replies : List Reply) :
    (o.pushEach replies).minimum = o.minimum :=
  pushEach_keeps (P := fun o' => o'.minimum = o.minimum)
    (fun o' piece h => (minimum_put o' piece).trans h) rfl replies

/-! ### Chunks -/

/-- No closed chunk is empty. -/
def Solid (o : Outbound) : Prop := ∀ chunk ∈ o.closed.toList, chunk ≠ []

/-- A buffer with nothing in it has no empty chunk. -/
theorem solid_empty (minimum : Nat) : (empty minimum).Solid :=
  fun _ hchunk => absurd hchunk List.not_mem_nil

/-- Closing the current chunk leaves no empty chunk, whatever is in it. -/
theorem Solid.chunks_ne_nil {o : Outbound} (h : o.Solid) : ∀ chunk ∈ o.chunks, chunk ≠ [] := by
  intro chunk hchunk
  rw [chunks, sealed] at hchunk
  split at hchunk
  · exact h chunk hchunk
  · rename_i hsize
    rw [Pile.toList_add] at hchunk
    rcases List.mem_append.mp hchunk with hchunk | hchunk
    · exact h chunk hchunk
    · rw [List.mem_singleton.mp hchunk]
      rwa [← Pile.length_bytes, List.length_eq_zero_iff] at hsize

/-- A piece leaves no empty chunk behind. -/
theorem Solid.put {o : Outbound} (h : o.Solid) (piece : Piece) : (o.put piece).Solid := by
  rw [Outbound.put]
  split
  · exact h.chunks_ne_nil
  · split
    · exact h
    · exact h.chunks_ne_nil

/-- Replies leave no empty chunk behind. -/
theorem Solid.pushEach {o : Outbound} (h : o.Solid) (replies : List Reply) :
    (o.pushEach replies).Solid :=
  pushEach_keeps (fun _ piece h => h.put piece) h replies

/-- A buffer without bytes is a buffer without chunks. -/
theorem Solid.chunks_eq_nil_iff {o : Outbound} (h : o.Solid) : o.chunks = [] ↔ o.pending = [] := by
  rw [← flatten_chunks, List.flatten_eq_nil_iff]
  constructor
  · intro hnil chunk hchunk
    rw [hnil] at hchunk
    exact absurd hchunk List.not_mem_nil
  · intro hempty
    rw [List.eq_nil_iff_forall_not_mem]
    exact fun chunk hchunk => h.chunks_ne_nil chunk hchunk (hempty chunk hchunk)

/-! ### Writing -/

/-- Every byte that a flush has written. -/
def Flush.bytes (done : Flush) : Bytes := done.written.flatten ++ done.torn

namespace Writer

variable {writer : Writer} {n : Nat} {chunks : List Bytes}

/-- A writer that works takes every chunk and can be flushed. -/
def Works (writer : Writer) : Prop := (∀ n, writer.offered n = .taken) ∧ writer.syncs = true

/-- A writer that takes every chunk is flushed. -/
theorem writeEach_taken (h : ∀ m < chunks.length, writer.offered (n + m) = .taken) :
    writer.writeEach n chunks = ⟨chunks, [], true, !writer.syncs⟩ := by
  induction chunks generalizing n with
  | nil => rfl
  | cons chunk chunks ih =>
      have hfirst : writer.offered n = .taken := h 0 (Nat.succ_pos _)
      have hmore : writer.writeEach (n + 1) chunks = ⟨chunks, [], true, !writer.syncs⟩ :=
        ih fun m hm => by
          rw [Nat.add_assoc, Nat.add_comm 1 m]
          exact h (m + 1) (Nat.succ_lt_succ hm)
      rw [writeEach, hfirst]
      simp only [hmore]

/-- A writer that fails has taken the chunks before the one that it fails at, and some of that
one. -/
theorem writeEach_failed {i bytes : Nat} (hi : i < chunks.length)
    (h : ∀ m < i, writer.offered (n + m) = .taken)
    (hfail : writer.offered (n + i) = .failed bytes) :
    writer.writeEach n chunks = ⟨chunks.take i, chunks[i].take bytes, false, true⟩ := by
  induction chunks generalizing n i with
  | nil => exact absurd hi (Nat.not_lt_zero i)
  | cons chunk chunks ih =>
      rw [writeEach]
      cases i with
      | zero =>
          rw [Nat.add_zero] at hfail
          rw [hfail]
          rfl
      | succ i =>
          have hfirst : writer.offered n = .taken := h 0 (Nat.succ_pos i)
          have hi : i < chunks.length := Nat.lt_of_succ_lt_succ hi
          have hmore : writer.writeEach (n + 1) chunks =
              ⟨chunks.take i, chunks[i].take bytes, false, true⟩ := by
            refine ih hi (fun m hm => ?_) ?_
            · rw [Nat.add_assoc, Nat.add_comm 1 m]
              exact h (m + 1) (Nat.succ_lt_succ hm)
            · rw [Nat.add_assoc, Nat.add_comm 1 i]
              exact hfail
          rw [hfirst]
          simp only [hmore]
          rfl

/-- What is written is a beginning of what was to be written. -/
theorem bytes_writeEach (writer : Writer) (n : Nat) (chunks : List Bytes) :
    (writer.writeEach n chunks).bytes <+: chunks.flatten := by
  induction chunks generalizing n with
  | nil => exact List.prefix_rfl
  | cons chunk chunks ih =>
      rw [writeEach, List.flatten_cons]
      cases writer.offered n with
      | failed bytes => exact List.take_prefix bytes chunk |>.trans (List.prefix_append ..)
      | taken =>
          have hbytes : ∀ done : Flush,
              { done with written := chunk :: done.written : Flush }.bytes = chunk ++ done.bytes :=
            fun done => List.append_assoc ..
          exact hbytes _ ▸ (List.prefix_append_right_inj chunk).mpr (ih (n + 1))

/-- A writer that does not fail has written everything. -/
theorem bytes_of_not_failed (h : (writer.writeEach n chunks).failed = false) :
    (writer.writeEach n chunks).bytes = chunks.flatten := by
  induction chunks generalizing n with
  | nil => rfl
  | cons chunk chunks ih =>
      rw [writeEach] at h ⊢
      cases hoffered : writer.offered n with
      | failed bytes =>
          rw [hoffered] at h
          exact nomatch h
      | taken =>
          rw [hoffered] at h
          rw [List.flatten_cons, ← ih h]
          exact List.append_assoc ..

end Writer

/-! ### Flushing -/

section Flush

variable {o : Outbound} {writer : Writer}

/-- Whatever the writer does, what is left is a buffer with nothing in it. -/
theorem flushInto_snd (o : Outbound) (writer : Writer) :
    (o.flushInto writer).2 = empty o.minimum :=
  rfl

/-- Where there is no chunk, the writer is asked for nothing. -/
theorem flushInto_of_nil (h : o.chunks = []) : (o.flushInto writer).1 = ⟨[], [], false, false⟩ := by
  rw [flushInto, h]
  rfl

/-- Where there is a chunk, the writer is asked for all of them. -/
theorem flushInto_of_ne_nil (h : o.chunks ≠ []) :
    (o.flushInto writer).1 = writer.writeEach 0 o.chunks := by
  rw [flushInto, if_neg (mt List.isEmpty_iff.mp h)]

/-- What a flush writes is a beginning of what was pending. -/
theorem bytes_flushInto (o : Outbound) (writer : Writer) :
    (o.flushInto writer).1.bytes <+: o.pending := by
  rw [← flatten_chunks]
  by_cases hnil : o.chunks = []
  · rw [flushInto_of_nil hnil]
    exact List.nil_prefix
  · rw [flushInto_of_ne_nil hnil]
    exact writer.bytes_writeEach 0 o.chunks

end Flush

/-! ### Runs -/

/-- Something that is done with a buffer. -/
inductive Act where
  /-- A reply is pushed. -/
  | push (reply : Reply)
  /-- The buffer is flushed. -/
  | flush (writer : Writer)

/-- What the flushes did, and the buffer in the end. -/
def run (o : Outbound) : List Act → List Flush × Outbound
  | [] => ([], o)
  | .push reply :: acts => (o.push reply).run acts
  | .flush writer :: acts =>
    let (done, o') := o.flushInto writer
    let (more, last) := o'.run acts
    (done :: more, last)

/-- The replies that are pushed, in order. -/
def pushed : List Act → List Reply
  | [] => []
  | .push reply :: acts => reply :: pushed acts
  | .flush _ :: acts => pushed acts

/-- A flush and the replies that were pushed since the one before it. -/
structure Round where
  /-- The replies. -/
  replies : List Reply
  /-- What the buffer is flushed into. -/
  writer : Writer

/-- The rounds of a run that begins with some replies in the buffer, and the replies that are in
the buffer in the end. -/
def roundsFrom (held : List Reply) : List Act → List Round × List Reply
  | [] => ([], held)
  | .push reply :: acts => roundsFrom (held ++ [reply]) acts
  | .flush writer :: acts =>
    let (rounds, waiting) := roundsFrom [] acts
    (⟨held, writer⟩ :: rounds, waiting)

namespace Round

/-- The buffer that a round flushes, if it was a new one when the round began. -/
def buffer (minimum : Nat) (round : Round) : Outbound := (empty minimum).pushEach round.replies

/-- What the flush does, if the buffer was a new one when the round began. -/
def flush (minimum : Nat) (round : Round) : Flush :=
  ((round.buffer minimum).flushInto round.writer).1

/-- Whether a flush does with the replies of its round what it should. -/
structure Faithful (minimum : Nat) (round : Round) : Prop where
  /-- The chunks are the replies, one behind the other. -/
  flatten_chunks : (round.buffer minimum).chunks.flatten = round.replies.flatMap Reply.encode
  /-- No chunk is empty. -/
  chunks_ne_nil : ∀ chunk ∈ (round.buffer minimum).chunks, chunk ≠ []
  /-- What is written is a beginning of the replies. -/
  bytes_prefix : (round.flush minimum).bytes <+: round.replies.flatMap Reply.encode
  /-- Without bytes to write, nothing is asked of the writer. -/
  idle : round.replies.flatMap Reply.encode = [] → round.flush minimum = ⟨[], [], false, false⟩
  /-- All chunks are written if the writer takes them all. -/
  taken : round.replies.flatMap Reply.encode ≠ [] →
    (∀ n < (round.buffer minimum).chunks.length, round.writer.offered n = .taken) →
    round.flush minimum = ⟨(round.buffer minimum).chunks, [], true, !round.writer.syncs⟩
  /-- Those before the first one that the writer fails at are written if there is one, and of that
  one what the writer took of it. -/
  failed : ∀ n bytes, (h : n < (round.buffer minimum).chunks.length) →
    (∀ m < n, round.writer.offered m = .taken) → round.writer.offered n = .failed bytes →
    round.flush minimum = ⟨(round.buffer minimum).chunks.take n,
      (round.buffer minimum).chunks[n].take bytes, false, true⟩
  /-- A writer that works does not make a flush fail. -/
  works : round.writer.Works → (round.flush minimum).failed = false
  /-- A flush that does not fail has written all replies. -/
  whole : (round.flush minimum).failed = false →
    (round.flush minimum).bytes = round.replies.flatMap Reply.encode

/-- The buffer of a round has no empty chunk. -/
theorem solid_buffer (minimum : Nat) (round : Round) : (round.buffer minimum).Solid :=
  (solid_empty minimum).pushEach round.replies

/-- The buffer of a round holds the replies of that round. -/
theorem pending_buffer (minimum : Nat) (round : Round) :
    (round.buffer minimum).pending = round.replies.flatMap Reply.encode :=
  pending_pushEach (empty minimum) round.replies

/-- Whether there are chunks to write is whether there are bytes to write. -/
theorem chunks_eq_nil_iff (minimum : Nat) (round : Round) :
    (round.buffer minimum).chunks = [] ↔ round.replies.flatMap Reply.encode = [] := by
  rw [(round.solid_buffer minimum).chunks_eq_nil_iff, pending_buffer]

/-- Every flush does with the replies of its round what it should. -/
theorem faithful (minimum : Nat) (round : Round) : round.Faithful minimum where
  flatten_chunks := ((round.buffer minimum).flatten_chunks).trans (round.pending_buffer minimum)
  chunks_ne_nil := (round.solid_buffer minimum).chunks_ne_nil
  bytes_prefix := round.pending_buffer minimum ▸ bytes_flushInto (round.buffer minimum) round.writer
  idle h := flushInto_of_nil ((round.chunks_eq_nil_iff minimum).mpr h)
  taken h htaken := by
    rw [flush, flushInto_of_ne_nil (mt (round.chunks_eq_nil_iff minimum).mp h)]
    exact Writer.writeEach_taken fun m hm => by
      rw [Nat.zero_add]
      exact htaken m hm
  failed n bytes hn htaken hfail := by
    have hne : (round.buffer minimum).chunks ≠ [] :=
      List.ne_nil_of_length_pos (Nat.zero_lt_of_lt hn)
    rw [flush, flushInto_of_ne_nil hne]
    refine Writer.writeEach_failed hn (fun m hm => ?_) ?_
    · rw [Nat.zero_add]
      exact htaken m hm
    · rw [Nat.zero_add]
      exact hfail
  works hworks := by
    obtain ⟨htaken, hsyncs⟩ := hworks
    by_cases hnil : (round.buffer minimum).chunks = []
    · rw [flush, flushInto_of_nil hnil]
    · rw [flush, flushInto_of_ne_nil hnil, Writer.writeEach_taken fun m _ => htaken (0 + m), hsyncs]
      rfl
  whole hfailed := by
    by_cases hnil : (round.buffer minimum).chunks = []
    · rw [flush, flushInto_of_nil hnil, (round.chunks_eq_nil_iff minimum).mp hnil]
      rfl
    · rw [flush, flushInto_of_ne_nil hnil] at hfailed ⊢
      rw [Writer.bytes_of_not_failed hfailed, ← round.pending_buffer minimum,
        Outbound.flatten_chunks]

end Round

/-- The replies of the rounds and those that still wait are all replies, in order. -/
theorem replies_roundsFrom (held : List Reply) (acts : List Act) :
    (roundsFrom held acts).1.flatMap Round.replies ++ (roundsFrom held acts).2 =
      held ++ pushed acts := by
  induction acts generalizing held with
  | nil => exact (List.append_nil held).symm
  | cons act acts ih =>
      cases act with
      | push reply =>
          rw [roundsFrom, ih, pushed, List.append_assoc, List.singleton_append]
      | flush writer =>
          rw [roundsFrom, pushed, List.flatMap_cons, List.append_assoc, ih []]
          rfl

/-- A run is made of rounds, each of them in a buffer that is as good as new. -/
theorem run_eq (minimum : Nat) (held : List Reply) (acts : List Act) :
    ((empty minimum).pushEach held).run acts =
      ((roundsFrom held acts).1.map (Round.flush minimum),
        (empty minimum).pushEach (roundsFrom held acts).2) := by
  induction acts generalizing held with
  | nil => rfl
  | cons act acts ih =>
      cases act with
      | push reply =>
          have hpush : ((empty minimum).pushEach held).push reply =
              (empty minimum).pushEach (held ++ [reply]) := (pushEach_append _ held [reply]).symm
          rw [run, hpush, ih]
          rfl
      | flush writer =>
          have hnew : (((empty minimum).pushEach held).flushInto writer).2 =
              (empty minimum).pushEach [] := by
            rw [flushInto_snd, minimum_pushEach]
            rfl
          rw [run, roundsFrom]
          simp only [hnew, ih []]
          rfl

/-- What was written, and what waits behind it, if no flush failed. -/
theorem stream_of_rounds {minimum : Nat} {rounds : List Round}
    (h : ∀ round ∈ rounds, (round.flush minimum).failed = false) :
    (rounds.map (Round.flush minimum)).flatMap Flush.bytes =
      (rounds.flatMap Round.replies).flatMap Reply.encode := by
  induction rounds with
  | nil => rfl
  | cons round rounds ih =>
      obtain ⟨hround, hrounds⟩ := List.forall_mem_cons.mp h
      rw [List.map_cons, List.flatMap_cons, List.flatMap_cons, List.flatMap_append, ih hrounds,
        (round.faithful minimum).whole hround]

/-- **The buffer is a faithful queue**, whatever its minimum size is, whatever replies are pushed,
and whatever the writers of its flushes make of what they are asked to write.

* A run falls into rounds. Every flush does what the flush of a new buffer with the replies of its
  round does, and behind a flush, whether it failed or not, the buffer is a new one.
* The buffer holds the replies since the last flush: the closed chunks and then the current one.
  The number of readable bytes is the number of those bytes.
* Of the replies of a round, a flush writes the whole if the writer works, a beginning in any case,
  and just the chunks before the one that the writer failed at if it failed. Without bytes to write
  it asks nothing of the writer.
* If no flush failed, the bytes that were written and those that wait are the replies. -/
theorem faithful_queue (minimum : Nat) (acts : List Act) :
    let flushes := ((empty minimum).run acts).1
    let last := ((empty minimum).run acts).2
    let rounds := (roundsFrom [] acts).1
    let waiting := (roundsFrom [] acts).2
    rounds.flatMap Round.replies ++ waiting = pushed acts ∧
      flushes = rounds.map (Round.flush minimum) ∧
      last = (empty minimum).pushEach waiting ∧
      (∀ writer, (last.flushInto writer).2 = empty minimum) ∧
      last.pending = waiting.flatMap Reply.encode ∧
      last.pending = last.closed.bytes ++ last.filling.bytes ∧
      last.readable = last.pending.length ∧
      (∀ round ∈ rounds, round.Faithful minimum) ∧
      ((∀ done ∈ flushes, done.failed = false) →
        flushes.flatMap Flush.bytes ++ last.pending = (pushed acts).flatMap Reply.encode) := by
  have hreplies : (roundsFrom [] acts).1.flatMap Round.replies ++ (roundsFrom [] acts).2 =
      pushed acts := replies_roundsFrom [] acts
  have hrun : (empty minimum).run acts = ((roundsFrom [] acts).1.map (Round.flush minimum),
      (empty minimum).pushEach (roundsFrom [] acts).2) := run_eq minimum [] acts
  have hpending : ((empty minimum).pushEach (roundsFrom [] acts).2).pending =
      (roundsFrom [] acts).2.flatMap Reply.encode := pending_pushEach (empty minimum) _
  rw [hrun]
  refine ⟨hreplies, rfl, rfl, fun writer => ?_, hpending, rfl, (length_pending _).symm,
    fun round _ => round.faithful minimum, fun hsound => ?_⟩
  · rw [flushInto_snd, minimum_pushEach]
    rfl
  · rw [List.forall_mem_map] at hsound
    rw [stream_of_rounds hsound, hpending, ← hreplies, List.flatMap_append]

/-- What a flush that failed left behind is gone, and what comes later is written. -/
example :
    ((empty 8).run [.push .ok, .push .null, .push .nullArray, .flush (.upTo (some 2)),
      .push .ok, .flush (.upTo none)]).1 =
      [⟨[Piece.ok.bytes, Piece.null.bytes], [], false, true⟩,
        ⟨[Piece.ok.bytes], [], true, false⟩] := by
  decide

end RespStore.Outbound
