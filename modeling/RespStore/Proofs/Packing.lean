import Mathlib.Data.List.Chain
import Mathlib.Data.Nat.Log
import RespStore.Proofs.Outbound

/-!
# How chunks are filled

A piece asks for room before it is written, and what it asks for is found without its bytes: the
digits of a length are counted, not written. A chunk is given as much room as its first piece asks
for, and at least the minimum, and whether another piece fits is decided by what that one asks for.
So the sizes have to be right for chunks to stay within their room, and within the room they are
filled greedily.

* `Decimal.width_eq_log` says that digits are counted by the logarithm.
* `Reply.exact_pieces` says that every piece of a reply is as long as it asked for.
* `Batch` stands for the pieces of one chunk, and `Outbound.Packed` says how they fall into batches:
  a batch is within its room, and the first piece of the next one did not fit any more.
* `Outbound.Gathers.put` is the step: one more piece joins the last batch or begins a new one.
* `Outbound.chunks_packed` is the main result, about every run of pushes and flushes, and every
  moment in it.
-/

namespace RespStore

/-! ### Sizes -/

/-- A number has one digit more than its logarithm. -/
theorem Decimal.width_eq_log (n : Nat) : width n = Nat.log 10 n + 1 := by
  fun_induction width n with
  | case1 n h => rw [Nat.log_of_lt h]
  | case2 n h ih => rw [ih, Nat.log_of_one_lt_of_le (by decide) (Nat.le_of_not_lt h)]

namespace Piece

/-- Whether a piece is as long as it asked for, and not empty. -/
structure Exact (piece : Piece) : Prop where
  /-- Just as many bytes are written as were asked for. -/
  length_bytes : piece.bytes.length = piece.size
  /-- There is a byte to be written. -/
  size_pos : 0 < piece.size

/-- Bytes that are written as they are ask for as many as they are. -/
theorem exact_raw {bytes : Bytes} (h : bytes ≠ []) : (raw bytes).Exact :=
  ⟨rfl, List.length_pos_iff.mpr h⟩

/-- A line asks for its type, its content and its break. -/
@[simp]
theorem exact_line (type : UInt8) (content : Bytes) : (line type content).Exact where
  length_bytes := by
    simp only [line, Bytes.crlf, List.cons_append, List.length_cons, List.length_append,
      List.length_nil]
    omega
  size_pos := by
    simp only [line]
    omega

/-- The digits of the length are as many as were counted. -/
@[simp]
theorem exact_bulk (payload : Bytes) : (bulk payload).Exact where
  length_bytes := by
    simp only [bulk, Bytes.crlf, List.cons_append, List.length_cons, List.length_append,
      List.length_nil, Decimal.length_digits]
    omega
  size_pos := by
    simp only [bulk]
    omega

/-- The piece for what is missing asks for the bytes that it has. -/
@[simp]
theorem exact_null : null.Exact := exact_raw (by decide)

/-- The line that opens an array asks for the bytes that it has. -/
@[simp]
theorem exact_arrayOf (n : Nat) : (arrayOf n).Exact := exact_line ..

/-- The line of a number asks for the bytes that it has. -/
@[simp]
theorem exact_count (n : Nat) : (count n).Exact := exact_line ..

end Piece

/-- Every piece of a range asks for the bytes that it has. -/
theorem MatchRange.exact_pieces (r : MatchRange) : ∀ piece ∈ r.pieces, piece.Exact := by
  rw [pieces]
  cases r.length with
  | none => simp [spanPieces]
  | some n => simp [spanPieces]

namespace Reply

mutual

/-- Every piece of a reply is as long as it asked for. -/
theorem exact_pieces : (reply : Reply) → ∀ piece ∈ reply.pieces, piece.Exact
  | .ok => List.forall_mem_singleton.mpr (Piece.exact_raw (by decide))
  | .simple _ => List.forall_mem_singleton.mpr (Piece.exact_line ..)
  | .error _ => List.forall_mem_singleton.mpr (Piece.exact_line ..)
  | .integer _ => List.forall_mem_singleton.mpr (Piece.exact_line ..)
  | .double _ => List.forall_mem_singleton.mpr (Piece.exact_bulk _)
  | .bulk _ => List.forall_mem_singleton.mpr (Piece.exact_bulk _)
  | .null => List.forall_mem_singleton.mpr Piece.exact_null
  | .nullArray => List.forall_mem_singleton.mpr (Piece.exact_raw (by decide))
  | .array items => List.forall_mem_cons.mpr ⟨Piece.exact_arrayOf _, exact_piecesOfEach items⟩
  | .alignment ranges total => by
      have hranges : ∀ piece ∈ ranges.flatMap MatchRange.pieces, piece.Exact :=
        List.forall_mem_flatMap.mpr fun r _ => r.exact_pieces
      simp only [pieces, List.forall_mem_append]
      exact ⟨⟨by simp, hranges⟩, by simp⟩
  | .message channel payload => by simp [pieces]
  | .subscribed channel n => by simp [pieces]
  | .unsubscribed channel n => by
      cases channel with
      | none => simp [pieces]
      | some channel => simp [pieces]
  | .many replies => exact_piecesOfEach replies

/-- Every piece of several replies asks for the bytes that it has. -/
theorem exact_piecesOfEach : (replies : List Reply) → ∀ piece ∈ piecesOfEach replies, piece.Exact
  | [] => List.forall_mem_nil _
  | reply :: replies => List.forall_mem_append.mpr
      ⟨exact_pieces reply, exact_piecesOfEach replies⟩

end

end Reply

/-! ### Batches -/

/-- The pieces of one chunk. -/
structure Batch where
  /-- The piece that the chunk was begun for. -/
  first : Piece
  /-- The pieces behind it. -/
  others : List Piece

namespace Batch

/-- All pieces. -/
def pieces (batch : Batch) : List Piece := batch.first :: batch.others

/-- The bytes of the chunk. -/
def bytes (batch : Batch) : Bytes := batch.pieces.flatMap Piece.bytes

/-- How much room the chunk was given. -/
def room (minimum : Nat) (batch : Batch) : Nat := max minimum batch.first.size

/-- One more piece in the chunk. -/
def add (batch : Batch) (piece : Piece) : Batch := { batch with others := batch.others ++ [piece] }

/-- A batch of one piece has the bytes of that piece. -/
theorem bytes_single (piece : Piece) : bytes ⟨piece, []⟩ = piece.bytes :=
  List.flatMap_singleton ..

/-- A batch that one more piece joins has the bytes of that piece at its end. -/
theorem bytes_add (batch : Batch) (piece : Piece) :
    (batch.add piece).bytes = batch.bytes ++ piece.bytes := by
  rw [bytes, pieces, add, ← List.cons_append, List.flatMap_append, List.flatMap_singleton]
  rfl

end Batch

namespace Outbound

/-- Whether batches are chunks of a buffer with such a minimum. -/
structure Packed (minimum : Nat) (batches : List Batch) : Prop where
  /-- No chunk is empty. -/
  bytes_ne_nil : ∀ batch ∈ batches, batch.bytes ≠ []
  /-- No chunk outgrows its room. -/
  length_le : ∀ batch ∈ batches, batch.bytes.length ≤ batch.room minimum
  /-- A chunk was closed since the next piece did not fit. -/
  full : batches.IsChain fun batch next =>
    batch.room minimum < batch.bytes.length + next.first.size

namespace Packed

variable {minimum : Nat} {batches : List Batch} {last : Batch} {piece : Piece}

/-- Without a batch, there is nothing to pack. -/
theorem nil : Packed minimum [] where
  bytes_ne_nil := List.forall_mem_nil _
  length_le := List.forall_mem_nil _
  full := .nil

/-- A piece begins a batch if it does not fit into the last one. -/
theorem begin (h : Packed minimum batches) (hpiece : piece.Exact)
    (hlast : ∀ last ∈ batches.getLast?, last.room minimum < last.bytes.length + piece.size) :
    Packed minimum (batches ++ [⟨piece, []⟩]) where
  bytes_ne_nil := List.forall_mem_append.mpr ⟨h.bytes_ne_nil, List.forall_mem_singleton.mpr <| by
    rw [Batch.bytes_single, ← List.length_pos_iff, hpiece.length_bytes]
    exact hpiece.size_pos⟩
  length_le := List.forall_mem_append.mpr ⟨h.length_le, List.forall_mem_singleton.mpr <| by
    rw [Batch.bytes_single, hpiece.length_bytes]
    exact Nat.le_max_right ..⟩
  full := List.isChain_append.mpr ⟨h.full, .singleton _, fun last hmem next hnext => by
    obtain rfl := Option.some.inj hnext
    exact hlast last hmem⟩

/-- A piece joins the last batch if it fits. -/
theorem join (h : Packed minimum (batches ++ [last])) (hpiece : piece.Exact)
    (hfits : last.bytes.length + piece.size ≤ last.room minimum) :
    Packed minimum (batches ++ [last.add piece]) := by
  obtain ⟨hne, hle, hfull⟩ := h
  rw [List.forall_mem_append, List.forall_mem_singleton] at hne hle
  obtain ⟨hchain, -, hlink⟩ := List.isChain_append.mp hfull
  refine ⟨?_, ?_, List.isChain_append.mpr ⟨hchain, .singleton _, ?_⟩⟩
  · refine List.forall_mem_append.mpr ⟨hne.1, List.forall_mem_singleton.mpr ?_⟩
    rw [Batch.bytes_add]
    exact List.append_ne_nil_of_left_ne_nil hne.2 _
  · refine List.forall_mem_append.mpr ⟨hle.1, List.forall_mem_singleton.mpr ?_⟩
    rwa [Batch.bytes_add, List.length_append, hpiece.length_bytes]
  · -- The chunk in front was closed for the first piece, which is still the same.
    intro batch hbatch next hnext
    obtain rfl := Option.some.inj hnext
    exact hlink batch hbatch last rfl

end Packed

/-- Whether the chunks of a buffer are made of batches, of which the last one is not closed yet. -/
inductive Holds (o : Outbound) : List Batch → Prop
  /-- There is no chunk. -/
  | nothing (hclosed : o.closed.toList = []) (hcurrent : o.current = none) : Holds o []
  /-- A chunk is being filled. -/
  | filling {batches : List Batch} {last : Batch} {chunk : Chunk}
      (hclosed : o.closed.toList = batches.map Batch.bytes) (hcurrent : o.current = some chunk)
      (hcontent : chunk.content.bytes = last.bytes)
      (hcapacity : chunk.capacity = last.room o.minimum) : Holds o (batches ++ [last])

/-- The chunks are the batches. -/
theorem Holds.chunks_eq {o : Outbound} {batches : List Batch} (h : Holds o batches)
    (hpacked : Packed o.minimum batches) : o.chunks = batches.map Batch.bytes := by
  cases h with
  | nothing hclosed hcurrent =>
      rw [chunks, sealed, Outbound.filling, hcurrent]
      exact hclosed
  | @filling batches last chunk hclosed hcurrent hcontent hcapacity =>
      have hfilling : o.filling = chunk.content := by
        rw [Outbound.filling, hcurrent]
        rfl
      have hne : o.filling.size ≠ 0 := by
        rw [hfilling, ← Pile.length_bytes, hcontent, ne_eq, List.length_eq_zero_iff]
        exact hpacked.bytes_ne_nil last List.mem_concat_self
      rw [chunks, sealed, if_neg hne, Pile.toList_add, hclosed, hfilling, hcontent, List.map_append]
      rfl

/-- A new chunk holds a batch of one piece. -/
theorem Holds.putNew {o : Outbound} {batches : List Batch} (h : Holds o batches)
    (hpacked : Packed o.minimum batches) (piece : Piece) :
    Holds (o.putNew piece) (batches ++ [⟨piece, []⟩]) := by
  refine .filling (h.chunks_eq hpacked) rfl ?_ (Nat.max_comm ..)
  rw [Chunk.put, Pile.bytes_add, Batch.bytes_single]
  rfl

/-- The chunk that is being filled is the last batch, and has the room for it. -/
theorem Holds.of_current {o : Outbound} {batches : List Batch} (h : Holds o batches) {chunk : Chunk}
    (hchunk : o.current = some chunk) :
    ∃ last ∈ batches.getLast?, chunk.content.bytes = last.bytes ∧
      chunk.capacity = last.room o.minimum := by
  cases h with
  | nothing _ hcurrent => exact nomatch hcurrent.symm.trans hchunk
  | @filling batches last chunk' _ hcurrent hcontent hcapacity =>
      obtain rfl := Option.some.inj (hcurrent.symm.trans hchunk)
      exact ⟨last, List.getLast?_concat .., hcontent, hcapacity⟩

/-- Whether pieces lie in a buffer as batches. -/
def Gathers (o : Outbound) (pieces : List Piece) : Prop :=
  ∃ batches, Packed o.minimum batches ∧ Holds o batches ∧ batches.flatMap Batch.pieces = pieces

/-- A buffer with nothing in it has gathered no pieces. -/
theorem gathers_empty (minimum : Nat) : (empty minimum).Gathers [] :=
  ⟨[], .nil, .nothing rfl rfl, rfl⟩

namespace Gathers

variable {o : Outbound} {pieces : List Piece}

/-- **One more piece** joins the last batch if it fits, and begins a new one if it does not. -/
theorem put (h : o.Gathers pieces) {piece : Piece} (hpiece : piece.Exact) :
    (o.put piece).Gathers (pieces ++ [piece]) := by
  obtain ⟨batches, hpacked, hholds, rfl⟩ := h
  have hnew := hholds.putNew hpacked piece
  rw [Gathers, minimum_put, Outbound.put]
  cases hholds with
  | nothing hclosed hcurrent =>
      rw [hcurrent]
      have hfirst := hpacked.begin hpiece fun _ hlast => absurd hlast (Option.not_mem_none _)
      exact ⟨_, hfirst, hnew, rfl⟩
  | @filling batches last chunk hclosed hcurrent hcontent hcapacity =>
      have hsize : chunk.content.size = last.bytes.length := by
        rw [← Pile.length_bytes, hcontent]
      have hle : last.bytes.length ≤ last.room o.minimum :=
        hpacked.length_le last List.mem_concat_self
      rw [hcurrent]
      simp only
      split
      · rename_i hfits
        rw [Chunk.room, hcapacity, hsize] at hfits
        refine ⟨batches ++ [last.add piece], hpacked.join hpiece (by omega), ?_, ?_⟩
        · refine .filling hclosed rfl ?_ hcapacity
          rw [Chunk.put, Pile.bytes_add, hcontent, Batch.bytes_add]
        · simp [Batch.pieces, Batch.add]
      · rename_i hfull
        rw [Chunk.room, hcapacity, hsize] at hfull
        refine ⟨_, hpacked.begin hpiece (fun batch hbatch => ?_), hnew, ?_⟩
        · rw [List.getLast?_concat] at hbatch
          obtain rfl := Option.some.inj hbatch
          omega
        · rw [List.flatMap_append, List.flatMap_singleton]
          rfl

/-- Pieces one behind the other. Induction on the pieces. -/
theorem putEach (h : o.Gathers pieces) {more : List Piece} (hmore : ∀ piece ∈ more, piece.Exact) :
    (more.foldl Outbound.put o).Gathers (pieces ++ more) := by
  induction more generalizing o pieces with
  | nil => rwa [List.append_nil]
  | cons piece more ih =>
      obtain ⟨hpiece, hmore⟩ := List.forall_mem_cons.mp hmore
      rw [List.append_cons]
      exact ih (h.put hpiece) hmore

/-- Replies are gathered one after the other, piece by piece. -/
theorem pushEach (h : o.Gathers pieces) (replies : List Reply) :
    (o.pushEach replies).Gathers (pieces ++ replies.flatMap Reply.pieces) := by
  induction replies generalizing o pieces with
  | nil => rwa [List.flatMap_nil, List.append_nil]
  | cons reply replies ih =>
      rw [List.flatMap_cons, ← List.append_assoc]
      exact ih (h.putEach reply.exact_pieces)

end Gathers

/-! ### Flushes -/

/-- A writer is handed chunks in order. What it took of the one that it failed at is a beginning of
it. -/
theorem Writer.exists_rest (writer : Writer) (n : Nat) (chunks : List Bytes) :
    ∃ rest, chunks = (writer.writeEach n chunks).written ++ rest ∧
      (writer.writeEach n chunks).torn <+: rest.headD [] := by
  induction chunks generalizing n with
  | nil => exact ⟨[], rfl, List.prefix_rfl⟩
  | cons chunk chunks ih =>
      rw [writeEach]
      cases writer.offered n with
      | failed bytes => exact ⟨chunk :: chunks, rfl, List.take_prefix bytes chunk⟩
      | taken =>
          obtain ⟨rest, hrest, htorn⟩ := ih (n + 1)
          exact ⟨rest, congrArg (chunk :: ·) hrest, htorn⟩

/-- A flush writes the chunks in front, and of the one that it fails at a beginning. -/
theorem exists_rest (o : Outbound) (writer : Writer) :
    ∃ rest, o.chunks = (o.flushInto writer).1.written ++ rest ∧
      (o.flushInto writer).1.torn <+: rest.headD [] := by
  by_cases hnil : o.chunks = []
  · rw [flushInto_of_nil hnil]
    exact ⟨[], hnil, List.prefix_rfl⟩
  · rw [flushInto_of_ne_nil hnil]
    exact writer.exists_rest 0 o.chunks

/-- **Chunks are filled as far as they go**, and no further. Take a buffer of any minimum size, any
pushes and flushes, whatever the writers made of them, and then any moment while one more reply is
written.

* Digits are counted by the logarithm. Every piece of the reply is just as long as the room that it
  asked for, and into whatever buffer it is put, there are as many more bytes in it.
* The pieces since the last flush fall into batches, in order, and the chunks are these batches.
  None is empty, and none is longer than the minimum, or than its first piece if that is longer. A
  chunk was closed for another piece only when there was no room for that piece.
* The chunk that is being filled is the last of them, has just that room, and is not longer.
* A flush hands the writer these chunks, in order: those that it took, and then perhaps one that it
  took a beginning of. -/
theorem chunks_packed (minimum : Nat) (acts : List Act) (reply : Reply) (n : Nat)
    (writer : Writer) :
    let o := (reply.pieces.take n).foldl put ((empty minimum).run acts).2
    let pieces := (roundsFrom [] acts).2.flatMap Reply.pieces ++ reply.pieces.take n
    let done := (o.flushInto writer).1
    (∀ m, (Decimal.digits m).length = Decimal.width m ∧ Decimal.width m = Nat.log 10 m + 1) ∧
      (∀ piece ∈ reply.pieces, piece.bytes.length = piece.size ∧
        ∀ o' : Outbound, (o'.put piece).readable = o'.readable + piece.size) ∧
      (∃ batches, batches.flatMap Batch.pieces = pieces ∧ o.chunks = batches.map Batch.bytes ∧
        Packed minimum batches ∧
        ∀ chunk, o.current = some chunk → chunk.content.size ≤ chunk.capacity ∧
          ∃ last ∈ batches.getLast?, chunk.content.bytes = last.bytes ∧
            chunk.capacity = last.room minimum) ∧
      ∃ rest, o.chunks = done.written ++ rest ∧ done.torn <+: rest.headD [] := by
  intro o pieces done
  have hrun : ((empty minimum).run acts).2 = (empty minimum).pushEach (roundsFrom [] acts).2 :=
    congrArg Prod.snd (run_eq minimum [] acts)
  have hgathers : o.Gathers pieces := by
    have hexact : ∀ piece ∈ reply.pieces.take n, piece.Exact :=
      fun piece hpiece => reply.exact_pieces piece (List.mem_of_mem_take hpiece)
    have hheld := (gathers_empty minimum).pushEach (roundsFrom [] acts).2
    rw [← hrun] at hheld
    exact hheld.putEach hexact
  have hminimum : o.minimum = minimum := by
    refine putEach_keeps (P := fun o' => o'.minimum = minimum)
      (fun o' piece h => (minimum_put o' piece).trans h) ?_ (reply.pieces.take n)
    rw [hrun, minimum_pushEach]
    rfl
  refine ⟨fun m => ⟨Decimal.length_digits m, Decimal.width_eq_log m⟩, fun piece hpiece => ?_, ?_,
    o.exists_rest writer⟩
  · have hexact := reply.exact_pieces piece hpiece
    refine ⟨hexact.length_bytes, fun o' => ?_⟩
    rw [← length_pending, pending_put, List.length_append, length_pending, hexact.length_bytes]
  · obtain ⟨batches, hpacked, hholds, hpieces⟩ := hgathers
    have hchunks := hholds.chunks_eq hpacked
    rw [hminimum] at hpacked
    refine ⟨batches, hpieces, hchunks, hpacked, fun chunk hchunk => ?_⟩
    obtain ⟨last, hlast, hcontent, hcapacity⟩ := hholds.of_current hchunk
    rw [hminimum] at hcapacity
    refine ⟨?_, last, hlast, hcontent, hcapacity⟩
    rw [← Pile.length_bytes, hcontent, hcapacity]
    exact hpacked.length_le last (List.mem_of_getLast? hlast)

/-- Two pieces of five bytes fit into twelve, and the third one does not. -/
example :
    ((empty 12).run [.push .ok, .push .null, .push .nullArray]).2.chunks =
      [Piece.ok.bytes ++ Piece.null.bytes, Piece.nullArray.bytes] := by
  decide

end Outbound

end RespStore
