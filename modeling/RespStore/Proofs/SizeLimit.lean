import RespStore.Proofs.Chunking
import RespStore.Proofs.Framing

/-!
# How large a request may be

The limit is on what the buffer holds when requests are taken off it, and that is more than the
request in front as soon as something follows it. So no request is taken off that is larger than the
limit, but whether one that is not gets through depends on how the input is cut and on how much
follows it.

* `Request.encode` is what a client sends for a request, and `Request.front_encode` finds it again.
* `Request.whole` says which requests are complete once so many bytes have been sent, and
  `Request.unfinished` how many bytes then belong to one that is not.
* `Request.StaysWithin` says that the buffer never holds more than the limit, in terms of what is
  sent and how it is cut.
* `Request.yields_iff_buffered` is the main result: that is exactly when all requests get through.
-/

namespace RespStore.Request

/-- What a client sends for a request: an array of its parts. -/
def encode (r : Request) : Bytes := (Reply.bulks (r.name :: r.args)).encode

/-- Whether the parts of a request and their number can be announced. -/
def Announced (r : Request) : Prop := EachFits (r.name :: r.args)

/-- A request that takes up what a client sends for it. -/
def sent (r : Request) : Taken := ⟨r, r.encode⟩

/-- The requests that are complete once `n` bytes of what a client sends for them have arrived. -/
def whole : List Request → Nat → List Request
  | [], _ => []
  | r :: requests, n =>
    if r.encode.length ≤ n then r :: whole requests (n - r.encode.length) else []

/-- How many of the first `n` bytes belong to a request that is not complete. -/
def unfinished (requests : List Request) (n : Nat) : Nat :=
  n - ((whole requests n).flatMap encode).length

/-- Whether what arrives with each chunk is within the limit, together with what is there of a
request that was not complete before. -/
def StaysWithin (limit : Nat) (requests : List Request) (chunks : List Bytes) : Prop :=
  ∀ before chunk after, chunks = before ++ chunk :: after →
    unfinished requests before.flatten.length + chunk.length ≤ limit

/-! ### What a client sends -/

section Encode

/-- Payloads are read as an array of payloads. -/
theorem frames_bulks (payloads : List Bytes) :
    (Reply.bulks payloads).frames = [.array (payloads.map .bulk)] := by
  have heach : Reply.framesOfEach (payloads.map .bulk) = payloads.map .bulk := by
    induction payloads with
    | nil => rfl
    | cons payload payloads ih => exact congrArg (Frame.bulk payload :: ·) ih
  exact congrArg (fun items => [Frame.array items]) heach

/-- Byte strings are parts of a request as they are. -/
theorem parts?_bulks (payloads : List Bytes) : parts? (payloads.map .bulk) = some payloads := by
  induction payloads with
  | nil => rfl
  | cons payload payloads ih => simp only [List.map_cons, parts?, part?, Option.bind_some, ih,
      Option.map_some]

/-- What a client sends for a request is that request, whatever follows. -/
theorem front_encode {r : Request} (h : r.Announced) (rest : Bytes) :
    front (r.encode ++ rest) = .request r rest := by
  have hreads := Reply.reads_encode (Reply.framed_bulks h).wellFramed rest
  rw [frames_bulks] at hreads
  obtain ⟨mid, hparse, rfl⟩ := hreads
  refine (front_of_ok hparse).trans ?_
  simp only [ofFrame, parts?_bulks]

/-- What a client sends for a request is not nothing. -/
theorem length_encode_pos {r : Request} (h : r.Announced) : 0 < r.encode.length := by
  have hfront := front_encode h []
  have hless := length_lt_of_front hfront
  rwa [List.append_nil] at hless

/-- The beginning of what a client sends for a request is incomplete. -/
theorem front_of_strict_beginning {r : Request} {beginning : Bytes} (rest : Bytes)
    (h : front (beginning ++ rest) = .request r []) (hrest : rest ≠ []) :
    front beginning = .incomplete := by
  cases hfront : front beginning with
  | incomplete => rfl
  | broken cause => exact nomatch h.symm.trans (front_append_of_broken hfront rest)
  | request other left =>
      obtain ⟨-, hleft⟩ := Front.request.inj (h.symm.trans (front_append_of_request hfront rest))
      exact absurd (List.append_eq_nil_iff.mp hleft.symm).2 hrest

end Encode

/-! ### What is complete once so many bytes have been sent -/

section Whole

/-- Nothing is complete before anything has arrived. -/
theorem whole_zero {requests : List Request} (h : ∀ r ∈ requests, r.Announced) :
    whole requests 0 = [] := by
  cases requests with
  | nil => rfl
  | cons r requests =>
      have hpos := length_encode_pos (h r List.mem_cons_self)
      rw [whole, if_neg (by omega)]

/-- Requests that have been sent are complete, and the bytes behind them decide about the others. -/
theorem whole_append (done requests : List Request) (n : Nat) :
    whole (done ++ requests) ((done.flatMap encode).length + n) = done ++ whole requests n := by
  induction done with
  | nil => rw [List.flatMap_nil, List.length_nil, Nat.zero_add, List.nil_append, List.nil_append]
  | cons r done ih =>
      rw [List.cons_append, whole, List.flatMap_cons, List.length_append, if_pos (by omega),
        Nat.add_assoc, Nat.add_sub_cancel_left, ih, List.cons_append]

/-- A part of what a client sends has arrived: the requests that are complete, and the beginning of
the one behind them. -/
structure Cut (requests : List Request) (arrived rest beginning : Bytes) (behind : List Request) :
    Prop where
  /-- The bytes of complete requests come first. -/
  bytes : arrived = (whole requests arrived.length).flatMap encode ++ beginning
  /-- The complete requests come first. -/
  split : requests = whole requests arrived.length ++ behind
  /-- The rest completes the others. -/
  completed : beginning ++ rest = behind.flatMap encode
  /-- The beginning holds no whole request. -/
  front : front beginning = .incomplete

/-- Wherever what a client sends is cut, it is cut like that. Induction on the requests. -/
theorem exists_cut {requests : List Request} (hannounced : ∀ r ∈ requests, r.Announced)
    {arrived rest : Bytes} (h : arrived ++ rest = requests.flatMap encode) :
    ∃ beginning behind, Cut requests arrived rest beginning behind := by
  induction requests generalizing arrived with
  | nil =>
      obtain ⟨rfl, rfl⟩ := List.append_eq_nil_iff.mp h
      exact ⟨[], [], rfl, rfl, rfl, front_nil⟩
  | cons r requests ih =>
      obtain ⟨hr, hannounced⟩ := List.forall_mem_cons.mp hannounced
      rw [List.flatMap_cons] at h
      by_cases hlength : r.encode.length ≤ arrived.length
      · obtain ⟨more, rfl⟩ : r.encode <+: arrived :=
          List.prefix_of_prefix_length_le ⟨_, h.symm⟩ ⟨_, rfl⟩ hlength
        rw [List.append_assoc] at h
        obtain ⟨beginning, behind, hcut⟩ := ih hannounced (List.append_cancel_left h)
        have hwhole : whole (r :: requests) (r.encode ++ more).length =
            r :: whole requests more.length := by
          rw [whole, if_pos hlength, List.length_append, Nat.add_sub_cancel_left]
        refine ⟨beginning, behind, ?_, ?_, hcut.completed, hcut.front⟩
        · rw [hwhole, List.flatMap_cons, List.append_assoc, ← hcut.bytes]
        · rw [hwhole, List.cons_append, ← hcut.split]
      · have hwhole : whole (r :: requests) arrived.length = [] := by rw [whole, if_neg hlength]
        obtain ⟨missing, hmissing⟩ : arrived <+: r.encode :=
          List.prefix_of_prefix_length_le ⟨_, rfl⟩ ⟨_, h.symm⟩ (Nat.le_of_not_le hlength)
        refine ⟨arrived, r :: requests, by rw [hwhole, List.flatMap_nil, List.nil_append],
          by rw [hwhole, List.nil_append], h, ?_⟩
        refine front_of_strict_beginning (r := r) missing ?_ ?_
        · rw [hmissing]
          exact List.append_nil r.encode ▸ front_encode hr []
        · rintro rfl
          rw [List.append_nil] at hmissing
          exact hlength (Nat.le_of_eq (congrArg List.length hmissing.symm))

namespace Cut

variable {requests behind behind' : List Request} {arrived more rest beginning beginning' : Bytes}

/-- The beginning of a request that has arrived is as long as what has been sent and is not
complete. -/
theorem length_beginning (h : Cut requests arrived rest beginning behind) :
    beginning.length = unfinished requests arrived.length := by
  have hlength := congrArg List.length h.bytes
  rw [List.length_append] at hlength
  rw [unfinished]
  omega

/-- More of it arrives, and so more of the requests are complete. -/
theorem whole_append (h : Cut requests arrived rest beginning behind) (more : Bytes) :
    whole requests (arrived ++ more).length =
      whole requests arrived.length ++ whole behind (beginning ++ more).length := by
  have hlength : (arrived ++ more).length =
      ((whole requests arrived.length).flatMap encode).length + (beginning ++ more).length := by
    rw [← List.length_append, ← List.append_assoc, ← h.bytes]
  calc whole requests (arrived ++ more).length
    _ = whole (whole requests arrived.length ++ behind)
          (((whole requests arrived.length).flatMap encode).length +
            (beginning ++ more).length) := by
        rw [← h.split, hlength]
    _ = _ := Request.whole_append ..

/-- Input that is cut behind one request after the other can be cut farther on, from the beginning
that is left. -/
theorem append (h : Cut requests arrived (more ++ rest) beginning behind)
    (h' : Cut behind (beginning ++ more) rest beginning' behind') :
    Cut requests (arrived ++ more) rest beginning' behind' where
  bytes := by
    rw [h.whole_append, List.flatMap_append, List.append_assoc, ← h'.bytes, ← List.append_assoc,
      ← h.bytes]
  split := by rw [h.whole_append, List.append_assoc, ← h'.split, ← h.split]
  completed := h'.completed
  front := h'.front

/-- When everything has arrived, every request is complete. -/
theorem whole_eq (h : Cut requests arrived [] beginning behind)
    (harrived : arrived = requests.flatMap encode) :
    whole requests arrived.length = requests ∧ beginning = [] := by
  have hwhole : whole requests arrived.length = requests := by
    have hall := Request.whole_append requests [] 0
    rwa [List.append_nil, Nat.add_zero, whole, List.append_nil, ← harrived] at hall
  have hbytes := h.bytes
  rw [hwhole, ← harrived] at hbytes
  exact ⟨hwhole, List.self_eq_append_right.mp hbytes⟩

end Cut

/-- No chunk is too much when there is none. -/
theorem staysWithin_nil (limit : Nat) (requests : List Request) : StaysWithin limit requests [] :=
  fun _ _ _ h => nomatch List.append_eq_nil_iff.mp h.symm

/-- One more chunk is within the limit, or it is not. -/
theorem staysWithin_concat {limit : Nat} {requests : List Request} {chunks : List Bytes}
    {chunk : Bytes} : StaysWithin limit requests (chunks ++ [chunk]) ↔
      StaysWithin limit requests chunks ∧
      unfinished requests chunks.flatten.length + chunk.length ≤ limit := by
  constructor
  · exact fun h => ⟨fun before c after heq =>
      h before c (after ++ [chunk]) (by rw [heq, List.append_assoc, List.cons_append]),
      h chunks chunk [] rfl⟩
  · rintro ⟨hbefore, hlast⟩ before c after heq
    rcases List.eq_nil_or_concat after with rfl | ⟨initial, final, rfl⟩
    · obtain ⟨rfl, hchunk⟩ := List.append_inj' heq rfl
      obtain rfl := List.singleton_inj.mp hchunk
      exact hlast
    · rw [List.concat_eq_append, ← List.cons_append, ← List.append_assoc] at heq
      exact hbefore before c initial (List.append_inj' heq rfl).1

/-- When the buffer gets too full, there is a chunk that makes it so first. -/
theorem exists_first_excess {limit : Nat} {requests : List Request} {chunks : List Bytes}
    (h : ¬ StaysWithin limit requests chunks) :
    ∃ before chunk after, chunks = before ++ chunk :: after ∧ StaysWithin limit requests before ∧
      limit < unfinished requests before.flatten.length + chunk.length := by
  induction chunks using List.reverseRecOn with
  | nil => exact absurd (staysWithin_nil limit requests) h
  | append_singleton chunks last ih =>
      by_cases hbefore : StaysWithin limit requests chunks
      · exact ⟨chunks, last, [], rfl, hbefore,
          Nat.lt_of_not_le fun hlast => h (staysWithin_concat.mpr ⟨hbefore, hlast⟩)⟩
      · obtain ⟨before, chunk, after, rfl, hfirst⟩ := ih hbefore
        exact ⟨before, chunk, after ++ [last], by rw [List.append_assoc, List.cons_append], hfirst⟩

end Whole

/-! ### Taking requests off within the limit -/

section Limit

variable {limit : Nat}

/-- Requests of which all has arrived are taken off, and the beginning of the one behind them
stays. -/
theorem drain_sent {done : List Request} (hannounced : ∀ r ∈ done, r.Announced) {beginning : Bytes}
    (hfront : front beginning = .incomplete) {buffer : Buffer}
    (hbytes : buffer.bytes = done.flatMap encode ++ beginning) (hsize : buffer.size ≤ limit) :
    drain limit buffer = ⟨done.map sent, none, Buffer.empty.append beginning⟩ := by
  induction done generalizing buffer with
  | nil =>
      rw [List.flatMap_nil, List.nil_append] at hbytes
      have hbuffer : buffer = Buffer.empty.append beginning := Buffer.ext_bytes hbytes
      rw [drain_of_incomplete (hbytes ▸ hfront) hsize, hbuffer]
      rfl
  | cons r done ih =>
      obtain ⟨hr, hannounced⟩ := List.forall_mem_cons.mp hannounced
      rw [List.flatMap_cons, List.append_assoc] at hbytes
      have hfirst := hbytes ▸ front_encode hr (done.flatMap encode ++ beginning)
      rcases decode_cases buffer (buffer.length_bytes.symm ▸ hsize) with
        ⟨hother, -⟩ | ⟨_, _, hother, -⟩ | ⟨_, left, hother, hdecode⟩
      · exact nomatch hfirst.symm.trans hother
      · exact nomatch hfirst.symm.trans hother
      · obtain ⟨rfl, hleft⟩ := Front.request.inj (hfirst.symm.trans hother)
        have htaken := take_append_of_decode hdecode
        rw [← hleft, hbytes] at htaken
        rw [drain_of_request hdecode, ih hannounced hleft.symm
          (Nat.le_trans (Nat.le_of_lt (size_decode_lt hdecode)) hsize), hbytes,
          List.append_cancel_right htaken]
        rfl

/-- No request that is taken off a buffer is larger than the limit. -/
theorem length_taken_drain_le {buffer : Buffer} :
    ∀ t ∈ (drain limit buffer).taken, t.bytes.length ≤ limit := by
  fun_induction drain limit buffer with
  | case1 => exact List.forall_mem_nil _
  | case2 => exact List.forall_mem_nil _
  | case3 buffer request left hdecode ih =>
      refine List.forall_mem_cons.mpr ⟨?_, ih⟩
      have hlength := congrArg List.length (take_append_of_decode hdecode)
      rw [List.length_append, buffer.length_bytes] at hlength
      have hsize := size_le_of_decode hdecode
      change (buffer.bytes.take (buffer.size - left.size)).length ≤ limit
      omega

/-- No request that is larger than the limit is taken off, however the input is cut. -/
theorem length_taken_feed_le {buffer : Buffer} {chunks : List Bytes} :
    ∀ t ∈ (feed limit buffer chunks).taken, t.bytes.length ≤ limit := by
  induction chunks generalizing buffer with
  | nil => exact List.forall_mem_nil _
  | cons chunk chunks ih =>
      rw [feed]
      split
      · exact length_taken_drain_le
      · exact List.forall_mem_append.mpr ⟨length_taken_drain_le, ih⟩

/-- One chunk is fed by taking off all that is there behind it. -/
theorem feed_singleton (buffer : Buffer) (chunk : Bytes) :
    feed limit buffer [chunk] = drain limit (buffer.append chunk) := by
  rw [feed]
  split
  · rfl
  · rename_i hnone
    simp only [feed, Drained.behind, List.append_nil, ← hnone]

/-- Feeding some chunks and then more. -/
theorem feed_append {buffer : Buffer} {chunks more : List Bytes}
    (h : (feed limit buffer chunks).fault = none) :
    feed limit buffer (chunks ++ more) =
      (feed limit (feed limit buffer chunks).left more).behind
        (feed limit buffer chunks).taken := by
  induction chunks generalizing buffer with
  | nil => rfl
  | cons chunk chunks ih =>
      rw [List.cons_append, feed, feed]
      rw [feed] at h
      cases hfault : (drain limit (buffer.append chunk)).fault with
      | some cause =>
          rw [hfault] at h
          cases hfault.symm.trans h
      | none =>
          rw [hfault] at h
          simp only
          rw [ih h, Drained.behind_behind]
          rfl

/-- One more chunk, when the requests that were complete have been taken off: if it stays within the
limit, so are those that it completes, and otherwise there is the error. -/
theorem feed_concat {requests behind : List Request} (hannounced : ∀ r ∈ requests, r.Announced)
    {chunks : List Bytes} {chunk rest beginning : Bytes}
    (hcut : Cut requests chunks.flatten (chunk ++ rest) beginning behind)
    (hfeed : feed limit .empty chunks = ⟨(whole requests chunks.flatten.length).map sent, none,
      Buffer.empty.append beginning⟩) :
    (unfinished requests chunks.flatten.length + chunk.length ≤ limit →
      ∃ beginning' behind', Cut requests (chunks ++ [chunk]).flatten rest beginning' behind' ∧
        feed limit .empty (chunks ++ [chunk]) =
          ⟨(whole requests (chunks ++ [chunk]).flatten.length).map sent, none,
            Buffer.empty.append beginning'⟩) ∧
    (limit < unfinished requests chunks.flatten.length + chunk.length → ∀ after,
      (feed limit .empty (chunks ++ chunk :: after)).taken =
        (whole requests chunks.flatten.length).map sent ∧
      (feed limit .empty (chunks ++ chunk :: after)).fault = some .tooLarge) := by
  have hsize : ((Buffer.empty.append beginning).append chunk).size =
      unfinished requests chunks.flatten.length + chunk.length := by
    rw [← hcut.length_beginning]
    exact congrArg (· + chunk.length) (Nat.zero_add _)
  have hnone : (feed limit .empty chunks).fault = none := by rw [hfeed]
  have hflatten : (chunks ++ [chunk]).flatten = chunks.flatten ++ chunk := by
    rw [List.flatten_concat]
  constructor
  · intro hwithin
    have hbehind : ∀ r ∈ behind, r.Announced := fun r hr =>
      hannounced r (hcut.split ▸ List.mem_append_right _ hr)
    have hrest : (beginning ++ chunk) ++ rest = behind.flatMap encode := by
      rw [List.append_assoc, hcut.completed]
    obtain ⟨beginning', behind', hnext⟩ := exists_cut hbehind hrest
    have hdone : ∀ r ∈ whole behind (beginning ++ chunk).length, r.Announced := fun r hr =>
      hbehind r (hnext.split ▸ List.mem_append_left _ hr)
    have hdrain := @drain_sent limit _ hdone _ hnext.front
      ((Buffer.empty.append beginning).append chunk) hnext.bytes (hsize ▸ hwithin)
    refine ⟨beginning', behind', hflatten ▸ hcut.append hnext, ?_⟩
    rw [feed_append hnone, hfeed, feed_singleton, hdrain, hflatten, hcut.whole_append,
      List.map_append]
    rfl
  · intro hlarge after
    rw [feed_append hnone, hfeed, feed, drain_eq, decode_of_tooLarge (hsize.symm ▸ hlarge)]
    exact ⟨List.append_nil _, rfl⟩

/-- As long as the buffer stays within the limit, every request is taken off as soon as it is
complete. Induction on the chunks from the end. -/
theorem feed_of_staysWithin {requests : List Request} (hannounced : ∀ r ∈ requests, r.Announced)
    {chunks : List Bytes} {rest : Bytes} (h : chunks.flatten ++ rest = requests.flatMap encode)
    (hwithin : StaysWithin limit requests chunks) :
    ∃ beginning behind, Cut requests chunks.flatten rest beginning behind ∧
      feed limit .empty chunks = ⟨(whole requests chunks.flatten.length).map sent, none,
        Buffer.empty.append beginning⟩ := by
  induction chunks using List.reverseRecOn generalizing rest with
  | nil =>
      obtain ⟨beginning, behind, hcut⟩ := exists_cut hannounced h
      have hnothing : beginning = [] := (List.append_eq_nil_iff.mp hcut.bytes.symm).2
      refine ⟨beginning, behind, hcut, ?_⟩
      rw [List.flatten_nil, List.length_nil, whole_zero hannounced, hnothing]
      rfl
  | append_singleton chunks chunk ih =>
      obtain ⟨hbefore, hlast⟩ := staysWithin_concat.mp hwithin
      rw [List.flatten_concat, List.append_assoc] at h
      obtain ⟨beginning, behind, hcut, hfeed⟩ := ih h hbefore
      exact (feed_concat hannounced hcut hfeed).1 hlast

/-- **The limit is on what is buffered.** No request is taken off that takes up more bytes than the
limit allows, whatever the input is and however it is cut. When the input is what a client sends for
some requests, all of them get through exactly when the buffer stays within the limit: each chunk
together with what came before it of a request that is not complete. The first chunk that is too
much ends it. The requests that were complete before have been taken off by then, and none of those
that this chunk completes is, though each of them may be as small as it likes. -/
theorem yields_iff_buffered {requests : List Request} (hannounced : ∀ r ∈ requests, r.Announced)
    {chunks : List Bytes} (h : chunks.flatten = requests.flatMap encode) :
    (∀ input : List Bytes, ∀ t ∈ (feed limit .empty input).taken, t.bytes.length ≤ limit) ∧
    (feed limit .empty chunks = ⟨requests.map sent, none, .empty⟩ ↔
      StaysWithin limit requests chunks) ∧
    ∀ before chunk after, chunks = before ++ chunk :: after → StaysWithin limit requests before →
      limit < unfinished requests before.flatten.length + chunk.length →
      (feed limit .empty chunks).taken = (whole requests before.flatten.length).map sent ∧
      (feed limit .empty chunks).fault = some .tooLarge := by
  have hexcess : ∀ before chunk after, chunks = before ++ chunk :: after →
      StaysWithin limit requests before →
      limit < unfinished requests before.flatten.length + chunk.length →
      (feed limit .empty chunks).taken = (whole requests before.flatten.length).map sent ∧
      (feed limit .empty chunks).fault = some .tooLarge := by
    rintro before chunk after rfl hbefore hlarge
    rw [List.flatten_append, List.flatten_cons] at h
    obtain ⟨beginning, behind, hcut, hfeed⟩ := feed_of_staysWithin hannounced h hbefore
    exact (feed_concat hannounced hcut hfeed).2 hlarge after
  refine ⟨fun input => length_taken_feed_le, ⟨fun hfeed => ?_, fun hwithin => ?_⟩, hexcess⟩
  · by_contra hexceeds
    obtain ⟨before, chunk, after, hchunks, hbefore, hlarge⟩ := exists_first_excess hexceeds
    have hfault := (hexcess before chunk after hchunks hbefore hlarge).2
    rw [hfeed] at hfault
    exact nomatch hfault
  · rw [← List.append_nil chunks.flatten] at h
    obtain ⟨beginning, behind, hcut, hfeed⟩ := feed_of_staysWithin hannounced h hwithin
    rw [List.append_nil] at h
    obtain ⟨hwhole, rfl⟩ := hcut.whole_eq h
    rw [hfeed, hwhole]
    rfl

/-- A request of fourteen bytes. -/
def pinging : Request := ⟨Bytes.ofString "PING", []⟩

/-- The two requests get through one at a time, and neither of them does when they come together. -/
theorem yields_iff_buffered_pinging :
    pinging.encode.length = 14 ∧
    feed 14 .empty [pinging.encode, pinging.encode] =
      ⟨[pinging.sent, pinging.sent], none, .empty⟩ ∧
    (feed 14 .empty [pinging.encode ++ pinging.encode]).taken = [] ∧
    (feed 14 .empty [pinging.encode ++ pinging.encode]).fault = some .tooLarge := by
  have hannounced : ∀ r ∈ [pinging, pinging], r.Announced := by
    have hname : pinging.name.length < 2 ^ 63 := by decide
    have hone : pinging.Announced := ⟨by decide, List.forall_mem_singleton.mpr hname⟩
    exact List.forall_mem_cons.mpr ⟨hone, List.forall_mem_singleton.mpr hone⟩
  have hcut := @yields_iff_buffered 14 _ hannounced [pinging.encode, pinging.encode]
    (by decide +kernel)
  have hjoined := @yields_iff_buffered 14 _ hannounced [pinging.encode ++ pinging.encode]
    (by decide +kernel)
  refine ⟨by decide +kernel, hcut.2.1.mpr ?_, hjoined.2.2 [] _ [] rfl ?_ (by decide +kernel)⟩
  · have hfirst : StaysWithin 14 [pinging, pinging] ([] ++ [pinging.encode]) :=
      staysWithin_concat.mpr ⟨staysWithin_nil _ _, by decide +kernel⟩
    exact staysWithin_concat.mpr ⟨hfirst, by decide +kernel⟩
  · exact staysWithin_nil _ _

end Limit

end RespStore.Request
