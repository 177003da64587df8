import RespStore.Proofs.Decimal.Canonical
import RespStore.Proofs.SizeLimit

/-!
# What decoding takes off a buffer

A buffer that begins with a whole frame loses that frame, whether it is a request or not. A buffer
that begins with the beginning of a frame, or with no frame at all, is left alone. So what a client
has sent is taken off request by request, and the beginning of the next one stays.

* `Frame.Spells` says which frames can be part of a request, and which byte string they are then.
* `Request.ofFrame_eq_ok_iff` says which frames are requests.
* `Request.decode_exact` is the main result.
-/

namespace RespStore

/-- Whether a frame stands for a byte string as part of a request. A payload stands for itself, a
line of text for its bytes, and an integer for its canonical decimal. -/
inductive Frame.Spells : Frame → Bytes → Prop where
  /-- A payload. -/
  | bulk (payload : Bytes) : Spells (.bulk payload) payload
  /-- A line of text. -/
  | simple (text : String) : Spells (.simple text) (Bytes.ofString text)
  /-- An integer. -/
  | integer {value : Int64} {text : Bytes} (h : Decimal.Canonical value.toInt text) :
      Spells (.integer value) text

/-- Whether a frame can be part of a request: it is a payload, a line of text or an integer. -/
def Frame.IsPart : Frame → Prop
  | .bulk _ => True
  | .simple _ => True
  | .integer _ => True
  | _ => False

namespace Request

/-! ### The frames that are requests -/

/-- A frame is read as a part of a request just when it spells that part. -/
theorem part?_eq_some_iff {item : Frame} {part : Bytes} :
    part? item = some part ↔ item.Spells part := by
  constructor
  · intro h
    cases item with
    | bulk payload => exact Option.some.inj h ▸ .bulk payload
    | simple text => exact Option.some.inj h ▸ .simple text
    | integer value => exact .integer (Decimal.canonical_iff.mpr (Option.some.inj h).symm)
    | _ => exact nomatch h
  · intro h
    cases h with
    | bulk => rfl
    | simple => rfl
    | integer htext => exact congrArg some (Decimal.canonical_iff.mp htext).symm

/-- A frame can be read as a part of a request just when it is one. -/
theorem isSome_part?_iff {item : Frame} : (part? item).isSome ↔ item.IsPart := by
  cases item with
  | bulk payload => exact iff_of_true rfl trivial
  | simple text => exact iff_of_true rfl trivial
  | integer value => exact iff_of_true rfl trivial
  | _ => exact iff_of_false Bool.false_ne_true id

/-- Several frames are read as parts just when the first one is, and the others are. -/
theorem parts?_cons_eq_some_iff {item : Frame} {items : List Frame} {parts : List Bytes} :
    parts? (item :: items) = some parts ↔
      ∃ part rest, part? item = some part ∧ parts? items = some rest ∧ parts = part :: rest := by
  simp only [parts?, Option.bind_eq_some_iff, Option.map_eq_some_iff]
  constructor
  · rintro ⟨part, hpart, rest, hrest, rfl⟩
    exact ⟨part, rest, hpart, hrest, rfl⟩
  · rintro ⟨part, rest, hpart, hrest, rfl⟩
    exact ⟨part, hpart, rest, hrest, rfl⟩

/-- Several frames are read as parts just when each of them spells its part. -/
theorem parts?_eq_some_iff {items : List Frame} {parts : List Bytes} :
    parts? items = some parts ↔ List.Forall₂ Frame.Spells items parts := by
  induction items generalizing parts with
  | nil =>
      rw [List.forall₂_nil_left_iff, parts?, Option.some.injEq]
      exact eq_comm
  | cons item items ih =>
      simp only [parts?_cons_eq_some_iff, part?_eq_some_iff, ih]
      constructor
      · rintro ⟨part, rest, hpart, hrest, rfl⟩
        exact .cons hpart hrest
      · rintro (_ | ⟨hpart, hrest⟩)
        exact ⟨_, _, hpart, hrest, rfl⟩

/-- The parts of a sequence of frames can be taken exactly when each of the frames can be a part. -/
theorem isSome_parts?_iff {items : List Frame} :
    (parts? items).isSome ↔ ∀ item ∈ items, item.IsPart := by
  induction items with
  | nil => exact iff_of_true rfl (List.forall_mem_nil _)
  | cons item items ih =>
      simp only [Option.isSome_iff_exists, parts?_cons_eq_some_iff] at ih ⊢
      rw [List.forall_mem_cons, ← isSome_part?_iff, Option.isSome_iff_exists, ← ih]
      constructor
      · rintro ⟨_, part, rest, hpart, hrest, rfl⟩
        exact ⟨⟨part, hpart⟩, rest, hrest⟩
      · rintro ⟨⟨part, hpart⟩, rest, hrest⟩
        exact ⟨_, part, rest, hpart, hrest, rfl⟩

/-- The frames of a request are arrays whose elements stand for its parts. -/
theorem ofFrame_eq_ok_iff {frame : Frame} {r : Request} : ofFrame frame = .ok r ↔
    ∃ items, frame = .array items ∧ List.Forall₂ Frame.Spells items (r.name :: r.args) := by
  cases frame with
  | array items =>
      simp only [Frame.array.injEq, exists_eq_left', ← parts?_eq_some_iff]
      rw [ofFrame]
      split
      · rename_i hnone
        simp only [hnone, reduceCtorEq]
      · rename_i hempty
        simp only [hempty, reduceCtorEq, Option.some.injEq]
      · rename_i name args hparts
        obtain ⟨name', args'⟩ := r
        simp only [hparts, Except.ok.injEq, mk.injEq, Option.some.injEq, List.cons.injEq]
  | _ => simp only [ofFrame, reduceCtorEq, false_and, exists_false]

/-- A frame is a request exactly when it is an array that is not empty, of frames that can be parts
of a request. -/
theorem exists_ofFrame_iff {frame : Frame} : (∃ r, ofFrame frame = .ok r) ↔
    ∃ items, frame = .array items ∧ items ≠ [] ∧ ∀ item ∈ items, item.IsPart := by
  simp only [ofFrame_eq_ok_iff, ← parts?_eq_some_iff, ← isSome_parts?_iff]
  constructor
  · rintro ⟨r, items, rfl, hparts⟩
    refine ⟨items, rfl, ?_, hparts ▸ rfl⟩
    rintro rfl
    exact nomatch hparts
  · rintro ⟨items, rfl, hne, hsome⟩
    obtain ⟨parts, hparts⟩ := Option.isSome_iff_exists.mp hsome
    cases parts with
    | nil => exact absurd (List.forall₂_nil_right_iff.mp (parts?_eq_some_iff.mp hparts)) hne
    | cons name args => exact ⟨⟨name, args⟩, items, rfl, hparts⟩

/-! ### One frame at the front -/

section Decode

variable {limit : Nat} {buffer : Buffer}

/-- A whole frame is taken off, whether it is a request or not. -/
theorem decode_of_read {read : Frame.Read Frame buffer.bytes} (hsize : buffer.size ≤ limit)
    (h : Frame.parse buffer.bytes = .ok read) :
    decode limit buffer =
      (((ofFrame read.value).map some).mapError .misshapen, buffer.after read) := by
  rw [decode, if_neg (Nat.not_lt.mpr hsize)]
  simp only [h]
  cases ofFrame read.value with
  | error cause => rfl
  | ok request => rfl

/-- A buffer with the beginning of a frame is left alone. -/
theorem decode_of_incomplete (hsize : buffer.size ≤ limit)
    (h : Frame.parse buffer.bytes = .error .incomplete) :
    decode limit buffer = (.ok none, buffer) := by
  rw [decode, if_neg (Nat.not_lt.mpr hsize)]
  simp only [h]

/-- A buffer with something that is no frame is refused, and left alone. -/
theorem decode_of_malformed {cause : Frame.ParseError} (hsize : buffer.size ≤ limit)
    (h : Frame.parse buffer.bytes = .error cause) (hcause : cause ≠ .incomplete) :
    decode limit buffer = (.error (.malformed cause), buffer) := by
  rw [decode, if_neg (Nat.not_lt.mpr hsize)]
  simp only [h]

/-- What is left of the buffer are the bytes behind the frame. -/
theorem bytes_after {read : Frame.Read Frame buffer.bytes}
    (h : Frame.parse buffer.bytes = .ok read) :
    (buffer.after read).bytes = buffer.bytes.drop read.taken :=
  List.append_cancel_left
    ((Frame.parse?_take_append h).1.trans (List.take_append_drop read.taken buffer.bytes).symm)

/-- Requests that were sent one behind the other are taken off one behind the other, and the
beginning of another one stays. -/
theorem decodeAll_sent {requests : List Request} {further : Request} {start : Bytes}
    (hannounced : ∀ r ∈ requests, r.Announced) (hfurther : further.Announced)
    (hstart : start <+: further.encode) (hne : start ≠ further.encode)
    (hbytes : buffer.bytes = requests.flatMap encode ++ start) (hsize : buffer.size ≤ limit) :
    decodeAll limit buffer = (requests, none, Buffer.empty.append start) := by
  obtain ⟨missing, hmissing⟩ := hstart
  have hfront : front start = .incomplete := by
    refine front_of_strict_beginning (r := further) missing ?_ ?_
    · rw [hmissing]
      exact List.append_nil further.encode ▸ front_encode hfurther []
    · rintro rfl
      exact hne ((List.append_nil start).symm.trans hmissing)
  have hrequests : (requests.map sent).map Taken.request = requests := by
    rw [List.map_map]
    exact List.map_id requests
  rw [decodeAll_eq_drain, drain_sent hannounced hfront hbytes hsize, hrequests]

/-- **Requests are taken off exactly.** Take a buffer within the limit.

* If it holds what a client sends for some requests, and then a strict beginning of what it sends
  for another one, decoding again and again yields these requests in order and then nothing, and
  leaves that beginning. (A 64-bit signed integer counts the bytes of each part and the parts of
  each request, as it does for all that fits into memory.)
* If it begins with a whole frame, just the bytes of that frame are taken off. There is a request
  exactly when the frame is an array that is not empty, of payloads, lines of text and integers. Its
  name and arguments are then what these stand for. Otherwise there is an error about the shape of
  the frame.
* If it begins with the beginning of a frame or with no frame, it is left alone.

A buffer beyond the limit is left alone as well. -/
theorem decode_exact (limit : Nat) :
    (∀ (requests : List Request) (further : Request) (start : Bytes) (buffer : Buffer),
      (∀ r ∈ requests, r.Announced) → further.Announced →
      start <+: further.encode → start ≠ further.encode →
      buffer.bytes = requests.flatMap encode ++ start → buffer.size ≤ limit →
      decodeAll limit buffer = (requests, none, Buffer.empty.append start)) ∧
    (∀ buffer : Buffer, buffer.size ≤ limit →
      (∀ read, Frame.parse buffer.bytes = .ok read →
        (decode limit buffer).2.bytes = buffer.bytes.drop read.taken ∧
        ((∃ r, (decode limit buffer).1 = .ok (some r)) ↔
          ∃ items, read.value = .array items ∧ items ≠ [] ∧ ∀ item ∈ items, item.IsPart) ∧
        (∀ r, (decode limit buffer).1 = .ok (some r) ↔
          ∃ items, read.value = .array items ∧
            List.Forall₂ Frame.Spells items (r.name :: r.args)) ∧
        ((¬ ∃ r, (decode limit buffer).1 = .ok (some r)) →
          ∃ cause, (decode limit buffer).1 = .error (.misshapen cause))) ∧
      (Frame.parse buffer.bytes = .error .incomplete → decode limit buffer = (.ok none, buffer)) ∧
      ∀ cause, Frame.parse buffer.bytes = .error cause → cause ≠ .incomplete →
        decode limit buffer = (.error (.malformed cause), buffer)) ∧
    ∀ buffer : Buffer, limit < buffer.size → decode limit buffer = (.error .tooLarge, buffer) := by
  refine ⟨fun requests further start buffer => decodeAll_sent, fun buffer hsize => ⟨?_, ?_, ?_⟩,
    fun buffer => decode_of_tooLarge⟩
  · intro read hread
    rw [decode_of_read hsize hread]
    have hyields (r : Request) :
        ((ofFrame read.value).map some).mapError DecodeError.misshapen = .ok (some r) ↔
          ofFrame read.value = .ok r := by
      cases ofFrame read.value with
      | error cause => exact iff_of_false nofun nofun
      | ok other => simp only [Except.map, Except.mapError, Except.ok.injEq, Option.some.injEq]
    refine ⟨bytes_after hread, ?_, fun r => (hyields r).trans ofFrame_eq_ok_iff, fun hnone => ?_⟩
    · simp only [hyields, exists_ofFrame_iff]
    · cases hframe : ofFrame read.value with
      | error cause => exact ⟨cause, rfl⟩
      | ok r => exact absurd ⟨r, (hyields r).mpr hframe⟩ hnone
  · exact decode_of_incomplete hsize
  · exact fun cause => decode_of_malformed hsize

/-- A request whose argument holds the end of a line. -/
def echoingBreak : Request := ⟨Bytes.ofString "ECHO", [Bytes.ofString "a\r\nb"]⟩

/-- A request written as a line of text and an integer with a zero too many, and one byte more. -/
def loose : Buffer := Buffer.empty.append (Bytes.ofString "*2\r\n+GET\r\n:-07\r\n*")

/-- Two requests and the beginning of a third one, which stays; and a request that is made of a line
and an integer, the latter without its zero. -/
theorem decode_exact_loose :
    decodeAll 64 (Buffer.empty.append
        ([echoingBreak, pinging].flatMap encode ++ pinging.encode.take 9)) =
      ([echoingBreak, pinging], none, Buffer.empty.append (pinging.encode.take 9)) ∧
    ∃ read items, Frame.parse loose.bytes = .ok read ∧ read.taken = 16 ∧
      (decode 64 loose).2.bytes = [42] ∧ read.value = .array items ∧
      List.Forall₂ Frame.Spells items [Bytes.ofString "GET", Bytes.ofString "-7"] := by
  have hpinging : pinging.Announced :=
    ⟨by decide, List.forall_mem_singleton.mpr (by decide : pinging.name.length < 2 ^ 63)⟩
  have hechoing : echoingBreak.Announced := by
    refine ⟨by decide, List.forall_mem_cons.mpr ⟨?_, List.forall_mem_singleton.mpr ?_⟩⟩
    · exact (by decide : echoingBreak.name.length < 2 ^ 63)
    · exact (by decide : (Bytes.ofString "a\r\nb").length < 2 ^ 63)
  obtain ⟨hsent, hfront, -⟩ := decode_exact 64
  refine ⟨hsent _ pinging _ _ (List.forall_mem_cons.mpr ⟨hechoing, List.forall_mem_singleton.mpr
    hpinging⟩) hpinging (List.take_prefix _ _) (by decide +kernel) rfl (by decide +kernel), ?_⟩
  have htaken : (Frame.parse loose.bytes).map Frame.Read.taken = .ok 16 := by decide +kernel
  have hyields : (decode 64 loose).1 =
      .ok (some ⟨Bytes.ofString "GET", [Bytes.ofString "-7"]⟩) := by decide +kernel
  cases hread : Frame.parse loose.bytes with
  | error cause =>
      rw [hread] at htaken
      cases htaken
  | ok read =>
      rw [hread] at htaken
      obtain ⟨hdrop, -, hspells, -⟩ := (hfront loose (by decide)).1 read hread
      obtain ⟨items, hitems, hparts⟩ := (hspells _).mp hyields
      rw [Except.ok.inj htaken] at hdrop
      exact ⟨read, items, rfl, Except.ok.inj htaken, hdrop, hitems, hparts⟩

end Decode

end Request

end RespStore
