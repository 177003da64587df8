import RespStore.Connection.Reader
import RespStore.Proofs.Wire.Reading

/-!
# Requests off input that arrives in pieces

What the next request is depends on the bytes of the input alone, and neither on how they are
cut into chunks nor on when the chunks arrive.

* `Request.front` is what stands at the front of some input: a request, something that is none,
  or only the beginning of one. More input changes it in the last case only.
* `Reader.Expects` relates a reader to the whole input that is still to come, from its buffer to
  what has not arrived yet. `Reader.poll_cases` says that the reader finds what stands at the
  front of it, or has to wait.
-/

namespace RespStore

namespace Request

/-- What stands at the front of some input. -/
inductive Front where
  /-- The beginning of a request, or nothing. -/
  | incomplete
  /-- Something that is no request. -/
  | broken (cause : DecodeError)
  /-- A request, and what follows it. -/
  | request (request : Request) (rest : Bytes)

/-- What stands at the front of some input. -/
def front (input : Bytes) : Front :=
  match Frame.parse? input with
  | .error .incomplete => .incomplete
  | .error cause => .broken (.malformed cause)
  | .ok (frame, rest) =>
    match ofFrame frame with
    | .error cause => .broken (.misshapen cause)
    | .ok request => .request request rest

variable {input rest : Bytes}

/-- Bytes that are no frame are no request. -/
theorem front_of_error {cause : Frame.ParseError} (h : Frame.parse? input = .error cause)
    (hcause : cause ≠ .incomplete) : front input = .broken (.malformed cause) := by
  rw [front]
  cases cause with
  | incomplete => exact absurd rfl hcause
  | _ => simp only [h]

/-- What a frame is as a request decides about what stands at the front. -/
theorem front_of_ok {frame : Frame} (h : Frame.parse? input = .ok (frame, rest)) :
    front input = match ofFrame frame with
      | .error cause => .broken (.misshapen cause)
      | .ok request => .request request rest := by
  rw [front]
  simp only [h]

/-- No input is the beginning of anything. -/
theorem front_nil : front [] = .incomplete := by
  rw [front]
  rw [Frame.parse?_nil]

/-- A request takes up some of the input. -/
theorem length_lt_of_front {request : Request} (h : front input = .request request rest) :
    rest.length < input.length := by
  rw [front] at h
  split at h
  · exact nomatch h
  · exact nomatch h
  · rename_i frame left hparse
    split at h
    · exact nomatch h
    · obtain ⟨-, rfl⟩ := Front.request.inj h
      exact Frame.length_lt_of_parse? hparse

/-- A request stays what it is, whatever follows. -/
theorem front_append_of_request {request : Request} (h : front input = .request request rest)
    (more : Bytes) : front (input ++ more) = .request request (rest ++ more) := by
  cases hparse : Frame.parse? input with
  | error cause =>
      by_cases hcause : cause = .incomplete
      · rw [front] at h
        rw [hparse, hcause] at h
        exact nomatch h
      · rw [front_of_error hparse hcause] at h
        exact nomatch h
  | ok p =>
      obtain ⟨frame, left⟩ := p
      rw [front_of_ok hparse] at h
      rw [front_of_ok ((Frame.stable_parse? input).ok hparse more)]
      cases hframe : ofFrame frame with
      | error cause =>
          rw [hframe] at h
          exact nomatch h
      | ok request' =>
          rw [hframe] at h
          obtain ⟨rfl, rfl⟩ := Front.request.inj h
          rfl

/-- What is no request stays none, whatever follows. -/
theorem front_append_of_broken {cause : DecodeError} (h : front input = .broken cause)
    (more : Bytes) : front (input ++ more) = .broken cause := by
  cases hparse : Frame.parse? input with
  | error fault =>
      by_cases hfault : fault = .incomplete
      · rw [front] at h
        rw [hparse, hfault] at h
        exact nomatch h
      · rw [front_of_error hparse hfault] at h
        rw [front_of_error ((Frame.stable_parse? input).error hparse hfault more) hfault, h]
  | ok p =>
      obtain ⟨frame, left⟩ := p
      rw [front_of_ok hparse] at h
      rw [front_of_ok ((Frame.stable_parse? input).ok hparse more)]
      cases hframe : ofFrame frame with
      | error fault =>
          rw [hframe] at h
          exact h
      | ok request =>
          rw [hframe] at h
          exact nomatch h

/-- What decoding a buffer within the limit answers, by what stands at its front. -/
theorem decode_cases {limit : Nat} (buffer : Buffer) (h : buffer.bytes.length ≤ limit) :
    (front buffer.bytes = .incomplete ∧ decode limit buffer = (.ok none, buffer)) ∨
    (∃ cause left, front buffer.bytes = .broken cause ∧
      decode limit buffer = (.error cause, left)) ∨
    ∃ request left, front buffer.bytes = .request request left.bytes ∧
      decode limit buffer = (.ok (some request), left) := by
  have hsize : ¬ buffer.size > limit := by
    rw [buffer.length_bytes] at h
    exact Nat.not_lt.mpr h
  rw [decode]
  rw [if_neg hsize]
  rw [front, Frame.parse?]
  cases hparse : Frame.parse buffer.bytes with
  | error cause =>
      cases cause with
      | incomplete => exact .inl ⟨rfl, rfl⟩
      | _ => exact .inr (.inl ⟨_, buffer, rfl, rfl⟩)
  | ok read =>
      cases hframe : ofFrame read.value with
      | error cause =>
          refine .inr (.inl ⟨.misshapen cause, buffer.after read, ?_, ?_⟩)
          · simp only [Frame.plain, Except.map, hframe]
          · simp only [hframe]
      | ok request =>
          refine .inr (.inr ⟨request, buffer.after read, ?_, ?_⟩)
          · simp only [Frame.plain, Except.map, hframe]
            rfl
          · simp only [hframe]

/-- Decoding adds nothing to the buffer. -/
theorem size_decode_le (limit : Nat) (buffer : Buffer) :
    (decode limit buffer).2.size ≤ buffer.size := by
  rw [decode]
  split
  · exact Nat.le_refl _
  · split
    · exact Nat.le_refl _
    · exact Nat.le_refl _
    · rename_i read _
      split
      · exact Nat.le_of_lt (buffer.size_after_lt read)
      · exact Nat.le_of_lt (buffer.size_after_lt read)

end Request

namespace Arrival

/-- Whether what arrives is a whole input: chunks, and then its end. -/
def AreWhole : List Arrival → Prop
  | [] => False
  | .chunk _ :: arrivals => AreWhole arrivals
  | .finish :: arrivals => arrivals = []
  | .reset :: _ => False

/-- With a whole input, its end arrives at least. -/
theorem AreWhole.ne_nil {arrivals : List Arrival} (h : AreWhole arrivals) : arrivals ≠ [] := by
  rintro rfl
  exact h

/-- An input that is cut up arrives whole. -/
theorem areWhole_cut (cut : List Bytes) : AreWhole (cut.map .chunk ++ [.finish]) := by
  induction cut with
  | nil => exact rfl
  | cons bytes cut ih => exact ih

/-- An input that is cut up has the bytes of its pieces. -/
theorem flatMap_bytes_cut (cut : List Bytes) :
    (cut.map Arrival.chunk ++ [Arrival.finish]).flatMap Arrival.bytes = cut.flatten := by
  induction cut with
  | nil => rfl
  | cons bytes cut ih =>
      rw [List.map_cons, List.cons_append, List.flatMap_cons, ih, List.flatten_cons]
      rfl

/-- A chunk may be taken out. -/
theorem AreWhole.of_middle {before behind : List Arrival} {bytes : Bytes}
    (h : AreWhole (before ++ .chunk bytes :: behind)) : AreWhole (before ++ behind) := by
  induction before with
  | nil => exact h
  | cons a before ih =>
      cases a with
      | chunk _ => exact ih h
      | finish => exact absurd h (by simp [AreWhole])
      | reset => exact h

end Arrival

namespace Reader

/-- Whether `input` is all that is still to come: what is buffered, what has arrived, and what is
going to arrive, up to the end of the input. -/
structure Expects (r : Reader) (future : List Arrival) (input : Bytes) : Prop where
  /-- The end of the input is still to come. -/
  whole : Arrival.AreWhole (r.arrivals ++ future)
  /-- What is to come before it. -/
  input_eq : input = r.unread ++ future.flatMap Arrival.bytes

variable {r : Reader} {future : List Arrival} {input : Bytes} {limit : Nat}

/-- What arrives was expected. -/
theorem Expects.arrive {a : Arrival} (h : r.Expects (a :: future) input) :
    (r.arrive a).Expects future input := by
  obtain ⟨hwhole, hinput⟩ := h
  rw [Reader.arrive]
  split
  · rename_i hempty
    subst hempty
    exact ⟨hwhole.of_middle, hinput⟩
  · refine ⟨?_, ?_⟩
    · rw [List.append_assoc]
      exact hwhole
    · rw [hinput, unread, unread, List.flatMap_append, List.flatMap_cons]
      simp only [List.flatMap_cons, List.flatMap_nil, List.append_nil, List.append_assoc]

/-- Moving bytes into the buffer changes nothing about what is to come. -/
theorem Expects.takeIn {bytes : Bytes} {arrivals : List Arrival} (h : r.Expects future input)
    (harrivals : r.arrivals = .chunk bytes :: arrivals) :
    (r.takeIn bytes arrivals).Expects future input := by
  obtain ⟨hwhole, hinput⟩ := h
  rw [harrivals] at hwhole
  refine ⟨?_, (unread_takeIn harrivals).symm ▸ hinput⟩
  simp only [Reader.takeIn]
  split
  · exact hwhole
  · exact hwhole

/-- What is buffered is the beginning of all that is to come. -/
theorem Expects.buffer_prefix (h : r.Expects future input) :
    ∃ more, input = r.buffer.bytes ++ more := by
  have hinput := h.input_eq
  rw [unread, List.append_assoc] at hinput
  exact ⟨_, hinput⟩

/-- A reader never holds more than the whole input that it expects. -/
theorem Expects.length_buffer_le (h : r.Expects future input) (hfits : input.length ≤ limit) :
    r.buffer.bytes.length ≤ limit := by
  obtain ⟨more, hmore⟩ := h.buffer_prefix
  rw [hmore, List.length_append] at hfits
  exact Nat.le_trans (Nat.le_add_right _ _) hfits

/-- A request that is taken off leaves what follows it. -/
theorem Expects.leave {left : Buffer} {more : Bytes} (h : r.Expects future input)
    (hinput : input = r.buffer.bytes ++ more) :
    (r.leave left).Expects future (left.bytes ++ more) := by
  refine ⟨h.whole, ?_⟩
  have hmore := List.append_cancel_left (hinput.symm.trans (h.input_eq.trans
    (List.append_assoc _ _ _)))
  rw [hmore, unread, List.append_assoc]
  rfl

/-- What a reader finds when it looks for the next request: what stands at the front of the
input, unless too little of it has arrived. -/
theorem poll_cases (h : r.Expects future input) (hfits : input.length ≤ limit) :
    (∃ request rest r', r.poll limit = (some (.request request), r') ∧
      Request.front input = .request request rest ∧ r'.Expects future rest) ∨
    (∃ cause r', r.poll limit = (some (.failed (.decode cause)), r') ∧
      Request.front input = .broken cause) ∨
    (∃ r', r.poll limit = (some (.failed .leftover), r') ∧
      Request.front input = .incomplete ∧ input ≠ []) ∨
    (∃ r', r.poll limit = (some .finished, r') ∧ input = []) ∨
    ∃ r', r.poll limit = (none, r') ∧ r'.Expects future input ∧ r'.arrivals = [] := by
  fun_induction poll limit r with
  | case1 r cause left hdecode =>
      obtain ⟨more, hmore⟩ := h.buffer_prefix
      have hdecoded := Request.decode_cases _ (h.length_buffer_le hfits)
      rw [hdecode] at hdecoded
      rcases hdecoded with ⟨-, heq⟩ | ⟨cause', left', hfront, heq⟩ | ⟨_, _, -, heq⟩
      · cases heq
      · obtain ⟨heq, -⟩ := Prod.mk.inj heq
        obtain rfl := Except.error.inj heq
        exact .inr (.inl ⟨cause, _, rfl, hmore ▸ Request.front_append_of_broken hfront more⟩)
      · cases heq
  | case2 r request left hdecode =>
      obtain ⟨more, hmore⟩ := h.buffer_prefix
      have hdecoded := Request.decode_cases _ (h.length_buffer_le hfits)
      rw [hdecode] at hdecoded
      rcases hdecoded with ⟨-, heq⟩ | ⟨_, _, -, heq⟩ | ⟨request', left', hfront, heq⟩
      · cases heq
      · cases heq
      · obtain ⟨hrequest, rfl⟩ := Prod.mk.inj heq
        obtain rfl := Option.some.inj (Except.ok.inj hrequest)
        exact .inl ⟨request, left.bytes ++ more, r.leave left, rfl,
          hmore ▸ Request.front_append_of_request hfront more, h.leave hmore⟩
  | case3 r left hdecode harrivals => exact .inr (.inr (.inr (.inr ⟨r, rfl, h, harrivals⟩)))
  | case4 r left hdecode bytes arrivals harrivals hlt ih =>
      exact ih (h.takeIn harrivals)
  | case5 r left hdecode arrivals harrivals =>
      have hnothing : arrivals ++ future = [] := by
        have hwhole := h.whole
        rw [harrivals] at hwhole
        exact hwhole
      obtain ⟨rfl, rfl⟩ := List.append_eq_nil_iff.mp hnothing
      have hinput : input = r.buffer.bytes := by
        rw [h.input_eq, unread, harrivals]
        simp only [List.flatMap_cons, List.flatMap_nil, Arrival.bytes, List.append_nil]
      have hdecoded := Request.decode_cases _ (h.length_buffer_le hfits)
      have hfront : Request.front r.buffer.bytes = .incomplete := by
        rw [hdecode] at hdecoded
        rcases hdecoded with ⟨hfront, -⟩ | ⟨_, _, -, heq⟩ | ⟨_, _, -, heq⟩
        · exact hfront
        · cases heq
        · cases heq
      by_cases hempty : r.buffer.size = 0
      · refine .inr (.inr (.inr (.inl ⟨{ r with arrivals := [] }, by rw [if_pos hempty], ?_⟩)))
        rw [hinput]
        exact List.length_eq_zero_iff.mp (r.buffer.length_bytes.trans hempty)
      · refine .inr (.inr (.inl ⟨{ r with arrivals := [] }, by rw [if_neg hempty],
          hinput ▸ hfront, ?_⟩))
        rintro rfl
        exact hempty (r.buffer.length_bytes.symm.trans (congrArg List.length hinput.symm))
  | case6 r left hdecode arrivals harrivals =>
      have hwhole := h.whole
      rw [harrivals] at hwhole
      exact hwhole.elim

/-- A reader that leaves no more in its buffer than there was has no more to read. -/
theorem length_unread_leave_le {left : Buffer} (h : left.size ≤ r.buffer.size) :
    (r.leave left).unread.length ≤ r.unread.length := by
  rw [unread, unread, List.length_append, List.length_append]
  refine Nat.add_le_add_right ?_ _
  rw [r.buffer.length_bytes]
  exact Nat.le_trans (Nat.le_of_eq left.length_bytes) h

/-- What arrives is to be read. -/
theorem length_unread_arrive (r : Reader) (a : Arrival) :
    (r.arrive a).unread.length = r.unread.length + a.bytes.length := by
  rw [Reader.arrive]
  split
  · rename_i hempty
    rw [hempty]
    rfl
  · simp only [unread, List.flatMap_append, List.flatMap_cons, List.flatMap_nil, List.append_nil,
      List.length_append, Nat.add_assoc]

/-- Looking for a request adds nothing to what is to be read. -/
theorem length_unread_poll_le (limit : Nat) (r : Reader) :
    (r.poll limit).2.unread.length ≤ r.unread.length := by
  fun_induction poll limit r with
  | case1 r cause left hdecode =>
      refine length_unread_leave_le ?_
      have := Request.size_decode_le limit r.buffer
      rwa [hdecode] at this
  | case2 r request left hdecode =>
      refine length_unread_leave_le ?_
      have := Request.size_decode_le limit r.buffer
      rwa [hdecode] at this
  | case3 r left hdecode harrivals => exact Nat.le_refl _
  | case4 r left hdecode bytes arrivals harrivals hlt ih =>
      rwa [unread_takeIn harrivals] at ih
  | case5 r left hdecode arrivals harrivals =>
      rw [unread, unread, harrivals]
      exact Nat.le_refl _
  | case6 r left hdecode arrivals harrivals =>
      rw [unread, unread, harrivals]
      exact Nat.le_refl _

end Reader

end RespStore
