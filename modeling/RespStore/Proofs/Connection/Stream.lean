import RespStore.Proofs.Connection.Steps
import RespStore.Proofs.Outbound
import RespStore.Server

/-!
# What a connection writes

Replies and messages go into the outbound buffer as *units*, and come out as bytes. Where they
are in between depends on when the connection flushes and on how much the writer takes at a
time. This module shows that it depends on nothing else: what has been written and what is
still on its way are the encodings of the units, one behind the other, and behind them the line
that reports a failure, if there was one.

* `Connection.Stream` is the invariant, `Stream.step` its preservation.
* A writer that fails may lose the end of the units, but never anything in their midst. What
  follows then can only be the line that reports the failure.
-/

namespace RespStore

/-! ### Units -/

/-- The replies that a reply consists of. -/
def Reply.parts : Reply → List Reply
  | .many replies => replies
  | reply => [reply]

/-- Several replies are written as each of them is, one behind the other. -/
theorem Reply.encode_each (replies : List Reply) :
    (piecesOfEach replies).flatMap Piece.bytes = replies.flatMap Reply.encode := by
  induction replies with
  | nil => rfl
  | cons reply replies ih =>
      rw [piecesOfEach, List.flatMap_append, ih, List.flatMap_cons, encode]

/-- A reply is written as its parts are, one behind the other. -/
theorem Reply.encode_parts (reply : Reply) : reply.parts.flatMap Reply.encode = reply.encode := by
  unfold parts
  split
  · exact (encode_each _).symm
  · exact List.flatMap_singleton _ _

/-- What a note puts into the outbound buffer. -/
def Note.units : Note → List Reply
  | .replied reply => reply.parts
  | .delivered d => [.message d.channel d.payload]
  | _ => []

/-- What a note puts on the wire. -/
def Note.written : Note → Bytes
  | .wrote bytes => bytes
  | _ => []

/-- Everything that was put into the outbound buffer, in order. -/
def unitsOf (notes : List Note) : List Reply := notes.flatMap Note.units

/-- Everything that was written, in order. -/
def writtenOf (notes : List Note) : Bytes := notes.flatMap Note.written

/-- The encodings of everything that was put into the outbound buffer. -/
def encodedOf (notes : List Note) : Bytes := (unitsOf notes).flatMap Reply.encode

section Notes

variable (notes more : List Note)

@[simp]
theorem unitsOf_append : unitsOf (notes ++ more) = unitsOf notes ++ unitsOf more :=
  List.flatMap_append

@[simp]
theorem writtenOf_append : writtenOf (notes ++ more) = writtenOf notes ++ writtenOf more :=
  List.flatMap_append

/-- What notes and more notes put into the buffer is encoded one behind the other. -/
@[simp]
theorem encodedOf_append : encodedOf (notes ++ more) = encodedOf notes ++ encodedOf more := by
  rw [encodedOf, unitsOf_append, List.flatMap_append, encodedOf, encodedOf]

end Notes

/-- The error that tells a client why its connection ends. -/
def lastError (reason : String) : Reply := .error ("ERR Server Error Encountered: " ++ reason)

/-- What is written behind all units when a connection ends. -/
def Ending.lastWords : Ending → Bytes
  | .failed reason => (lastError reason).encode
  | _ => []

/-- Whether a move is no failure: the writer takes something when it is asked to and does not
fail, and the connection is not dropped. -/
def Move.IsSound : Move → Prop
  | .accept n => n ≠ 0
  | .refuse _ => False
  | .abandon => False
  | _ => True

namespace Connection

/-! ### What is on its way -/

/-- What of a flush is not written yet. -/
def Phase.inFlight : Phase → Bytes
  | .writing chunk more _ => chunk ++ more.flatten
  | _ => []

/-- What is on its way to the writer. -/
def unwritten (c : Connection) : Bytes := Phase.inFlight c.phase ++ c.outbound.pending

/-- How the connection is going to end once a flush is over, if it is. -/
def closingAfter? : AfterFlush → Option Ending
  | .shutDown ending => some ending
  | _ => none

/-- How the connection is going to end, once that is decided. -/
def Phase.closing? : Phase → Option Ending
  | .writing _ _ next => closingAfter? next
  | .syncing next => closingAfter? next
  | .shuttingDown ending => some ending
  | .leaving _ ending => some ending
  | .ended ending => some ending
  | .abandoned _ => some .dropped
  | _ => none

/-- A connection that works on a request is not about to end. -/
theorem Phase.closing?_of_task {phase : Phase} {task : Task (Except Fatal Completion)}
    (h : task? phase = some task) : closing? phase = none := by
  cases phase with
  | running task => rfl
  | waiting task held => rfl
  | _ => exact nomatch h

/-- A connection that is about to end works on no request. -/
theorem Phase.task?_of_closing {phase : Phase} (h : closing? phase ≠ none) :
    task? phase = none :=
  Option.eq_none_iff_forall_ne_some.mpr fun _ htask => h (closing?_of_task htask)

/-- Whether a flush is going on, and what comes after it. -/
inductive Phase.Flushes : Phase → AfterFlush → Prop where
  /-- Bytes are being written. -/
  | writing (chunk : Bytes) (more : List Bytes) (next : AfterFlush) :
      Flushes (.writing chunk more next) next
  /-- The writer passes them on. -/
  | syncing (next : AfterFlush) : Flushes (.syncing next) next

/-- Whether a connection neither flushes nor is about to end. -/
structure Phase.AtRest (phase : Phase) : Prop where
  /-- It is not about to end. -/
  closing?_eq : closing? phase = none
  /-- It does not flush. -/
  not_flushes : ∀ next, ¬ Flushes phase next

namespace Phase.AtRest

theorem turn : AtRest .turn := ⟨rfl, fun _ h => (nomatch h)⟩

theorem look : AtRest .look := ⟨rfl, fun _ h => (nomatch h)⟩

theorem select : AtRest .select := ⟨rfl, fun _ h => (nomatch h)⟩

theorem settle : AtRest .settle := ⟨rfl, fun _ h => (nomatch h)⟩

theorem running (task : Task (Except Fatal Completion)) : AtRest (.running task) :=
  ⟨rfl, fun _ h => (nomatch h)⟩

theorem waiting (task : Task (Except Fatal Completion)) (held : List Delivery) :
    AtRest (.waiting task held) := ⟨rfl, fun _ h => (nomatch h)⟩

end Phase.AtRest

/-- A connection that looks for a request is at rest. -/
theorem Polls.atRest {c : Connection} (h : c.Polls) : Phase.AtRest c.phase := by
  rcases h with h | ⟨h, -⟩
  · exact h ▸ .look
  · exact h ▸ .select

/-- Nothing is on its way to the writer while no flush is going on. -/
theorem inFlight_of_not_flushes {phase : Phase} (h : ∀ next, ¬ Phase.Flushes phase next) :
    Phase.inFlight phase = [] := by
  cases phase with
  | writing chunk more next => exact absurd (.writing chunk more next) (h next)
  | _ => rfl

section Flush

variable (c : Connection) (next : AfterFlush) (reason : String)

/-- What follows a flush leaves the buffer alone. -/
theorem outbound_afterFlush : (c.afterFlush next).outbound = c.outbound := by
  obtain ⟨autoRead, phase, heq⟩ := afterFlush_eq c next
  rw [heq]

/-- What follows a flush is no flush. -/
theorem not_flushes_afterFlush (next' : AfterFlush) :
    ¬ Phase.Flushes (c.afterFlush next).phase next' := by
  intro hflush
  cases next with
  | _ => exact nomatch hflush

/-- A connection ends behind a flush exactly if the flush was to be followed by the end. -/
theorem closing?_afterFlush : Phase.closing? (c.afterFlush next).phase = closingAfter? next := by
  cases next with
  | _ => rfl

/-- Behind a flush, what is not written is what is in the buffer. -/
theorem unwritten_afterFlush : (c.afterFlush next).unwritten = c.outbound.pending := by
  rw [unwritten, inFlight_of_not_flushes (not_flushes_afterFlush c next), List.nil_append,
    outbound_afterFlush]

/-- A flush takes everything that is pending, and puts nothing into the buffer. -/
theorem flush_facts : (c.flush next).unwritten = c.outbound.pending ∧
    Phase.closing? (c.flush next).phase = closingAfter? next ∧
    (c.flush next).outbound.pending = [] := by
  have hflatten := c.outbound.flatten_chunks
  rw [flush]
  cases hchunks : c.outbound.chunks with
  | nil =>
      rw [hchunks, List.flatten_nil] at hflatten
      refine ⟨?_, closing?_afterFlush _ next, ?_⟩
      · rw [unwritten_afterFlush, ← hflatten, Outbound.pending_cleared]
      · rw [outbound_afterFlush, Outbound.pending_cleared]
  | cons chunk more =>
      rw [hchunks, List.flatten_cons] at hflatten
      refine ⟨?_, rfl, rfl⟩
      rw [← hflatten]
      exact List.append_nil _

/-- A failure puts its error behind all that is pending, takes everything for a flush, and decides
how the connection ends. -/
theorem fail_facts :
    (c.fail reason).unwritten = c.outbound.pending ++ (lastError reason).encode ∧
      Phase.closing? (c.fail reason).phase = some (.failed reason) ∧
      (c.fail reason).outbound.pending = [] := by
  obtain ⟨hunwritten, hclosing, hpending⟩ := flush_facts
    { c with outbound := c.outbound.push (lastError reason), state := .closed }
    (.shutDown (.failed reason))
  exact ⟨hunwritten.trans (Outbound.pending_push _ _), hclosing, hpending⟩

end Flush

/-! ### What goes into the buffer -/

/-- Whether a step puts exactly the units of its notes into the outbound buffer, writes nothing
and leaves the connection where it stands. -/
structure Puts (c : Connection) (stepped : Stepped) : Prop where
  /-- What is put into the buffer. -/
  pending_eq : stepped.1.outbound.pending = c.outbound.pending ++ encodedOf stepped.2
  /-- What is written. -/
  writtenOf_eq : writtenOf stepped.2 = []
  /-- Where the connection stands. -/
  phase_eq : stepped.1.phase = c.phase

/-- A message that is delivered goes into the buffer, and one that is given up does not. -/
theorem puts_deliver (c : Connection) (d : Delivery) : Puts c (c.deliver d) := by
  rw [deliver]
  split
  · refine ⟨?_, rfl, rfl⟩
    rw [Outbound.pending_push]
    exact congrArg _ (List.append_nil _).symm
  · exact ⟨(List.append_nil _).symm, rfl, rfl⟩

/-- Messages that are delivered one after the other go into the buffer in that order. -/
theorem puts_deliverEach (c : Connection) (ds : List Delivery) : Puts c (c.deliverEach ds) := by
  induction ds generalizing c with
  | nil => exact ⟨(List.append_nil _).symm, rfl, rfl⟩
  | cons d ds ih =>
      have hfirst := puts_deliver c d
      have hrest := ih (c.deliver d).1
      refine ⟨?_, ?_, hrest.phase_eq.trans hfirst.phase_eq⟩
      · change ((c.deliver d).1.deliverEach ds).1.outbound.pending = _
        rw [hrest.pending_eq, hfirst.pending_eq, List.append_assoc]
        exact congrArg _ (encodedOf_append _ _).symm
      · change writtenOf ((c.deliver d).2 ++ ((c.deliver d).1.deliverEach ds).2) = []
        rw [writtenOf_append, hfirst.writtenOf_eq, hrest.writtenOf_eq, List.append_nil]

/-- Messages that are given up leave no trace on the wire. -/
theorem unitsOf_discarded (ds : List Delivery) : unitsOf (ds.map .discarded) = [] := by
  rw [unitsOf, List.flatMap_map]
  exact List.flatMap_eq_nil_iff.mpr fun _ _ => rfl

/-- Messages that are given up are not written. -/
theorem writtenOf_discarded (ds : List Delivery) : writtenOf (ds.map .discarded) = [] := by
  rw [writtenOf, List.flatMap_map]
  exact List.flatMap_eq_nil_iff.mpr fun _ _ => rfl

/-- A completion puts the parts of its reply into the buffer, whatever messages it gives up. -/
theorem unitsOf_complete (c : Connection) (completion : Completion) :
    unitsOf (c.complete completion).2 = completion.reply.parts := by
  rw [complete]
  simp only
  split
  · exact List.append_nil _
  · change completion.reply.parts ++ unitsOf (c.mailbox.queued.map .discarded) = _
    rw [unitsOf_discarded, List.append_nil]

/-- A request that is answered puts its reply into the buffer. -/
theorem puts_complete (c : Connection) (completion : Completion) :
    Puts c (c.complete completion) := by
  refine ⟨?_, ?_, rfl⟩
  · rw [encodedOf, unitsOf_complete, Reply.encode_parts]
    exact Outbound.pending_push c.outbound completion.reply
  · rw [complete]
    simp only
    split
    · rfl
    · exact writtenOf_discarded c.mailbox.queued

/-- A request that had to wait puts its reply into the buffer, and behind it the messages that were
held. -/
theorem puts_resume (c : Connection) (held : List Delivery) (completion : Completion) :
    Puts c (c.resume held completion) := by
  have hcomplete := puts_complete c completion
  have heach := puts_deliverEach (c.complete completion).1 held
  obtain ⟨state, hwake⟩ := wake_eq ((c.complete completion).1.deliverEach held).1
  rw [resume]
  refine ⟨?_, ?_, ?_⟩
  · simp only [hwake]
    rw [heach.pending_eq, hcomplete.pending_eq, List.append_assoc, encodedOf_append]
  · rw [writtenOf_append, hcomplete.writtenOf_eq, heach.writtenOf_eq, List.append_nil]
  · simp only [hwake]
    exact heach.phase_eq.trans hcomplete.phase_eq

/-! ### The invariant -/

/-- The relation of what has been written and what is on its way to the units. It is as strict
as possible while the writer is `clean`. -/
structure Stream (clean : Prop) (c : Connection) (notes : List Note) : Prop where
  /-- Nothing is put into the outbound buffer during a flush. -/
  tidy : ∀ next, Phase.Flushes c.phase next → c.outbound.pending = []
  /-- Before the end, nothing is lost and nothing is added. -/
  opened : Phase.closing? c.phase = none → writtenOf notes ++ c.unwritten = encodedOf notes
  /-- At the end, the connection has its last words. -/
  closed : clean → ∀ ending, Phase.closing? c.phase = some ending →
    writtenOf notes ++ c.unwritten = encodedOf notes ++ ending.lastWords
  /-- Whatever the writer has lost, it has lost to the end. -/
  cut : Phase.closing? c.phase ≠ none → ∃ sent reason, sent <+: encodedOf notes ∧
    writtenOf notes ++ c.unwritten <+: sent ++ (lastError reason).encode

namespace Stream

variable {clean : Prop} {c c' : Connection} {notes more : List Note}

/-- A relation that is strict for one writer is strict for every writer that is cleaner. -/
theorem mono {clean' : Prop} (h : Stream clean c notes) (himp : clean' → clean) :
    Stream clean' c notes :=
  ⟨h.tidy, h.opened, fun hclean => h.closed (himp hclean), h.cut⟩

/-- What holds while nothing is lost. -/
theorem of_eq (htidy : ∀ next, Phase.Flushes c.phase next → c.outbound.pending = [])
    (h : writtenOf notes ++ c.unwritten =
      encodedOf notes ++ (Phase.closing? c.phase).elim [] Ending.lastWords) :
    Stream clean c notes := by
  refine ⟨htidy, fun hopen => ?_, fun _ ending hending => ?_, fun hclosing => ?_⟩
  · rw [h, hopen, Option.elim_none, List.append_nil]
  · rw [h, hending, Option.elim_some]
  · obtain ⟨ending, hending⟩ := Option.ne_none_iff_exists'.mp hclosing
    rw [h, hending, Option.elim_some]
    cases ending with
    | failed reason => exact ⟨encodedOf notes, reason, List.prefix_rfl, List.prefix_rfl⟩
    | completed =>
        refine ⟨encodedOf notes, "", List.prefix_rfl, ?_⟩
        exact (List.append_nil _).symm ▸ List.prefix_append _ _
    | dropped =>
        refine ⟨encodedOf notes, "", List.prefix_rfl, ?_⟩
        exact (List.append_nil _).symm ▸ List.prefix_append _ _

/-- A connection at rest has everything in its buffer that is not written. -/
theorem of_atRest (hphase : Phase.AtRest c.phase)
    (h : writtenOf notes ++ c.outbound.pending = encodedOf notes) : Stream clean c notes := by
  refine of_eq (fun next hflush => absurd hflush (hphase.not_flushes next)) ?_
  rw [unwritten, inFlight_of_not_flushes hphase.not_flushes, List.nil_append, h,
    hphase.closing?_eq, Option.elim_none, List.append_nil]

/-- At rest, what is written and what is buffered are the units together. -/
theorem pending_of_atRest (h : Stream clean c notes) (hphase : Phase.AtRest c.phase) :
    writtenOf notes ++ c.outbound.pending = encodedOf notes := by
  have := h.opened hphase.closing?_eq
  rwa [unwritten, inFlight_of_not_flushes hphase.not_flushes, List.nil_append] at this

/-- A flush begins. -/
theorem of_flush {next : AfterFlush}
    (h : writtenOf notes ++ c.outbound.pending =
      encodedOf notes ++ (closingAfter? next).elim [] Ending.lastWords) :
    Stream clean (c.flush next) notes := by
  obtain ⟨hunwritten, hclosing, hpending⟩ := flush_facts c next
  refine of_eq (fun _ _ => hpending) ?_
  rw [hunwritten, hclosing, h]

/-- A failure is the last thing that a client is told. -/
theorem of_fail {reason : String}
    (h : writtenOf notes ++ c.outbound.pending = encodedOf notes) :
    Stream clean (c.fail reason) notes := by
  obtain ⟨hunwritten, hclosing, hpending⟩ := fail_facts c reason
  refine of_eq (fun _ _ => hpending) ?_
  rw [hunwritten, hclosing, ← List.append_assoc, h]
  rfl

/-- A step of a connection that keeps what it has, flushing or not. -/
theorem of_same (h : Stream clean c notes)
    (hphase : Phase.closing? c'.phase = Phase.closing? c.phase)
    (hflight : Phase.inFlight c'.phase = Phase.inFlight c.phase)
    (hflushes : ∀ next, Phase.Flushes c'.phase next → Phase.Flushes c.phase next)
    (houtbound : c'.outbound = c.outbound) (hunits : unitsOf more = [])
    (hwritten : writtenOf more = []) : Stream clean c' (notes ++ more) := by
  have hencoded : encodedOf (notes ++ more) = encodedOf notes := by
    rw [encodedOf_append, encodedOf, encodedOf, hunits, List.flatMap_nil, List.append_nil]
  have hunwritten : writtenOf (notes ++ more) ++ c'.unwritten = writtenOf notes ++ c.unwritten := by
    rw [writtenOf_append, hwritten, List.append_nil, unwritten, hflight, houtbound, unwritten]
  refine ⟨fun next hflush => ?_, ?_, ?_, ?_⟩
  · rw [houtbound]
    exact h.tidy next (hflushes next hflush)
  · rw [hphase, hencoded, hunwritten]
    exact h.opened
  · rw [hphase, hencoded, hunwritten]
    exact h.closed
  · rw [hphase, hencoded, hunwritten]
    exact h.cut

/-- A step from rest to rest that puts nothing into the buffer. -/
theorem of_quiet (h : Stream clean c notes) (hphase : Phase.AtRest c.phase)
    (hphase' : Phase.AtRest c'.phase) (houtbound : c'.outbound = c.outbound)
    (hunits : unitsOf more = []) (hwritten : writtenOf more = []) :
    Stream clean c' (notes ++ more) := by
  refine h.of_same (hphase'.closing?_eq.trans hphase.closing?_eq.symm) ?_
    (fun next hflush => absurd hflush (hphase'.not_flushes next)) houtbound hunits hwritten
  rw [inFlight_of_not_flushes hphase.not_flushes, inFlight_of_not_flushes hphase'.not_flushes]

/-- What is buffered reaches as far as what is on its way. -/
theorem pending_prefix (h : Stream clean c notes) :
    writtenOf notes ++ c.outbound.pending <+: writtenOf notes ++ c.unwritten := by
  rw [unwritten]
  by_cases hflush : ∃ next, Phase.Flushes c.phase next
  · obtain ⟨next, hflush⟩ := hflush
    rw [h.tidy next hflush]
    exact ⟨Phase.inFlight c.phase ++ [], by rw [List.append_nil]⟩
  · have hflight := inFlight_of_not_flushes fun next hnext => hflush ⟨next, hnext⟩
    exact ⟨[], by rw [hflight, List.nil_append, List.append_nil]⟩

/-- What is written and buffered reaches no further than the units and the last words. -/
theorem exists_prefix (h : Stream clean c notes) :
    ∃ sent reason, sent <+: encodedOf notes ∧
      writtenOf notes ++ c.unwritten <+: sent ++ (lastError reason).encode := by
  by_cases hclosing : Phase.closing? c.phase = none
  · exact ⟨encodedOf notes, "", List.prefix_rfl, h.opened hclosing ▸ List.prefix_append _ _⟩
  · exact h.cut hclosing

/-- A flush that fails loses what was not written. -/
theorem of_flushFailed {reason : String} {next : AfterFlush} (h : Stream clean c notes)
    (hflush : Phase.Flushes c.phase next) (hunits : unitsOf more = [])
    (hwritten : writtenOf more = []) :
    Stream False (c.flushFailed reason next) (notes ++ more) := by
  have hpending := h.tidy next hflush
  have hclosing : Phase.closing? c.phase = closingAfter? next := by
    generalize c.phase = phase at hflush
    cases hflush with
    | writing => rfl
    | syncing => rfl
  have hencoded : encodedOf (notes ++ more) = encodedOf notes := by
    rw [encodedOf_append, encodedOf, encodedOf, hunits, List.flatMap_nil, List.append_nil]
  have hwrote : writtenOf (notes ++ more) = writtenOf notes := by
    rw [writtenOf_append, hwritten, List.append_nil]
  by_cases hopen : closingAfter? next = none
  · have hfail : c.flushFailed reason next = c.fail reason := by
      cases next with
      | shutDown ending => exact nomatch hopen
      | _ => rfl
    obtain ⟨hunwritten, hfailed, htidy⟩ := fail_facts c reason
    rw [hfail]
    refine ⟨fun _ _ => htidy, fun hnone => ?_, fun hfalse => hfalse.elim, fun _ => ?_⟩
    · rw [hfailed] at hnone
      exact nomatch hnone
    · refine ⟨writtenOf notes, reason, ?_, ?_⟩
      · rw [hencoded, ← h.opened (hclosing.trans hopen)]
        exact List.prefix_append _ _
      · exact ⟨[], by rw [hwrote, hunwritten, hpending, List.nil_append, List.append_nil]⟩
  · obtain ⟨ending, rfl⟩ : ∃ ending, next = .shutDown ending := by
      cases next with
      | shutDown ending => exact ⟨ending, rfl⟩
      | _ => exact absurd rfl hopen
    obtain ⟨sent, cause, hsent, hprefix⟩ := h.cut (hclosing ▸ hopen)
    refine ⟨fun _ hflushes => (nomatch hflushes), fun hnone => (nomatch hnone),
      fun hfalse => hfalse.elim, fun _ => ⟨sent, cause, hencoded ▸ hsent, ?_⟩⟩
    rw [hwrote]
    exact h.pending_prefix.trans hprefix

/-- A step at rest that puts units into the buffer. -/
theorem pending_of_puts {stepped : Stepped} (h : Stream clean c notes)
    (hphase : Phase.AtRest c.phase) (houtbound : c'.outbound = c.outbound)
    (hputs : Puts c' stepped) :
    writtenOf (notes ++ stepped.2) ++ stepped.1.outbound.pending =
      encodedOf (notes ++ stepped.2) := by
  rw [writtenOf_append, hputs.writtenOf_eq, List.append_nil, hputs.pending_eq, houtbound,
    ← List.append_assoc, h.pending_of_atRest hphase, encodedOf_append]

/-- A step at rest that puts nothing into the buffer. -/
theorem pending_of_quiet (h : Stream clean c notes) (hphase : Phase.AtRest c.phase)
    (hunits : unitsOf more = []) (hwritten : writtenOf more = []) :
    writtenOf (notes ++ more) ++ c.outbound.pending = encodedOf (notes ++ more) := by
  rw [writtenOf_append, hwritten, List.append_nil, encodedOf_append, h.pending_of_atRest hphase,
    encodedOf, encodedOf, hunits, List.flatMap_nil, List.append_nil]

/-- The writer takes the front of what is on its way. -/
theorem inFlight_rest (chunk : Bytes) (more : List Bytes) (next : AfterFlush) (n : Nat) :
    chunk.take n ++ Phase.inFlight (rest (chunk.drop n) more next) = chunk ++ more.flatten := by
  have hrest : Phase.inFlight (rest (chunk.drop n) more next) = chunk.drop n ++ more.flatten := by
    unfold rest
    split
    · rename_i hdrop
      rw [hdrop]
      rfl
    · rename_i hdrop
      rw [hdrop]
      rfl
    · rfl
  rw [hrest, ← List.append_assoc, List.take_append_drop]

/-- A flush goes on until the writer has passed on what it took. -/
theorem flushes_rest (chunk : Bytes) (more : List Bytes) (next : AfterFlush) :
    Phase.Flushes (rest chunk more next) next := by
  unfold rest
  split
  · exact .syncing next
  · exact .writing _ _ next
  · exact .writing _ _ next

/-- How a connection ends is decided throughout a flush, or not at all. -/
theorem closing?_of_flushes {phase : Phase} {next : AfterFlush} (h : Phase.Flushes phase next) :
    Phase.closing? phase = closingAfter? next := by
  cases h with
  | writing => rfl
  | syncing => rfl

/-- A write moves the front of what is on its way onto the wire. -/
theorem of_accept {n : Nat} {chunk : Bytes} {behind : List Bytes} {next : AfterFlush}
    (h : Stream clean c notes) (hphase : c.phase = .writing chunk behind next) :
    Stream clean { c with phase := rest (chunk.drop n) behind next }
      (notes ++ [.wrote (chunk.take n)]) := by
  have hflushes := flushes_rest (chunk.drop n) behind next
  have hpending := h.tidy next (hphase ▸ .writing chunk behind next)
  have hclosing : Phase.closing? (rest (chunk.drop n) behind next) = Phase.closing? c.phase := by
    rw [closing?_of_flushes hflushes, hphase]
    rfl
  have hencoded : encodedOf (notes ++ [.wrote (chunk.take n)]) = encodedOf notes := by
    rw [encodedOf_append]
    exact List.append_nil _
  have hunwritten : writtenOf (notes ++ [.wrote (chunk.take n)]) ++
      unwritten { c with phase := rest (chunk.drop n) behind next } =
        writtenOf notes ++ c.unwritten := by
    have hwrote : writtenOf [.wrote (chunk.take n)] = chunk.take n := List.append_nil _
    rw [writtenOf_append, hwrote, unwritten, unwritten, hpending, hphase, List.append_nil,
      List.append_nil, List.append_assoc, inFlight_rest]
    rfl
  refine ⟨fun _ _ => hpending, ?_, ?_, ?_⟩
  · rw [hclosing, hencoded, hunwritten]
    exact h.opened
  · rw [hclosing, hencoded, hunwritten]
    exact h.closed
  · rw [hclosing, hencoded, hunwritten]
    exact h.cut

/-- A flush that is over has written everything that was on its way. -/
theorem of_sync {next : AfterFlush} (h : Stream clean c notes) (hphase : c.phase = .syncing next) :
    Stream clean (c.afterFlush next) (notes ++ [.synced]) := by
  refine h.of_same ?_ ?_ (fun n hflush => absurd hflush (not_flushes_afterFlush c next n))
    (outbound_afterFlush c next) rfl rfl
  · rw [closing?_afterFlush, hphase]
    rfl
  · rw [inFlight_of_not_flushes (not_flushes_afterFlush c next), hphase]
    rfl

/-- A connection that leaves puts nothing into the buffer and writes nothing. -/
theorem of_leave {ending : Ending} (h : Stream clean c notes)
    (hphase : c.phase = .shuttingDown ending) :
    Stream clean (c.leave ending).1 (notes ++ (c.leave ending).2) := by
  rw [leave]
  cases c.handler with
  | none =>
      refine h.of_same ?_ ?_ (fun _ hflush => (nomatch hflush)) rfl rfl rfl
      · rw [hphase]
        rfl
      · rw [hphase]
        rfl
  | some handler =>
      refine h.of_same ?_ ?_ (fun _ hflush => (nomatch hflush)) rfl rfl rfl
      · rw [hphase]
        rfl
      · rw [hphase]
        rfl

/-- A connection that is dropped writes nothing any more. -/
theorem of_abandon (h : Stream clean c notes) (task : Task Unit) :
    Stream False { c with handler := none, phase := .abandoned task } notes := by
  obtain ⟨sent, reason, hsent, hprefix⟩ := h.exists_prefix
  exact ⟨fun _ hflush => (nomatch hflush), fun hnone => (nomatch hnone), fun hfalse => hfalse.elim,
    fun _ => ⟨sent, reason, hsent, h.pending_prefix.trans hprefix⟩⟩

/-- A message that is put into the mailbox does not concern the writer. -/
theorem post (h : Stream clean c notes) (d : Delivery) :
    Stream clean (c.post d).1 (notes ++ (c.post d).2) := by
  rw [Connection.post]
  split
  · exact h.of_same rfl rfl (fun _ hflush => hflush) rfl rfl rfl
  · exact h.of_same rfl rfl (fun _ hflush => hflush) rfl rfl rfl

variable {client : Nat} {s : Store Subscriber} {m : Move} {p : Progress}

/-- Every step keeps the relation, and keeps it strict unless the move is a failure. -/
theorem step (h : Stream clean c notes) (hstep : Steps client s c m p) :
    Stream (clean ∧ m.IsSound) p.connection (notes ++ p.notes) := by
  have hsound : ∀ {c : Connection} {notes : List Note}, Stream clean c notes →
      Stream (clean ∧ m.IsSound) c notes := fun h => h.mono And.left
  cases hstep with
  | finished hphase _ =>
      rw [List.append_nil]
      refine hsound (of_flush ?_)
      exact (h.pending_of_atRest (hphase ▸ .turn)).trans (List.append_nil _).symm
  | turn hphase _ _ => exact hsound (h.of_quiet (hphase ▸ .turn) .look rfl rfl rfl)
  | turnFlush hphase _ _ =>
      rw [List.append_nil]
      refine hsound (of_flush ?_)
      exact (h.pending_of_atRest (hphase ▸ .turn)).trans (List.append_nil _).symm
  | request hphase _ _ => exact hsound (h.of_quiet hphase.atRest (.running _) rfl rfl rfl)
  | orphan hphase _ _ => exact hsound (of_fail (h.pending_of_quiet hphase.atRest rfl rfl))
  | endOfInput hphase _ => exact hsound (h.of_quiet hphase.atRest .turn rfl rfl rfl)
  | readError hphase _ => exact hsound (of_fail (h.pending_of_quiet hphase.atRest rfl rfl))
  | nothing hphase _ =>
      rw [List.append_nil]
      refine hsound (of_flush ?_)
      exact (h.pending_of_atRest (hphase ▸ .look)).trans (List.append_nil _).symm
  | more hphase _ _ _ =>
      exact hsound (h.of_quiet (hphase ▸ .select) (hphase ▸ .select) rfl rfl rfl)
  | @message d mailbox hphase _ =>
      have hputs := puts_deliver { c with mailbox, phase := .turn } d
      refine hsound (of_atRest (hputs.phase_eq ▸ .turn) ?_)
      have houtbound : ({ c with mailbox, phase := .turn } : Connection).outbound = c.outbound :=
        rfl
      exact h.pending_of_puts (hphase ▸ .select) houtbound hputs
  | overBudget hphase _ =>
      rw [List.append_nil]
      refine hsound (of_flush ?_)
      exact (h.pending_of_atRest (hphase ▸ .settle)).trans (List.append_nil _).symm
  | settled hphase _ => exact hsound (h.of_quiet (hphase ▸ .settle) .turn rfl rfl rfl)
  | fatal hphase => exact hsound (of_fail (h.pending_of_quiet (hphase ▸ .running _) rfl rfl))
  | @answered completion hphase =>
      have hputs := puts_complete c completion
      exact hsound (of_atRest .settle (h.pending_of_puts (hphase ▸ .running _) rfl hputs))
  | @fatalWaiting _ held hphase =>
      exact hsound (of_fail (h.pending_of_quiet (hphase ▸ .waiting _ held)
        (unitsOf_discarded held) (writtenOf_discarded held)))
  | @answeredWaiting completion held hphase =>
      have hputs := puts_resume c held completion
      refine hsound (of_flush ?_)
      exact (h.pending_of_puts (hphase ▸ .waiting _ held) rfl hputs).trans (List.append_nil _).symm
  | left hphase =>
      refine hsound (h.of_same ?_ ?_ (fun _ hflush => (nomatch hflush)) rfl rfl rfl)
      · rw [hphase]
        rfl
      · rw [hphase]
        rfl
  | dropped hphase =>
      refine hsound (h.of_same ?_ ?_ (fun _ hflush => (nomatch hflush)) rfl rfl rfl)
      · rw [hphase]
        rfl
      · rw [hphase]
        rfl
  | answer hphase => exact hsound (h.of_quiet (hphase ▸ .running _) (.running _) rfl rfl rfl)
  | @answerWaiting _ _ _ _ held hphase =>
      exact hsound (h.of_quiet (hphase ▸ .waiting _ held) (.waiting _ held) rfl rfl rfl)
  | answerLeaving hphase =>
      refine hsound (h.of_same ?_ ?_ (fun _ hflush => (nomatch hflush)) rfl rfl rfl)
      · rw [hphase]
        rfl
      · rw [hphase]
        rfl
  | answerAbandoned hphase =>
      refine hsound (h.of_same ?_ ?_ (fun _ hflush => (nomatch hflush)) rfl rfl rfl)
      · rw [hphase]
        rfl
      · rw [hphase]
        rfl
  | computed hphase => exact hsound (h.of_quiet (hphase ▸ .running _) (.running _) rfl rfl rfl)
  | @computedWaiting _ held hphase =>
      exact hsound (h.of_quiet (hphase ▸ .waiting _ held) (.waiting _ held) rfl rfl rfl)
  | suspend hphase _ =>
      exact hsound (h.of_quiet (hphase ▸ .running _) (.waiting _ []) rfl rfl rfl)
  | @hold _ held d _ hphase _ _ =>
      exact hsound (h.of_quiet (hphase ▸ .waiting _ held) (.waiting _ (held ++ [d])) rfl rfl rfl)
  | accept hphase _ => exact hsound (h.of_accept hphase)
  | acceptNothing hphase =>
      exact (h.of_flushFailed (hphase ▸ .writing _ _ _) rfl rfl).mono fun hs => hs.2 rfl
  | sync hphase => exact hsound (h.of_sync hphase)
  | refuseWriting hphase =>
      exact (h.of_flushFailed (hphase ▸ .writing _ _ _) rfl rfl).mono And.right
  | refuseSyncing hphase =>
      exact (h.of_flushFailed (hphase ▸ .syncing _) rfl rfl).mono And.right
  | refuseShutDown hphase => exact hsound (h.of_leave hphase)
  | shutDown hphase => exact hsound (h.of_leave hphase)
  | arrive a => exact hsound (h.of_same rfl rfl (fun _ hflush => hflush) rfl rfl rfl)
  | abandon _ =>
      rw [List.append_nil]
      exact (h.of_abandon _).mono And.right

/-- A new connection has written nothing. -/
theorem new (settings : Settings) : Stream clean (Connection.new settings) [] :=
  of_atRest .turn rfl

end Stream

end Connection

end RespStore
