import RespStore.Proofs.Conversation
import RespStore.Proofs.Server

/-!
# What is ahead of a connection

A connection that nobody interferes with is at every moment somewhere in the conversation that
its client should have. `Connection.Ahead` says where: it relates the state of the connection, of
the store and of the input to the transcript of what is still to come. `Ahead.step` shows that a
step puts into the buffer exactly what the transcript loses at its front.

No message is ever delivered on the way: what is silent causes none, and what is not leaves normal
mode behind, in which messages are given up.
-/

namespace RespStore

/-- Whether a transcript starts with the encodings `bytes` and goes on as another one does. -/
structure Transcript.Leads (t : Transcript) (bytes : Bytes) (t' : Transcript) : Prop where
  /-- The encodings. -/
  encoded_eq : t.encoded = bytes ++ t'.encoded
  /-- The same end. -/
  ending_eq : t.ending = t'.ending
  /-- The same keys in the end. -/
  entries_eq : t.entries = t'.entries

theorem Transcript.Leads.refl (t : Transcript) : t.Leads [] t := ⟨rfl, rfl, rfl⟩

/-- A transcript that leads to one that leads further starts with the bytes of both. -/
theorem Transcript.Leads.trans {t t' t'' : Transcript} {bytes more : Bytes}
    (h : t.Leads bytes t') (h' : t'.Leads more t'') : t.Leads (bytes ++ more) t'' := by
  refine ⟨?_, h.ending_eq.trans h'.ending_eq, h.entries_eq.trans h'.entries_eq⟩
  rw [h.encoded_eq, h'.encoded_eq, List.append_assoc]

/-- A transcript that a reply stands in front of starts with the encoding of that reply. -/
theorem Transcript.leads_after (reply : Reply) (t : Transcript) :
    (t.after reply).Leads reply.encode t :=
  ⟨t.encoded_after reply, rfl, rfl⟩

/-- Whether nothing disturbs a connection that a move is made of: neither the writer nor the store
fails, and the connection is not dropped. -/
def Move.IsPlain (m : Move) : Prop :=
  m.IsSound ∧ ∀ instead, m = .answer instead → ∀ q, instead q = none

/-- What arrives with a move. -/
def Move.arrivals : Move → List Arrival
  | .arrive a => [a]
  | _ => []

namespace Connection

/-- What comes next for a connection that works on no request, perhaps behind a flush. -/
def Phase.heading? : Phase → Option AfterFlush
  | .turn => some .turn
  | .look => some .look
  | .select => some .select
  | .settle => some .settle
  | .writing _ _ next => some next
  | .syncing next => some next
  | _ => none

/-! ### The three kinds of phases -/

namespace Phase

variable {phase : Phase} {next : AfterFlush} {task : Task (Except Fatal Completion)}

/-- A connection between two requests works on none. -/
theorem task?_of_heading (h : heading? phase = some next) : task? phase = none := by
  cases phase with
  | running task => exact nomatch h
  | waiting task held => exact nomatch h
  | _ => rfl

/-- A connection between two requests ends only if what it goes on with is the end. -/
theorem closing?_of_heading (h : heading? phase = some next) :
    closing? phase = closingAfter? next := by
  cases phase with
  | turn => exact Option.some.inj h ▸ rfl
  | look => exact Option.some.inj h ▸ rfl
  | select => exact Option.some.inj h ▸ rfl
  | settle => exact Option.some.inj h ▸ rfl
  | writing chunk more other => exact Option.some.inj h ▸ rfl
  | syncing other => exact Option.some.inj h ▸ rfl
  | _ => exact nomatch h

end Phase

section Flush

variable (c : Connection) {next : AfterFlush}

/-- What a connection goes on with behind a flush is what comes next for it. -/
theorem heading?_afterFlush (hopen : closingAfter? next = none) :
    Phase.heading? (c.afterFlush next).phase = some next := by
  cases next with
  | shutDown ending => exact nomatch hopen
  | _ => rfl

/-- What comes next for a connection does not depend on whether there is anything to flush. -/
theorem heading?_flush (hopen : closingAfter? next = none) :
    Phase.heading? (c.flush next).phase = some next := by
  rw [flush]
  split
  · exact heading?_afterFlush _ hopen
  · rfl

/-- A connection that closes writes what it holds, or tells the writer to shut down if it holds
nothing. -/
theorem phase_flush_shutDown (ending : Ending) :
    (∃ chunk more, (c.flush (.shutDown ending)).phase = .writing chunk more (.shutDown ending)) ∨
      (c.flush (.shutDown ending)).phase = .shuttingDown ending := by
  rw [flush]
  split
  · exact .inr rfl
  · exact .inl ⟨_, _, rfl⟩

end Flush

/-! ### Where a connection stands -/

variable {client : Nat} {future : List Arrival} {s : Store Subscriber} {c : Connection}

/-- A connection between two requests, with all that is still to come for it. -/
structure Listens (future : List Arrival) (c : Connection) (handler : Handler) (input : Bytes) :
    Prop where
  /-- It takes requests. -/
  not_closed : c.state ≠ .closed
  /-- The next request goes to this handler. -/
  handler_eq : c.handler = some handler
  /-- No message waits. -/
  queued_eq : c.mailbox.queued = []
  /-- What is still to come. -/
  expects : c.reader.Expects future input
  /-- No request is too large. -/
  fits : input.length ≤ c.settings.maxFrame

/-- A connection that works on a request. -/
structure Works (future : List Arrival) (c : Connection) (task : Task (Except Fatal Completion))
    (input : Bytes) : Prop where
  /-- It takes requests. -/
  not_closed : c.state ≠ .closed
  /-- No message will be delivered: none is wanted, or there is none. -/
  quiet : Handler.StaysNormal task ∨
    task.Silent ∧ c.mailbox.queued = [] ∧ Phase.held c.phase = []
  /-- What is still to come. -/
  expects : c.reader.Expects future input
  /-- No request is too large. -/
  fits : input.length ≤ c.settings.maxFrame

/-- A connection that is about to end or has ended. -/
structure Closes (c : Connection) : Prop where
  /-- Everything has been handed to the writer. -/
  pending_eq : c.outbound.pending = []
  /-- It only takes off listeners. -/
  leaving : ∀ task ending, c.phase = .leaving task ending → ∃ ids, task = Handler.unlistenEach ids
  /-- It was not dropped. -/
  not_abandoned : ∀ task, c.phase ≠ .abandoned task

/-- The transcript of what is still ahead of a connection. -/
inductive Ahead (client : Nat) (future : List Arrival) (s : Store Subscriber) (c : Connection) :
    Transcript → Prop where
  /-- The rest of the input, for the handler that is there. -/
  | listens {handler : Handler} {input : Bytes} {next : AfterFlush}
      (hnext : Phase.heading? c.phase = some next) (hopen : closingAfter? next = none)
      (h : Listens future c handler input) :
      Ahead client future s c (handler.converse client s input)
  /-- The end of a request, and then the rest of the input. -/
  | works {task : Task (Except Fatal Completion)} {input : Bytes}
      (htask : Phase.task? c.phase = some task) (h : Works future c task input) :
      Ahead client future s c
        ((task.run .plain client s).conclude fun h s => h.converse client s input)
  /-- Nothing, since the client has left or has asked to quit. -/
  | finishes {next : AfterFlush} (hnext : Phase.heading? c.phase = some next)
      (hturn : next = .turn ∨ next = .settle) (hstate : c.state = .closed) :
      Ahead client future s c ⟨[], .completed, s.entries⟩
  /-- Nothing but the end. -/
  | closes {ending : Ending} (hclosing : Phase.closing? c.phase = some ending) (h : Closes c) :
      Ahead client future s c ⟨[], ending, s.entries⟩

namespace Listens

variable {handler : Handler} {input : Bytes}

/-- To begin a flush changes nothing about what a connection listens for. -/
theorem flush (h : Listens future c handler input) (next : AfterFlush) :
    Listens future (c.flush next) handler input := by
  obtain ⟨outbound, autoRead, phase, heq⟩ := flush_eq c next
  rw [heq]
  exact ⟨h.not_closed, h.handler_eq, h.queued_eq, h.expects, h.fits⟩

/-- What follows a flush changes nothing about what a connection listens for. -/
theorem afterFlush (h : Listens future c handler input) (next : AfterFlush) :
    Listens future (c.afterFlush next) handler input := by
  obtain ⟨autoRead, phase, heq⟩ := afterFlush_eq c next
  rw [heq]
  exact ⟨h.not_closed, h.handler_eq, h.queued_eq, h.expects, h.fits⟩

end Listens

namespace Listens

variable {handler : Handler} {input : Bytes} {reader : Reader}

/-- A request that is found is carried out next. -/
theorem of_request {request : Request} (h : Listens future c handler input)
    (hpoll : c.reader.poll c.settings.maxFrame = (some (.request request), reader)) :
    ∃ rest, Request.front input = .request request rest ∧ reader.Expects future rest := by
  rcases Reader.poll_cases h.expects h.fits with ⟨request', rest, r, heq, hfront, hexpects⟩ |
    ⟨_, _, heq, -⟩ | ⟨_, heq, -⟩ | ⟨_, heq, -⟩ | ⟨_, heq, -⟩
  · obtain ⟨hfound, rfl⟩ := Prod.mk.inj (heq.symm.trans hpoll)
    obtain rfl := Reader.Found.request.inj (Option.some.inj hfound)
    exact ⟨rest, hfront, hexpects⟩
  · exact nomatch heq.symm.trans hpoll
  · exact nomatch heq.symm.trans hpoll
  · exact nomatch heq.symm.trans hpoll
  · exact nomatch heq.symm.trans hpoll

/-- A failure to read a request is what the client is told next. -/
theorem of_failed {cause : ReadError} (h : Listens future c handler input)
    (hpoll : c.reader.poll c.settings.maxFrame = (some (.failed cause), reader)) :
    handler.converse client s input = ⟨[], .failed cause.message, s.entries⟩ := by
  rcases Reader.poll_cases h.expects h.fits with ⟨_, _, _, heq, -⟩ | ⟨cause', _, heq, hfront⟩ |
    ⟨_, heq, hfront, hinput⟩ | ⟨_, heq, -⟩ | ⟨_, heq, -⟩
  · exact nomatch heq.symm.trans hpoll
  · obtain ⟨hfound, -⟩ := Prod.mk.inj (heq.symm.trans hpoll)
    obtain rfl := Reader.Found.failed.inj (Option.some.inj hfound)
    exact Handler.converse_of_broken hfront
  · obtain ⟨hfound, -⟩ := Prod.mk.inj (heq.symm.trans hpoll)
    obtain rfl := Reader.Found.failed.inj (Option.some.inj hfound)
    rw [Handler.converse_of_incomplete hfront, if_neg hinput]
  · exact nomatch heq.symm.trans hpoll
  · exact nomatch heq.symm.trans hpoll

/-- The end of the input is the end of the conversation. -/
theorem of_finished (h : Listens future c handler input)
    (hpoll : c.reader.poll c.settings.maxFrame = (some .finished, reader)) :
    handler.converse client s input = ⟨[], .completed, s.entries⟩ := by
  rcases Reader.poll_cases h.expects h.fits with ⟨_, _, _, heq, -⟩ | ⟨_, _, heq, -⟩ |
    ⟨_, heq, -⟩ | ⟨_, -, rfl⟩ | ⟨_, heq, -⟩
  · exact nomatch heq.symm.trans hpoll
  · exact nomatch heq.symm.trans hpoll
  · exact nomatch heq.symm.trans hpoll
  · rw [Handler.converse_of_incomplete Request.front_nil, if_pos rfl]
  · exact nomatch heq.symm.trans hpoll

/-- A reader that has to wait has taken in all that has arrived. -/
theorem of_none (h : Listens future c handler input)
    (hpoll : c.reader.poll c.settings.maxFrame = (none, reader)) :
    Listens future { c with reader } handler input ∧ reader.arrivals = [] := by
  rcases Reader.poll_cases h.expects h.fits with ⟨_, _, _, heq, -⟩ | ⟨_, _, heq, -⟩ |
    ⟨_, heq, -⟩ | ⟨_, heq, -⟩ | ⟨r, heq, hexpects, harrivals⟩
  · exact nomatch heq.symm.trans hpoll
  · exact nomatch heq.symm.trans hpoll
  · exact nomatch heq.symm.trans hpoll
  · exact nomatch heq.symm.trans hpoll
  · obtain ⟨-, rfl⟩ := Prod.mk.inj (heq.symm.trans hpoll)
    exact ⟨⟨h.not_closed, h.handler_eq, h.queued_eq, hexpects, h.fits⟩, harrivals⟩

end Listens

namespace Closes

variable {ending : Ending}

/-- A connection with nothing buffered closes, if it has not begun to leave. -/
theorem of_heading {next : AfterFlush} (hpending : c.outbound.pending = [])
    (hphase : Phase.heading? c.phase = some next) : Closes c := by
  refine ⟨hpending, fun task other heq => ?_, fun task heq => ?_⟩
  · rw [heq] at hphase
    cases hphase
  · rw [heq] at hphase
    cases hphase

/-- A connection whose writer shuts down with nothing buffered closes. -/
theorem of_shuttingDown (hpending : c.outbound.pending = [])
    (hphase : c.phase = .shuttingDown ending) : Closes c := by
  refine ⟨hpending, fun task other heq => ?_, fun task heq => ?_⟩
  · rw [hphase] at heq
    cases heq
  · rw [hphase] at heq
    cases heq

/-- A connection that takes its listeners off with nothing buffered closes. -/
theorem of_leaving {task : Task Unit} (hpending : c.outbound.pending = [])
    (hphase : c.phase = .leaving task ending) (htask : ∃ ids, task = Handler.unlistenEach ids) :
    Closes c := by
  refine ⟨hpending, fun task' other heq => ?_, fun task' heq => ?_⟩
  · rw [hphase] at heq
    cases heq
    exact htask
  · rw [hphase] at heq
    cases heq

/-- A connection that has ended with nothing buffered closes. -/
theorem of_ended (hpending : c.outbound.pending = []) (hphase : c.phase = .ended ending) :
    Closes c := by
  refine ⟨hpending, fun task other heq => ?_, fun task heq => ?_⟩
  · rw [hphase] at heq
    cases heq
  · rw [hphase] at heq
    cases heq

/-- A connection that flushes before it shuts down closes, since a flush takes all that is
buffered. -/
theorem flush (ending : Ending) : Closes (c.flush (.shutDown ending)) := by
  obtain ⟨-, -, hpending⟩ := flush_facts c (.shutDown ending)
  rcases phase_flush_shutDown c ending with ⟨chunk, more, hphase⟩ | hphase
  · exact of_heading hpending (congrArg Phase.heading? hphase)
  · exact of_shuttingDown hpending hphase

end Closes

namespace Ahead

variable {t : Transcript} {next : AfterFlush}

/-- A connection that closes has nothing ahead but its ending. -/
theorem of_close (ending : Ending) :
    Ahead client future s (c.close ending) ⟨[], ending, s.entries⟩ :=
  .closes (flush_facts _ _).2.1 (.flush ending)

/-- A connection that fails has nothing ahead but its ending, since the error is buffered
already. -/
theorem of_fail (reason : String) :
    Ahead client future s (c.fail reason) ⟨[], .failed reason, s.entries⟩ :=
  of_close (.failed reason)

/-- What is ahead of a connection between two requests. -/
theorem cases_of_heading (h : Ahead client future s c t)
    (hnext : Phase.heading? c.phase = some next) (hopen : closingAfter? next = none) :
    (∃ handler input, Listens future c handler input ∧ t = handler.converse client s input) ∨
      (next = .turn ∨ next = .settle) ∧ c.state = .closed ∧ t = ⟨[], .completed, s.entries⟩ := by
  cases h with
  | listens _ _ hlistens => exact .inl ⟨_, _, hlistens, rfl⟩
  | works htask _ => exact nomatch (Phase.task?_of_heading hnext).symm.trans htask
  | finishes hnext' hturn hstate =>
      obtain rfl := Option.some.inj (hnext'.symm.trans hnext)
      exact .inr ⟨hturn, hstate, rfl⟩
  | closes hclosing _ =>
      rw [Phase.closing?_of_heading hnext, hopen] at hclosing
      exact nomatch hclosing

/-- What is ahead of a connection that works on a request. -/
theorem cases_of_task {task : Task (Except Fatal Completion)} (h : Ahead client future s c t)
    (htask : Phase.task? c.phase = some task) :
    ∃ input, Works future c task input ∧
      t = (task.run .plain client s).conclude fun h s => h.converse client s input := by
  cases h with
  | works htask' hworks =>
      obtain rfl := Option.some.inj (htask'.symm.trans htask)
      exact ⟨_, hworks, rfl⟩
  | listens hnext _ _ => exact nomatch (Phase.task?_of_heading hnext).symm.trans htask
  | finishes hnext _ _ => exact nomatch (Phase.task?_of_heading hnext).symm.trans htask
  | closes hclosing _ => exact nomatch (Phase.closing?_of_task htask).symm.trans hclosing

/-- What is ahead of a connection that is about to end. -/
theorem cases_of_closing {ending : Ending} (h : Ahead client future s c t)
    (hclosing : Phase.closing? c.phase = some ending) :
    Closes c ∧ t = ⟨[], ending, s.entries⟩ := by
  cases h with
  | closes hclosing' hcloses =>
      obtain rfl := Option.some.inj (hclosing'.symm.trans hclosing)
      exact ⟨hcloses, rfl⟩
  | works htask _ => exact nomatch (Phase.closing?_of_task htask).symm.trans hclosing
  | listens hnext hopen _ =>
      rw [Phase.closing?_of_heading hnext, hopen] at hclosing
      exact nomatch hclosing
  | @finishes next hnext hturn _ =>
      rw [Phase.closing?_of_heading hnext] at hclosing
      rcases hturn with rfl | rfl
      · exact nomatch hclosing
      · exact nomatch hclosing

end Ahead

/-! ### Requests that come to their end -/

/-- A completion puts the encoding of its reply into the buffer. -/
theorem encodedOf_complete (c : Connection) (completion : Completion) :
    encodedOf (c.complete completion).2 = completion.reply.encode := by
  rw [encodedOf, unitsOf_complete, Reply.encode_parts]

/-- Messages that are given up put nothing into the buffer. -/
theorem encodedOf_discarded (ds : List Delivery) : encodedOf (ds.map .discarded) = [] := by
  rw [encodedOf, unitsOf_discarded, List.flatMap_nil]

/-- In normal mode messages are given up. -/
theorem deliver_of_normal (h : c.handler = some .normal) (d : Delivery) :
    c.deliver d = (c, [.discarded d]) := by
  have hnone : d.channel ∉ (∅ : Registry) := Std.ExtTreeMap.not_mem_empty
  have hsubscribed : c.isSubscribed d.channel = false := by
    rw [isSubscribed, h]
    exact Bool.eq_false_iff.mpr hnone
  rw [deliver, hsubscribed]
  rfl

/-- In normal mode messages are given up, however many there are. -/
theorem deliverEach_of_normal (h : c.handler = some .normal) (ds : List Delivery) :
    c.deliverEach ds = (c, ds.map .discarded) := by
  induction ds with
  | nil => rfl
  | cons d ds ih =>
      rw [deliverEach, deliver_of_normal h]
      simp only [ih]
      rfl

/-- A request that had to wait is answered without messages behind it, when none is held or none
is wanted. -/
theorem resume_of_quiet {completion : Completion} {held : List Delivery}
    (h : completion.handler = .normal ∨ held = []) :
    c.resume held completion =
      ((c.complete completion).1.wake, (c.complete completion).2 ++ held.map .discarded) := by
  rw [resume]
  rcases h with hnormal | rfl
  · have hhandler : (c.complete completion).1.handler = some .normal := congrArg some hnormal
    simp only [deliverEach_of_normal hhandler]
  · rfl

/-- No message waits behind a request that causes none or leads to normal mode. -/
theorem queued_complete {completion : Completion}
    (h : completion.handler = .normal ∨ c.mailbox.queued = []) :
    (c.complete completion).1.mailbox.queued = [] := by
  rw [complete]
  rcases h with hnormal | hqueued
  · rw [hnormal]
    rfl
  · cases completion.handler.isSubscriber with
    | false => rfl
    | true => exact hqueued

/-- To stop waiting neither closes a connection nor opens it. -/
theorem wake_state (c : Connection) : c.wake.state = .closed ↔ c.state = .closed := by
  rw [wake]
  split
  · rename_i hawaiting
    rw [hawaiting]
    exact iff_of_false State.noConfusion State.noConfusion
  · exact Iff.rfl

namespace Works

variable {input : Bytes} {completion : Completion} {outbound : Outbound} {autoRead : Bool}
  {state : State} {phase : Phase}

/-- A request that is done has led to normal mode, or no message waits and none is held. -/
theorem quiet_done (h : Works future c (.done (.ok completion)) input) :
    completion.handler = .normal ∨ c.mailbox.queued = [] ∧ Phase.held c.phase = [] := by
  rcases h.quiet with hnormal | ⟨-, hquiet⟩
  · exact .inl (hnormal completion rfl)
  · exact .inr hquiet

/-- A request that had to wait is answered without messages behind it. -/
theorem resume_eq {held : List Delivery} (h : Works future c (.done (.ok completion)) input)
    (hphase : c.phase = .waiting (.done (.ok completion)) held) :
    c.resume held completion =
      ((c.complete completion).1.wake, (c.complete completion).2 ++ held.map .discarded) := by
  refine resume_of_quiet (h.quiet_done.imp_right fun hnone => ?_)
  have hheld := hnone.2
  rw [hphase] at hheld
  exact hheld

/-- A request that had to wait is answered, and then everything is written out. -/
theorem flush_resume_eq {held : List Delivery} (h : Works future c (.done (.ok completion)) input)
    (hphase : c.phase = .waiting (.done (.ok completion)) held) :
    ∃ outbound autoRead state phase,
      (c.resume held completion).1.flush .settle =
        { (c.complete completion).1 with outbound, autoRead, state, phase } ∧
      Phase.heading? phase = some .settle ∧
      (state = .closed ↔ (c.complete completion).1.state = .closed) := by
  rw [h.resume_eq hphase]
  obtain ⟨state, hwake⟩ := wake_eq (c.complete completion).1
  obtain ⟨outbound, autoRead, phase, hflush⟩ := flush_eq (c.complete completion).1.wake .settle
  have hopen : closingAfter? .settle = none := rfl
  have hnext := heading?_flush (c.complete completion).1.wake hopen
  have hstate := wake_state (c.complete completion).1
  rw [hflush] at hnext
  rw [hwake] at hstate
  exact ⟨outbound, autoRead, state, phase, by rw [hflush, hwake], hnext, hstate⟩

/-- A connection whose request is answered goes on with the next one, unless the completion says
that it ends. -/
theorem ahead_complete (h : Works future c (.done (.ok completion)) input)
    (hnext : Phase.heading? phase = some .settle)
    (hstate : state = .closed ↔ (c.complete completion).1.state = .closed) :
    ∃ t', Ahead client future s
        { (c.complete completion).1 with outbound, autoRead, state, phase } t' ∧
      (((Task.done (.ok completion)).run .plain client s).conclude
        fun h s => h.converse client s input).Leads completion.reply.encode t' := by
  have hconclude : ((Task.done (.ok completion)).run .plain client s).conclude
      (fun h s => h.converse client s input) =
        if completion.close then ⟨[completion.reply], .completed, s.entries⟩
        else (completion.handler.converse client s input).after completion.reply := rfl
  rw [hconclude]
  by_cases hclose : completion.close = true
  · rw [if_pos hclose]
    refine ⟨⟨[], .completed, s.entries⟩, .finishes hnext (.inr rfl) (hstate.mpr ?_), ?_⟩
    · exact if_pos hclose
    · exact ⟨List.flatMap_cons, rfl, rfl⟩
  · rw [if_neg hclose]
    have hopen : (c.complete completion).1.state = c.state := if_neg hclose
    refine ⟨_, .listens hnext rfl ⟨?_, rfl, ?_, h.expects, h.fits⟩, Transcript.leads_after _ _⟩
    · exact fun hclosed => h.not_closed (hopen ▸ hstate.mp hclosed)
    · exact queued_complete (h.quiet_done.imp_right And.left)

end Works

/-- A connection that leaves puts nothing into the buffer. -/
theorem encodedOf_leave {ending : Ending} : encodedOf (c.leave ending).2 = [] := by
  rw [leave]
  cases c.handler with
  | none => rfl
  | some handler => rfl

/-! ### Steps -/

/-- A message that is taken was waiting. -/
theorem queued_ne_nil_of_take? {mailbox mailbox' : Mailbox} {d : Delivery}
    (h : mailbox.take? = some (d, mailbox')) : mailbox.queued ≠ [] := by
  intro hqueued
  rw [Mailbox.take?, hqueued] at h
  cases h

/-- A connection that polls is about to look for a request, or waits. -/
theorem Polls.heading? (h : c.Polls) :
    Phase.heading? c.phase = some .look ∨ Phase.heading? c.phase = some .select := by
  rcases h with hphase | ⟨hphase, -⟩
  · exact .inl (hphase ▸ rfl)
  · exact .inr (hphase ▸ rfl)

/-- What comes next for a connection does not change while a chunk is written. -/
theorem heading?_rest (chunk : Bytes) (more : List Bytes) (next : AfterFlush) :
    Phase.heading? (rest chunk more next) = some next := by
  have hflushes := Stream.flushes_rest chunk more next
  generalize rest chunk more next = phase at hflushes
  cases hflushes with
  | writing => rfl
  | syncing => rfl

namespace Ahead

variable {t : Transcript} {next : AfterFlush}

/-- A connection that is about to look for a request or to wait listens. -/
theorem listens_of_heading (h : Ahead client future s c t)
    (hnext : Phase.heading? c.phase = some next) (hlooks : next = .look ∨ next = .select) :
    ∃ handler input, Listens future c handler input ∧ t = handler.converse client s input := by
  rcases hlooks with rfl | rfl
  · rcases h.cases_of_heading hnext rfl with hlistens | ⟨hturn | hsettle, -⟩
    · exact hlistens
    · cases hturn
    · cases hsettle
  · rcases h.cases_of_heading hnext rfl with hlistens | ⟨hturn | hsettle, -⟩
    · exact hlistens
    · cases hturn
    · cases hsettle

/-- A connection that polls listens, and what is ahead of it is what its handler makes of the
input. -/
theorem listens_of_polls (h : Ahead client future s c t) (hphase : c.Polls) :
    ∃ handler input, Listens future c handler input ∧ t = handler.converse client s input := by
  rcases hphase.heading? with hnext | hnext
  · exact h.listens_of_heading hnext (.inl rfl)
  · exact h.listens_of_heading hnext (.inr rfl)

/-- A connection that looks for a request has its handler. -/
theorem handler_ne_none (h : Ahead client future s c t) (hphase : c.Polls) : c.handler ≠ none := by
  obtain ⟨handler, input, hlistens, -⟩ := h.listens_of_polls hphase
  rw [hlistens.handler_eq]
  exact Option.some_ne_none handler

/-- No message waits for a connection that takes one when there is one. -/
theorem take?_eq_none (h : Ahead client future s c t) (hphase : c.phase = .select) :
    c.mailbox.take? = none := by
  have hnext : Phase.heading? c.phase = some .select := congrArg Phase.heading? hphase
  obtain ⟨handler, input, hlistens, -⟩ := h.listens_of_heading hnext (.inr rfl)
  rw [Mailbox.take?, hlistens.queued_eq]

/-- A connection that nobody interferes with is not dropped. -/
theorem not_abandoned (h : Ahead client future s c t) (task : Task Unit) :
    c.phase ≠ .abandoned task := by
  intro hphase
  obtain ⟨hcloses, -⟩ := h.cases_of_closing (congrArg Phase.closing? hphase)
  exact hcloses.not_abandoned task hphase

/-- A step of a flush keeps what is ahead. -/
theorem of_flushing {phase : Phase} (h : Ahead client future s c t)
    (hnext : Phase.heading? c.phase = some next) (hphase : Phase.heading? phase = some next) :
    Ahead client future s { c with phase } t := by
  by_cases hopen : closingAfter? next = none
  · rcases h.cases_of_heading hnext hopen with
      ⟨handler, input, hlistens, rfl⟩ | ⟨hturn, hstate, rfl⟩
    · exact .listens hphase hopen ⟨hlistens.not_closed, hlistens.handler_eq, hlistens.queued_eq,
        hlistens.expects, hlistens.fits⟩
    · exact .finishes hphase hturn hstate
  · obtain ⟨ending, hending⟩ := Option.ne_none_iff_exists'.mp hopen
    obtain ⟨hcloses, rfl⟩ := h.cases_of_closing ((Phase.closing?_of_heading hnext).trans hending)
    exact .closes ((Phase.closing?_of_heading hphase).trans hending)
      (.of_heading hcloses.pending_eq hphase)

/-- A step that changes nothing about what is ahead. -/
theorem exists_same (h : Ahead client future s c t) :
    ∃ t', Ahead client future s c t' ∧ t.Leads [] t' :=
  ⟨t, h, .refl t⟩

/-- The writer has passed on everything. -/
theorem of_sync (h : Ahead client future s c t) (hphase : c.phase = .syncing next) :
    Ahead client future s (c.afterFlush next) t := by
  have hnext : Phase.heading? c.phase = some next := hphase ▸ rfl
  by_cases hopen : closingAfter? next = none
  · rcases h.cases_of_heading hnext hopen with
      ⟨handler, input, hlistens, rfl⟩ | ⟨hturn, hstate, rfl⟩
    · exact .listens (heading?_afterFlush c hopen) hopen (hlistens.afterFlush next)
    · refine .finishes (heading?_afterFlush c hopen) hturn ?_
      obtain ⟨autoRead, phase, heq⟩ := afterFlush_eq c next
      rw [heq]
      exact hstate
  · obtain ⟨ending, hending⟩ := Option.ne_none_iff_exists'.mp hopen
    obtain ⟨hcloses, rfl⟩ := h.cases_of_closing ((Phase.closing?_of_heading hnext).trans hending)
    cases next with
    | shutDown other => exact .closes hending (.of_shuttingDown hcloses.pending_eq rfl)
    | _ => exact nomatch hending

/-- The writer was told to shut down. -/
theorem of_leave {ending : Ending} (h : Ahead client future s c t)
    (hphase : c.phase = .shuttingDown ending) : Ahead client future s (c.leave ending).1 t := by
  obtain ⟨hcloses, rfl⟩ := h.cases_of_closing (congrArg Phase.closing? hphase)
  rw [leave]
  cases c.handler with
  | none => exact .closes rfl (.of_ended hcloses.pending_eq rfl)
  | some handler =>
      exact .closes rfl (.of_leaving hcloses.pending_eq rfl ⟨handler.registry.ids, rfl⟩)

/-- A request is taken from the front of the input, and its task is ahead instead. -/
theorem of_request {request : Request} {reader : Reader} {handler : Handler}
    (h : Ahead client future s c t) (hphase : c.Polls)
    (hpoll : c.reader.poll c.settings.maxFrame = (some (.request request), reader))
    (hhandler : c.handler = some handler) :
    Ahead client future s
      { c with reader, handler := none, phase := .running (handler.handle request) } t := by
  obtain ⟨handler', input, hlistens, rfl⟩ := h.listens_of_polls hphase
  obtain rfl := Option.some.inj (hhandler.symm.trans hlistens.handler_eq)
  obtain ⟨rest, hfront, hexpects⟩ := hlistens.of_request hpoll
  rw [Handler.converse_of_request hfront]
  refine .works rfl ⟨hlistens.not_closed, ?_, hexpects, ?_⟩
  · exact (handler.silent_or_normal request).elim
      (fun hsilent => .inr ⟨hsilent, hlistens.queued_eq, rfl⟩) .inl
  · exact Nat.le_of_lt (Nat.lt_of_lt_of_le (Request.length_lt_of_front hfront) hlistens.fits)

/-- Behind a request, more is buffered than the budget allows. -/
theorem of_overBudget (h : Ahead client future s c t) (hphase : c.phase = .settle) :
    Ahead client future s ({ c with autoRead := false }.flush .turn) t := by
  rcases h.cases_of_heading (congrArg Phase.heading? hphase) rfl with
    ⟨handler, input, hlistens, rfl⟩ | ⟨-, hstate, rfl⟩
  · have hpaused : Listens future { c with autoRead := false } handler input :=
      ⟨hlistens.not_closed, hlistens.handler_eq, hlistens.queued_eq, hlistens.expects,
        hlistens.fits⟩
    exact .listens (heading?_flush _ rfl) rfl (hpaused.flush .turn)
  · refine .finishes (heading?_flush _ rfl) (.inl rfl) ?_
    obtain ⟨outbound, autoRead, phase, heq⟩ := flush_eq { c with autoRead := false } .turn
    rw [heq]
    exact hstate

/-- Behind a request, no more is buffered than the budget allows. -/
theorem of_settled (h : Ahead client future s c t) (hphase : c.phase = .settle) :
    Ahead client future s { c with phase := .turn } t := by
  rcases h.cases_of_heading (congrArg Phase.heading? hphase) rfl with
    ⟨handler, input, hlistens, rfl⟩ | ⟨-, hstate, rfl⟩
  · exact .listens rfl rfl ⟨hlistens.not_closed, hlistens.handler_eq,
      hlistens.queued_eq, hlistens.expects, hlistens.fits⟩
  · exact .finishes rfl (.inl rfl) hstate

/-- A request that is worked on, and nothing else has changed. -/
theorem of_working {task task' : Task (Except Fatal Completion)} {phase : Phase} {state : State}
    {autoRead : Bool} (h : Ahead client future s c t) (htask : Phase.task? c.phase = some task)
    (hphase : Phase.task? phase = some task') (hstate : state = c.state ∨ state = .awaiting)
    (hheld : Phase.held phase = Phase.held c.phase)
    (hrun : (task'.run .plain client s).conclude = (task.run .plain client s).conclude)
    (hnormal : Handler.StaysNormal task → Handler.StaysNormal task')
    (hsilent : task.Silent → task'.Silent) :
    Ahead client future s { c with state, autoRead, phase } t := by
  obtain ⟨input, hworks, rfl⟩ := h.cases_of_task htask
  rw [← hrun]
  refine .works hphase ⟨?_, ?_, hworks.expects, hworks.fits⟩
  · rcases hstate with rfl | rfl
    · exact hworks.not_closed
    · exact (nomatch ·)
  · rcases hworks.quiet with hstays | ⟨hquiet, hqueued, hnone⟩
    · exact .inl (hnormal hstays)
    · exact .inr ⟨hsilent hquiet, hqueued, hheld.trans hnone⟩

/-- A message that comes while a request waits is held only if it will be given up. -/
theorem of_hold {task : Task (Except Fatal Completion)} {held : List Delivery} {d : Delivery}
    {mailbox : Mailbox} (h : Ahead client future s c t) (hphase : c.phase = .waiting task held)
    (hmailbox : c.mailbox.take? = some (d, mailbox)) :
    Ahead client future s { c with mailbox, phase := .waiting task (held ++ [d]) } t := by
  obtain ⟨input, hworks, rfl⟩ := h.cases_of_task (congrArg Phase.task? hphase)
  rcases hworks.quiet with hnormal | ⟨-, hqueued, -⟩
  · exact .works rfl ⟨hworks.not_closed, .inl hnormal, hworks.expects, hworks.fits⟩
  · exact absurd hqueued (queued_ne_nil_of_take? hmailbox)

/-- A request that has failed for good is what the client is told last. -/
theorem of_fatal {reason : Fatal} (h : Ahead client future s c t)
    (htask : Phase.task? c.phase = some (.done (.error reason))) :
    Ahead client future s (c.fail reason) t := by
  obtain ⟨input, -, rfl⟩ := h.cases_of_task htask
  exact of_fail reason

/-- A request that had to wait is answered, and what was held is given up. -/
theorem exists_resume {completion : Completion} {held : List Delivery}
    (h : Ahead client future s c t) (hphase : c.phase = .waiting (.done (.ok completion)) held) :
    ∃ t', Ahead client future s ((c.resume held completion).1.flush .settle) t' ∧
      t.Leads (encodedOf (c.resume held completion).2) t' := by
  obtain ⟨input, hworks, rfl⟩ := h.cases_of_task (congrArg Phase.task? hphase)
  obtain ⟨outbound, autoRead, state, phase, heq, hnext, hstate⟩ := hworks.flush_resume_eq hphase
  rw [heq, hworks.resume_eq hphase, encodedOf_append, encodedOf_discarded, List.append_nil,
    encodedOf_complete]
  exact hworks.ahead_complete hnext hstate

/-- The call of a request is answered by the store, which may bring messages. -/
theorem of_answer {owned : Registry} {q : Call} {next : q.Answer → Task (Except Fatal Completion)}
    {phase : Phase} (h : Ahead client future s c t)
    (htask : Phase.task? c.phase = some (.call owned q next))
    (hphase : Phase.task? phase = some (next (s.react client q none).answer))
    (hheld : Phase.held phase = Phase.held c.phase) :
    Ahead client future (s.react client q none).store
      (({ c with phase } : Connection).postEach
        (deliveriesFor client (s.react client q none).notices)).1 t := by
  obtain ⟨input, hworks, rfl⟩ := h.cases_of_task htask
  rw [Task.conclude_call]
  obtain ⟨mailbox, hpost⟩ := postEach_eq { c with phase }
    (deliveriesFor client (s.react client q none).notices)
  refine hpost ▸ .works hphase ⟨hworks.not_closed, ?_, hworks.expects, hworks.fits⟩
  rcases hworks.quiet with hnormal | ⟨⟨hsilent, hnext⟩, hqueued, hnone⟩
  · exact .inl (hnormal _ trivial)
  · rw [(Store.react_of_isSilent hsilent s client).2] at hpost
    have hmailbox : c.mailbox = mailbox := congrArg Connection.mailbox hpost
    exact .inr ⟨hnext _, hmailbox ▸ hqueued, hheld.trans hnone⟩

/-- A listener of a connection that ends is taken off. -/
theorem of_answerLeaving {owned : Registry} {q : Call} {next : q.Answer → Task Unit}
    {ending : Ending} (h : Ahead client future s c t)
    (hphase : c.phase = .leaving (.call owned q next) ending) :
    Ahead client future (s.react client q none).store
      (({ c with phase := .leaving (next (s.react client q none).answer) ending } :
        Connection).postEach (deliveriesFor client (s.react client q none).notices)).1 t := by
  obtain ⟨hcloses, rfl⟩ := h.cases_of_closing (congrArg Phase.closing? hphase)
  obtain ⟨ids, htask⟩ := hcloses.leaving _ _ hphase
  have hsilent : q.IsSilent ∧ ∀ answer, ∃ ids, next answer = Handler.unlistenEach ids := by
    cases ids with
    | nil => cases htask
    | cons id ids =>
        cases htask
        exact ⟨trivial, fun _ => ⟨ids, rfl⟩⟩
  obtain ⟨hsilent, hnext⟩ := hsilent
  obtain ⟨mailbox, hpost⟩ := postEach_eq
    { c with phase := .leaving (next (s.react client q none).answer) ending }
    (deliveriesFor client (s.react client q none).notices)
  rw [hpost, ← (Store.react_of_isSilent hsilent s client).1]
  exact .closes rfl (.of_leaving hcloses.pending_eq rfl (hnext _))

/-- What arrives was expected. -/
theorem of_arrive {a : Arrival} (h : Ahead client (a :: future) s c t) :
    Ahead client future s { c with reader := c.reader.arrive a } t := by
  cases h with
  | listens hnext hopen h =>
      exact .listens hnext hopen ⟨h.not_closed, h.handler_eq, h.queued_eq, h.expects.arrive, h.fits⟩
  | works htask h => exact .works htask ⟨h.not_closed, h.quiet, h.expects.arrive, h.fits⟩
  | finishes hnext hturn hstate => exact .finishes hnext hturn hstate
  | closes hclosing h => exact .closes hclosing ⟨h.pending_eq, h.leaving, h.not_abandoned⟩

variable {m : Move} {p : Progress}

/-- A step puts into the buffer what the transcript that is ahead loses at its front. -/
theorem step (h : Ahead client (m.arrivals ++ future) s c t) (hstep : Steps client s c m p)
    (hplain : m.IsPlain) :
    ∃ t', Ahead client future p.store
        (p.connection.postEach (deliveriesFor client p.notices)).1 t' ∧
      t.Leads (encodedOf p.notes) t' := by
  cases hstep with
  | finished hphase hstate =>
      rcases h.cases_of_heading (congrArg Phase.heading? hphase) rfl with
        ⟨_, _, hlistens, -⟩ | ⟨-, -, rfl⟩
      · exact absurd hstate hlistens.not_closed
      · exact (of_close .completed).exists_same
  | turn hphase hstate _ =>
      rcases h.cases_of_heading (congrArg Phase.heading? hphase) rfl with
        ⟨handler, input, hlistens, rfl⟩ | ⟨-, hclosed, -⟩
      · refine exists_same (.listens rfl rfl ?_)
        exact ⟨hlistens.not_closed, hlistens.handler_eq, hlistens.queued_eq, hlistens.expects,
          hlistens.fits⟩
      · exact absurd hclosed hstate
  | turnFlush hphase hstate _ =>
      rcases h.cases_of_heading (congrArg Phase.heading? hphase) rfl with
        ⟨handler, input, hlistens, rfl⟩ | ⟨-, hclosed, -⟩
      · exact exists_same (.listens (heading?_flush c rfl) rfl (hlistens.flush .look))
      · exact absurd hclosed hstate
  | request hphase hpoll hhandler => exact (h.of_request hphase hpoll hhandler).exists_same
  | orphan hphase hpoll hhandler => exact absurd hhandler (h.handler_ne_none hphase)
  | endOfInput hphase hpoll =>
      obtain ⟨handler, input, hlistens, rfl⟩ := h.listens_of_polls hphase
      rw [hlistens.of_finished hpoll]
      exact exists_same (.finishes rfl (.inl rfl) rfl)
  | readError hphase hpoll =>
      obtain ⟨handler, input, hlistens, rfl⟩ := h.listens_of_polls hphase
      rw [hlistens.of_failed hpoll]
      exact (of_fail _).exists_same
  | nothing hphase hpoll =>
      obtain ⟨handler, input, hlistens, rfl⟩ := h.listens_of_polls (.inl hphase)
      have hwaits := (hlistens.of_none hpoll).1
      exact exists_same (.listens (heading?_flush _ rfl) rfl (hwaits.flush .select))
  | more hphase hmailbox _ hpoll =>
      obtain ⟨handler, input, hlistens, rfl⟩ := h.listens_of_polls (.inr ⟨hphase, hmailbox⟩)
      have hnext : Phase.heading? c.phase = some .select := congrArg Phase.heading? hphase
      exact exists_same (.listens hnext rfl (hlistens.of_none hpoll).1)
  | message hphase hmailbox => exact nomatch (h.take?_eq_none hphase).symm.trans hmailbox
  | overBudget hphase _ => exact (h.of_overBudget hphase).exists_same
  | settled hphase _ => exact (h.of_settled hphase).exists_same
  | fatal hphase => exact (h.of_fatal (congrArg Phase.task? hphase)).exists_same
  | @answered completion hphase =>
      obtain ⟨input, hworks, rfl⟩ := h.cases_of_task (congrArg Phase.task? hphase)
      rw [encodedOf_complete]
      exact hworks.ahead_complete rfl Iff.rfl
  | @fatalWaiting reason held hphase =>
      rw [encodedOf_discarded]
      exact (h.of_fatal (congrArg Phase.task? hphase)).exists_same
  | answeredWaiting hphase => exact h.exists_resume hphase
  | left hphase =>
      obtain ⟨hcloses, rfl⟩ := h.cases_of_closing (congrArg Phase.closing? hphase)
      exact exists_same (.closes rfl (.of_ended hcloses.pending_eq rfl))
  | dropped hphase => exact absurd hphase (h.not_abandoned _)
  | @answer instead owned q next hphase =>
      rw [hplain.2 instead rfl q]
      exact (h.of_answer (congrArg Phase.task? hphase) rfl (hphase ▸ rfl)).exists_same
  | @answerWaiting instead owned q next held hphase =>
      rw [hplain.2 instead rfl q]
      exact (h.of_answer (congrArg Phase.task? hphase) rfl (hphase ▸ rfl)).exists_same
  | @answerLeaving instead owned q next ending hphase =>
      rw [hplain.2 instead rfl q]
      exact (h.of_answerLeaving hphase).exists_same
  | answerAbandoned hphase => exact absurd hphase (h.not_abandoned _)
  | @computed next hphase =>
      have hnext : Phase.task? (.running next) = some next := rfl
      exact (h.of_working (congrArg Phase.task? hphase) hnext (.inl rfl) (hphase ▸ rfl) rfl id
        id).exists_same
  | @computedWaiting next held hphase =>
      have hnext : Phase.task? (.waiting next held) = some next := rfl
      exact (h.of_working (congrArg Phase.task? hphase) hnext (.inl rfl) (hphase ▸ rfl) rfl id
        id).exists_same
  | suspend hphase _ =>
      exact (h.of_working (congrArg Phase.task? hphase) rfl (.inr rfl) (hphase ▸ rfl) rfl id
        id).exists_same
  | hold hphase _ hmailbox => exact (h.of_hold hphase hmailbox).exists_same
  | accept hphase _ =>
      exact (h.of_flushing (congrArg Phase.heading? hphase) (heading?_rest _ _ _)).exists_same
  | acceptNothing hphase => exact absurd rfl hplain.1
  | sync hphase => exact (h.of_sync hphase).exists_same
  | refuseWriting hphase => exact hplain.1.elim
  | refuseSyncing hphase => exact hplain.1.elim
  | refuseShutDown hphase => exact hplain.1.elim
  | @shutDown ending hphase =>
      have hnotes : encodedOf (c.leave ending).2 = [] := encodedOf_leave
      rw [hnotes]
      exact (h.of_leave hphase).exists_same
  | arrive a => exact h.of_arrive.exists_same
  | abandon _ => exact hplain.1.elim

end Ahead

end Connection

end RespStore
