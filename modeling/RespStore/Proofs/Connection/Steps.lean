import RespStore.Connection

/-!
# The steps of a connection

`Connection.step` says what a move does; this module says it the other way round. `Steps`
lists everything that a step can be, one constructor for each thing that can happen, and
`steps_of_step` finds every step in the list. What is true of each entry is true of each step.
-/

namespace RespStore.Connection

/-- Whether the connection looks for a request: with nothing else to do, or behind the messages
that wait. -/
def Polls (c : Connection) : Prop :=
  c.phase = .look ∨ c.phase = .select ∧ c.mailbox.queued = []

/-- The rest of a chunk that is being written, and the chunks behind it. -/
def rest (chunk : Bytes) (more : List Bytes) (next : AfterFlush) : Phase :=
  match chunk, more with
  | [], [] => .syncing next
  | [], chunk :: more => .writing chunk more next
  | chunk, more => .writing chunk more next

/-- The connection once it has stopped waiting. -/
def wake (c : Connection) : Connection :=
  if c.state = .awaiting then { c with state := .idle } else c

/-- A request that had to wait is answered, and the messages that were held follow. -/
def resume (c : Connection) (held : List Delivery) (completion : Completion) : Stepped :=
  let answered := c.complete completion
  let delivered := answered.1.deliverEach held
  (delivered.1.wake, answered.2 ++ delivered.2)

/-- To stop waiting changes the state of a connection and nothing else. -/
theorem wake_eq (c : Connection) : ∃ state, c.wake = { c with state } := by
  rw [wake]
  split
  · exact ⟨.idle, rfl⟩
  · exact ⟨c.state, rfl⟩

/-- The task that the handler is away with, if there is one. -/
def Phase.task? : Phase → Option (Task (Except Fatal Completion))
  | .running task => some task
  | .waiting task _ => some task
  | _ => none

/-- The messages that are held while a request waits. -/
def Phase.held : Phase → List Delivery
  | .waiting _ held => held
  | _ => []

/-! ### What a flush leaves as it is -/

section Flush

variable (c : Connection) (next : AfterFlush)

/-- Looking at the room for output changes whether requests are read and nothing else. -/
theorem writable_eq : ∃ autoRead, c.writable = { c with autoRead } := by
  rw [writable]
  split
  · exact ⟨true, rfl⟩
  · exact ⟨c.autoRead, rfl⟩

/-- What follows a flush changes whether requests are read, and the phase. -/
theorem afterFlush_eq : ∃ autoRead phase, c.afterFlush next = { c with autoRead, phase } := by
  obtain ⟨autoRead, hwritable⟩ := c.writable_eq
  cases next with
  | look => exact ⟨autoRead, .look, by rw [afterFlush, hwritable]⟩
  | select => exact ⟨c.autoRead, .select, rfl⟩
  | settle => exact ⟨true, .settle, rfl⟩
  | turn => exact ⟨autoRead, .turn, by rw [afterFlush, hwritable]⟩
  | shutDown ending => exact ⟨c.autoRead, .shuttingDown ending, rfl⟩

/-- To begin a flush changes the output, whether requests are read, and the phase. -/
theorem flush_eq :
    ∃ outbound autoRead phase, c.flush next = { c with outbound, autoRead, phase } := by
  rw [flush]
  split
  · obtain ⟨autoRead, phase, heq⟩ := afterFlush_eq { c with outbound := c.outbound.cleared } next
    exact ⟨c.outbound.cleared, autoRead, phase, heq⟩
  · exact ⟨c.outbound.cleared, c.autoRead, _, rfl⟩

end Flush

/-! ### The steps -/

/-- What a step can be: the connection before it, the move, and what the step leaves. -/
inductive Steps (client : Nat) (s : Store Subscriber) (c : Connection) :
    Move → Progress → Prop where
  /-- The connection is over. -/
  | finished (hphase : c.phase = .turn) (hstate : c.state = .closed) :
      Steps client s c .proceed ⟨c.close .completed, s, [], []⟩
  /-- A turn begins by looking for a request. -/
  | turn (hphase : c.phase = .turn) (hstate : c.state ≠ .closed) (hread : c.autoRead = true) :
      Steps client s c .proceed ⟨{ c with phase := .look }, s, [], []⟩
  /-- A turn begins by writing, because reading was paused. -/
  | turnFlush (hphase : c.phase = .turn) (hstate : c.state ≠ .closed) (hread : c.autoRead = false) :
      Steps client s c .proceed ⟨c.flush .look, s, [], []⟩
  /-- A request is taken. -/
  | request {request : Request} {reader : Reader} {handler : Handler} (hphase : c.Polls)
      (hpoll : c.reader.poll c.settings.maxFrame = (some (.request request), reader))
      (hhandler : c.handler = some handler) :
      Steps client s c .proceed
        ⟨{ c with reader, handler := none, phase := .running (handler.handle request) }, s, [],
          [.took request]⟩
  /-- A request is taken that nobody can handle. -/
  | orphan {request : Request} {reader : Reader} (hphase : c.Polls)
      (hpoll : c.reader.poll c.settings.maxFrame = (some (.request request), reader))
      (hhandler : c.handler = none) :
      Steps client s c .proceed
        ⟨{ c with reader }.fail "connection has no request handler", s, [], [.took request]⟩
  /-- The input ends. -/
  | endOfInput {reader : Reader} (hphase : c.Polls)
      (hpoll : c.reader.poll c.settings.maxFrame = (some .finished, reader)) :
      Steps client s c .proceed
        ⟨{ c with reader, state := .closed, phase := .turn }, s, [], []⟩
  /-- The input cannot be read. -/
  | readError {cause : ReadError} {reader : Reader} (hphase : c.Polls)
      (hpoll : c.reader.poll c.settings.maxFrame = (some (.failed cause), reader)) :
      Steps client s c .proceed ⟨{ c with reader }.fail cause.message, s, [], []⟩
  /-- No request has arrived, so everything is written. -/
  | nothing {reader : Reader} (hphase : c.phase = .look)
      (hpoll : c.reader.poll c.settings.maxFrame = (none, reader)) :
      Steps client s c .proceed ⟨{ c with reader }.flush .select, s, [], []⟩
  /-- What has arrived is no whole request. -/
  | more {reader : Reader} (hphase : c.phase = .select) (hmailbox : c.mailbox.queued = [])
      (harrivals : c.reader.arrivals ≠ [])
      (hpoll : c.reader.poll c.settings.maxFrame = (none, reader)) :
      Steps client s c .proceed ⟨{ c with reader }, s, [], []⟩
  /-- A message is taken. -/
  | message {d : Delivery} {mailbox : Mailbox} (hphase : c.phase = .select)
      (hmailbox : c.mailbox.take? = some (d, mailbox)) :
      Steps client s c .proceed
        ⟨({ c with mailbox, phase := .turn }.deliver d).1, s, [],
          ({ c with mailbox, phase := .turn }.deliver d).2⟩
  /-- More is buffered than the budget allows. -/
  | overBudget (hphase : c.phase = .settle)
      (hbudget : c.settings.writeBudget < c.outbound.readable) :
      Steps client s c .proceed ⟨{ c with autoRead := false }.flush .turn, s, [], []⟩
  /-- No more is buffered than the budget allows. -/
  | settled (hphase : c.phase = .settle)
      (hbudget : ¬ c.settings.writeBudget < c.outbound.readable) :
      Steps client s c .proceed ⟨{ c with phase := .turn }, s, [], []⟩
  /-- A request fails for good. -/
  | fatal {reason : Fatal} (hphase : c.phase = .running (.done (.error reason))) :
      Steps client s c .proceed ⟨c.fail reason, s, [], []⟩
  /-- A request is answered. -/
  | answered {completion : Completion} (hphase : c.phase = .running (.done (.ok completion))) :
      Steps client s c .proceed
        ⟨{ (c.complete completion).1 with phase := .settle }, s, [], (c.complete completion).2⟩
  /-- A request that had to wait fails for good. -/
  | fatalWaiting {reason : Fatal} {held : List Delivery}
      (hphase : c.phase = .waiting (.done (.error reason)) held) :
      Steps client s c .proceed ⟨c.fail reason, s, [], held.map .discarded⟩
  /-- A request that had to wait is answered. -/
  | answeredWaiting {completion : Completion} {held : List Delivery}
      (hphase : c.phase = .waiting (.done (.ok completion)) held) :
      Steps client s c .proceed
        ⟨(c.resume held completion).1.flush .settle, s, [], (c.resume held completion).2⟩
  /-- The listeners that were left have been taken off. -/
  | left {ending : Ending} (hphase : c.phase = .leaving (.done ()) ending) :
      Steps client s c .proceed ⟨{ c with phase := .ended ending }, s, [], [.ended ending]⟩
  /-- The listeners of a dropped connection have been taken off. -/
  | dropped (hphase : c.phase = .abandoned (.done ())) :
      Steps client s c .proceed ⟨{ c with phase := .ended .dropped }, s, [], [.ended .dropped]⟩
  /-- A call of a request is answered. -/
  | answer {instead : (q : Call) → Option q.Answer} {owned : Registry} {q : Call}
      {next : q.Answer → Task (Except Fatal Completion)}
      (hphase : c.phase = .running (.call owned q next)) :
      Steps client s c (.answer instead)
        ⟨{ c with phase := .running (next (s.react client q (instead q)).answer) },
          (s.react client q (instead q)).store, (s.react client q (instead q)).notices, []⟩
  /-- A call of a request that has to wait is answered. -/
  | answerWaiting {instead : (q : Call) → Option q.Answer} {owned : Registry} {q : Call}
      {next : q.Answer → Task (Except Fatal Completion)} {held : List Delivery}
      (hphase : c.phase = .waiting (.call owned q next) held) :
      Steps client s c (.answer instead)
        ⟨{ c with phase := .waiting (next (s.react client q (instead q)).answer) held },
          (s.react client q (instead q)).store, (s.react client q (instead q)).notices, []⟩
  /-- A listener that is left is taken off, or not. -/
  | answerLeaving {instead : (q : Call) → Option q.Answer} {owned : Registry} {q : Call}
      {next : q.Answer → Task Unit} {ending : Ending}
      (hphase : c.phase = .leaving (.call owned q next) ending) :
      Steps client s c (.answer instead)
        ⟨{ c with phase := .leaving (next (s.react client q (instead q)).answer) ending },
          (s.react client q (instead q)).store, (s.react client q (instead q)).notices, []⟩
  /-- A listener of a dropped connection is taken off, or not. -/
  | answerAbandoned {instead : (q : Call) → Option q.Answer} {owned : Registry} {q : Call}
      {next : q.Answer → Task Unit} (hphase : c.phase = .abandoned (.call owned q next)) :
      Steps client s c (.answer instead)
        ⟨{ c with phase := .abandoned (next (s.react client q (instead q)).answer) },
          (s.react client q (instead q)).store, (s.react client q (instead q)).notices, []⟩
  /-- A computation of a request is finished. -/
  | computed {next : Task (Except Fatal Completion)} (hphase : c.phase = .running (.aside next)) :
      Steps client s c .computed ⟨{ c with phase := .running next }, s, [], []⟩
  /-- A computation of a request that has to wait is finished. -/
  | computedWaiting {next : Task (Except Fatal Completion)} {held : List Delivery}
      (hphase : c.phase = .waiting (.aside next) held) :
      Steps client s c .computed ⟨{ c with phase := .waiting next held }, s, [], []⟩
  /-- A request has to wait. -/
  | suspend {task : Task (Except Fatal Completion)} (hphase : c.phase = .running task)
      (htask : ∀ result, task ≠ .done result) :
      Steps client s c .suspend
        ⟨{ c with state := .awaiting, autoRead := false, phase := .waiting task [] }, s, [], []⟩
  /-- A message is held while a request waits. -/
  | hold {task : Task (Except Fatal Completion)} {held : List Delivery} {d : Delivery}
      {mailbox : Mailbox} (hphase : c.phase = .waiting task held)
      (htask : ∀ result, task ≠ .done result) (hmailbox : c.mailbox.take? = some (d, mailbox)) :
      Steps client s c .hold
        ⟨{ c with mailbox, phase := .waiting task (held ++ [d]) }, s, [], [.held d]⟩
  /-- The writer takes some bytes. -/
  | accept {n : Nat} {chunk : Bytes} {more : List Bytes} {next : AfterFlush}
      (hphase : c.phase = .writing chunk more next) (hn : n ≠ 0) :
      Steps client s c (.accept n)
        ⟨{ c with phase := rest (chunk.drop n) more next }, s, [], [.wrote (chunk.take n)]⟩
  /-- The writer takes nothing. -/
  | acceptNothing {chunk : Bytes} {more : List Bytes} {next : AfterFlush}
      (hphase : c.phase = .writing chunk more next) :
      Steps client s c (.accept 0) ⟨c.flushFailed writeZero next, s, [], [.wrote []]⟩
  /-- The writer passes on what it took. -/
  | sync {next : AfterFlush} (hphase : c.phase = .syncing next) :
      Steps client s c .sync ⟨c.afterFlush next, s, [], [.synced]⟩
  /-- The writer fails while it writes. -/
  | refuseWriting {reason : String} {chunk : Bytes} {more : List Bytes} {next : AfterFlush}
      (hphase : c.phase = .writing chunk more next) :
      Steps client s c (.refuse reason) ⟨c.flushFailed reason next, s, [], []⟩
  /-- The writer fails while it passes on. -/
  | refuseSyncing {reason : String} {next : AfterFlush} (hphase : c.phase = .syncing next) :
      Steps client s c (.refuse reason) ⟨c.flushFailed reason next, s, [], []⟩
  /-- The writer fails to shut down. -/
  | refuseShutDown {reason : String} {ending : Ending} (hphase : c.phase = .shuttingDown ending) :
      Steps client s c (.refuse reason) ⟨(c.leave ending).1, s, [], (c.leave ending).2⟩
  /-- The writer shuts down. -/
  | shutDown {ending : Ending} (hphase : c.phase = .shuttingDown ending) :
      Steps client s c .shutDown ⟨(c.leave ending).1, s, [], (c.leave ending).2⟩
  /-- Something arrives. -/
  | arrive (a : Arrival) :
      Steps client s c (.arrive a) ⟨{ c with reader := c.reader.arrive a }, s, [], []⟩
  /-- The connection is dropped. -/
  | abandon (hpresent : (∀ task, c.phase ≠ .abandoned task) ∧ ∀ ending, c.phase ≠ .ended ending) :
      Steps client s c .abandon
        ⟨{ c with handler := none, phase := .abandoned (Handler.unlistenEach c.registry.ids) }, s,
          [], []⟩

variable {client : Nat} {s : Store Subscriber} {c : Connection}

/-- A request that comes while there is no handler is an error of the connection. -/
theorem dispatch_of_none {request : Request} (h : c.handler = none) :
    c.dispatch request = (c.fail "connection has no request handler", [.took request]) := by
  simp only [dispatch, h]

/-- A request that comes while the handler is there takes it away with it. -/
theorem dispatch_of_some {request : Request} {handler : Handler} (h : c.handler = some handler) :
    c.dispatch request =
      ({ c with handler := none, phase := .running (handler.handle request) },
        [.took request]) := by
  simp only [dispatch, h]

/-- What the reader found is acted on. -/
theorem steps_of_receive {found : Reader.Found} {reader : Reader} (hphase : c.Polls)
    (hpoll : c.reader.poll c.settings.maxFrame = (some found, reader)) :
    Steps client s c .proceed
      ⟨({ c with reader }.receive found).1, s, [], ({ c with reader }.receive found).2⟩ := by
  cases found with
  | request request =>
      rw [receive]
      by_cases hhandler : c.handler = none
      · rw [dispatch_of_none (c := { c with reader }) hhandler]
        exact .orphan hphase hpoll hhandler
      · obtain ⟨handler, hhandler⟩ := Option.ne_none_iff_exists'.mp hhandler
        rw [dispatch_of_some (c := { c with reader }) hhandler]
        exact .request hphase hpoll hhandler
  | finished => exact .endOfInput hphase hpoll
  | failed cause => exact .readError hphase hpoll

/-- Looking for a request either acts on what the reader finds, or begins the flush before the
connection waits. -/
theorem steps_of_look (hphase : c.phase = .look) :
    Steps client s c .proceed ⟨c.look.1, s, [], c.look.2⟩ := by
  rw [look]
  cases hpoll : c.reader.poll c.settings.maxFrame with
  | mk found reader =>
      cases found with
      | none => exact .nothing hphase hpoll
      | some found => exact steps_of_receive (.inl hphase) hpoll

/-- A connection that waits takes the oldest message, or else reads what has arrived. -/
theorem steps_of_select {stepped : Stepped} (hphase : c.phase = .select)
    (h : c.select = some stepped) : Steps client s c .proceed ⟨stepped.1, s, [], stepped.2⟩ := by
  rw [select] at h
  cases hmailbox : c.mailbox.take? with
  | some taken =>
      rw [hmailbox] at h
      obtain rfl := Option.some.inj h
      exact .message hphase hmailbox
  | none =>
      have hqueued : c.mailbox.queued = [] := by
        rw [Mailbox.take?] at hmailbox
        split at hmailbox
        · assumption
        · exact nomatch hmailbox
      rw [hmailbox] at h
      simp only at h
      split at h
      · exact nomatch h
      · rename_i harrivals
        cases hpoll : c.reader.poll c.settings.maxFrame with
        | mk found reader =>
            rw [hpoll] at h
            cases found with
            | none =>
                obtain rfl := Option.some.inj h
                exact .more hphase hqueued (fun heq => harrivals (heq ▸ rfl)) hpoll
            | some found =>
                obtain rfl := Option.some.inj h
                exact steps_of_receive (.inr ⟨hphase, hqueued⟩) hpoll

/-- What a connection does on its own is told by its phase. -/
theorem steps_of_proceed {stepped : Stepped} (h : c.proceed = some stepped) :
    Steps client s c .proceed ⟨stepped.1, s, [], stepped.2⟩ := by
  rw [proceed] at h
  split at h
  · rename_i hphase
    obtain rfl := Option.some.inj h
    rw [Connection.turn]
    by_cases hstate : c.state = .closed
    · rw [if_pos hstate]
      exact .finished hphase hstate
    · rw [if_neg hstate]
      by_cases hread : c.autoRead = true
      · rw [if_pos hread]
        exact .turn hphase hstate hread
      · rw [if_neg hread]
        exact .turnFlush hphase hstate (Bool.not_eq_true _ ▸ hread)
  · rename_i hphase
    obtain rfl := Option.some.inj h
    exact steps_of_look hphase
  · rename_i hphase
    exact steps_of_select hphase h
  · rename_i hphase
    obtain rfl := Option.some.inj h
    rw [settle]
    by_cases hbudget : c.settings.writeBudget < c.outbound.readable
    · rw [if_pos hbudget]
      exact .overBudget hphase hbudget
    · rw [if_neg hbudget]
      exact .settled hphase hbudget
  · rename_i result hphase
    obtain rfl := Option.some.inj h
    cases result with
    | error reason => exact .fatal hphase
    | ok completion => exact .answered hphase
  · rename_i result held hphase
    obtain rfl := Option.some.inj h
    cases result with
    | error reason => exact .fatalWaiting hphase
    | ok completion => exact .answeredWaiting hphase
  · rename_i ending hphase
    obtain rfl := Option.some.inj h
    exact .left hphase
  · rename_i hphase
    obtain rfl := Option.some.inj h
    exact .dropped hphase
  · exact nomatch h

/-- An answer carries on the task that waits for it: that of a request, or the one that takes off
the listeners of a connection that ends. -/
theorem steps_of_answer {instead : (q : Call) → Option q.Answer} {p : Progress}
    (h : c.answer client s instead = some p) : Steps client s c (.answer instead) p := by
  rw [Connection.answer] at h
  split at h
  · obtain rfl := Option.some.inj h
    exact .answer ‹_›
  · obtain rfl := Option.some.inj h
    exact .answerWaiting ‹_›
  · obtain rfl := Option.some.inj h
    exact .answerLeaving ‹_›
  · obtain rfl := Option.some.inj h
    exact .answerAbandoned ‹_›
  · exact nomatch h

/-- A computation that is over carries its task on. -/
theorem steps_of_computed {c' : Connection} (h : c.computed = some c') :
    Steps client s c .computed ⟨c', s, [], []⟩ := by
  rw [Connection.computed] at h
  split at h
  · obtain rfl := Option.some.inj h
    exact .computed ‹_›
  · obtain rfl := Option.some.inj h
    exact .computedWaiting ‹_›
  · exact nomatch h

/-- A request that is not answered at once makes its connection wait. -/
theorem steps_of_suspend {c' : Connection} (h : c.suspend = some c') :
    Steps client s c .suspend ⟨c', s, [], []⟩ := by
  rw [Connection.suspend] at h
  split at h
  · exact nomatch h
  · rename_i task hdone hphase
    obtain rfl := Option.some.inj h
    exact .suspend hphase hdone
  · exact nomatch h

/-- A waiting connection holds the oldest message that waits for it. -/
theorem steps_of_hold {stepped : Stepped} (h : c.hold = some stepped) :
    Steps client s c .hold ⟨stepped.1, s, [], stepped.2⟩ := by
  rw [Connection.hold] at h
  split at h
  · exact nomatch h
  · rename_i task held hdone hphase
    obtain ⟨⟨d, mailbox⟩, hmailbox, rfl⟩ := Option.map_eq_some_iff.mp h
    exact .hold hphase hdone hmailbox
  · exact nomatch h

/-- A writer that takes bytes shortens the chunk that is being written, and one that takes none
fails the flush. -/
theorem steps_of_accept {n : Nat} {stepped : Stepped} (h : c.accept n = some stepped) :
    Steps client s c (.accept n) ⟨stepped.1, s, [], stepped.2⟩ := by
  rw [Connection.accept] at h
  split at h
  · rename_i chunk more next hphase
    split at h
    · rename_i hzero
      subst hzero
      obtain rfl := Option.some.inj h
      exact .acceptNothing hphase
    · rename_i hn
      obtain rfl := Option.some.inj h
      exact .accept hphase hn
  · exact nomatch h

/-- A writer that fails ends the flush that it fails in, or the shutdown. -/
theorem steps_of_refuse {reason : String} {stepped : Stepped} (h : c.refuse reason = some stepped) :
    Steps client s c (.refuse reason) ⟨stepped.1, s, [], stepped.2⟩ := by
  rw [Connection.refuse] at h
  split at h
  · obtain rfl := Option.some.inj h
    exact .refuseWriting ‹_›
  · obtain rfl := Option.some.inj h
    exact .refuseSyncing ‹_›
  · obtain rfl := Option.some.inj h
    exact .refuseShutDown ‹_›
  · exact nomatch h

/-- A connection can be dropped unless it has been dropped already or is over. -/
theorem steps_of_abandon {c' : Connection} (h : c.abandon = some c') :
    Steps client s c .abandon ⟨c', s, [], []⟩ := by
  rw [Connection.abandon] at h
  split at h
  · exact nomatch h
  · exact nomatch h
  · rename_i habandoned hended
    obtain rfl := Option.some.inj h
    exact .abandon ⟨habandoned, hended⟩

/-- Every step is in the list. -/
theorem steps_of_step {m : Move} {p : Progress} (h : c.step client s m = some p) :
    Steps client s c m p := by
  cases m with
  | proceed =>
      obtain ⟨stepped, hstepped, rfl⟩ := Option.map_eq_some_iff.mp h
      exact steps_of_proceed hstepped
  | answer instead => exact steps_of_answer h
  | computed =>
      obtain ⟨c', hc', rfl⟩ := Option.map_eq_some_iff.mp h
      exact steps_of_computed hc'
  | suspend =>
      obtain ⟨c', hc', rfl⟩ := Option.map_eq_some_iff.mp h
      exact steps_of_suspend hc'
  | hold =>
      obtain ⟨stepped, hstepped, rfl⟩ := Option.map_eq_some_iff.mp h
      exact steps_of_hold hstepped
  | accept n =>
      obtain ⟨stepped, hstepped, rfl⟩ := Option.map_eq_some_iff.mp h
      exact steps_of_accept hstepped
  | sync =>
      obtain ⟨stepped, hstepped, rfl⟩ := Option.map_eq_some_iff.mp h
      rw [Connection.sync] at hstepped
      split at hstepped
      · obtain rfl := Option.some.inj hstepped
        exact .sync ‹_›
      · exact nomatch hstepped
  | shutDown =>
      obtain ⟨stepped, hstepped, rfl⟩ := Option.map_eq_some_iff.mp h
      rw [Connection.shutDown] at hstepped
      split at hstepped
      · obtain rfl := Option.some.inj hstepped
        exact .shutDown ‹_›
      · exact nomatch hstepped
  | refuse reason =>
      obtain ⟨stepped, hstepped, rfl⟩ := Option.map_eq_some_iff.mp h
      exact steps_of_refuse hstepped
  | arrive a =>
      obtain rfl := Option.some.inj h
      exact .arrive a
  | abandon =>
      obtain ⟨c', hc', rfl⟩ := Option.map_eq_some_iff.mp h
      exact steps_of_abandon hc'

end RespStore.Connection
