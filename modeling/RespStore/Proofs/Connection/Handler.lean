import RespStore.Proofs.Connection.Stream
import RespStore.Proofs.Task

/-!
# The handler of a connection

A connection has a handler for the next request, except while it works on one: then the handler is
away with the task. This module says which steps leave the handler alone (`Connection.Rests`), and
that a connection that is not about to end has its handler back behind every request
(`Connection.Installed`).
-/

namespace RespStore.Connection

/-! ### Steps that leave the handler alone -/

/-- Whether a connection has this handler, or none, and works on no request. -/
structure Rests (handler : Option Handler) (c : Connection) : Prop where
  /-- The handler. -/
  handler_eq : c.handler = handler
  /-- No request is worked on. -/
  task?_eq : Phase.task? c.phase = none

section Rests

variable (c : Connection) (next : AfterFlush) (reason : String)

/-- What follows a flush leaves the handler alone. -/
theorem rests_afterFlush : Rests c.handler (c.afterFlush next) := by
  obtain ⟨autoRead, phase, heq⟩ := afterFlush_eq c next
  refine ⟨heq ▸ rfl, ?_⟩
  cases next with
  | _ => rfl

/-- To begin a flush leaves the handler alone. -/
theorem rests_flush : Rests c.handler (c.flush next) := by
  obtain ⟨outbound, autoRead, phase, heq⟩ := flush_eq c next
  refine ⟨heq ▸ rfl, ?_⟩
  rw [flush]
  split
  · exact (rests_afterFlush _ next).task?_eq
  · rfl

/-- To fail leaves the handler alone. -/
theorem rests_fail : Rests c.handler (c.fail reason) := by
  have := rests_flush { c with outbound := c.outbound.push (lastError reason), state := .closed }
    (.shutDown (.failed reason))
  exact ⟨this.handler_eq, this.task?_eq⟩

/-- A flush that fails leaves the handler alone. -/
theorem rests_flushFailed : Rests c.handler (c.flushFailed reason next) := by
  cases next with
  | shutDown ending => exact ⟨rfl, rfl⟩
  | _ => exact rests_fail c reason

end Rests

/-- Writing or discarding a message leaves the handler alone. -/
theorem handler_deliver (c : Connection) (d : Delivery) : (c.deliver d).1.handler = c.handler := by
  rw [deliver]
  split
  · rfl
  · rfl

/-- Writing or discarding messages, one after the other, leaves the handler alone. -/
theorem handler_deliverEach (c : Connection) (ds : List Delivery) :
    (c.deliverEach ds).1.handler = c.handler := by
  induction ds generalizing c with
  | nil => rfl
  | cons other ds ih => exact (ih _).trans (handler_deliver c other)

/-- A request that had to wait leaves the handler of its completion, whatever messages follow it. -/
theorem handler_resume (c : Connection) (held : List Delivery) (completion : Completion) :
    (c.resume held completion).1.handler = some completion.handler := by
  obtain ⟨state, hwake⟩ := wake_eq ((c.complete completion).1.deliverEach held).1
  rw [resume]
  simp only [hwake]
  exact handler_deliverEach _ held

/-- While output is flushed no request is worked on. -/
theorem task?_of_flushes {phase : Phase} {next : AfterFlush} (h : Phase.Flushes phase next) :
    Phase.task? phase = none := by
  cases h with
  | writing => rfl
  | syncing => rfl

/-- What waits is what is taken and what is left. -/
theorem queued_of_take {mailbox mailbox' : Mailbox} {d : Delivery}
    (h : mailbox.take? = some (d, mailbox')) : mailbox.queued = d :: mailbox'.queued := by
  rw [Mailbox.take?] at h
  split at h
  · cases h
  · rename_i hqueued
    obtain ⟨rfl, rfl⟩ := Prod.mk.inj (Option.some.inj h)
    exact hqueued

/-! ### What is noted about replies and messages -/

section Notes

variable {c : Connection} {d : Delivery} {completion : Completion} {note : Note}

/-- A message of a channel that is subscribed to is delivered. -/
theorem notes_deliver (h : c.isSubscribed d.channel = true) :
    (c.deliver d).2 = [.delivered d] := by
  rw [deliver, if_pos h]

/-- All that is noted about a message is that it is delivered or discarded. -/
theorem note_of_mem_deliver (h : note ∈ (c.deliver d).2) :
    note = .delivered d ∨ note = .discarded d := by
  rw [deliver] at h
  split at h
  · exact .inl (List.mem_singleton.mp h)
  · exact .inr (List.mem_singleton.mp h)

/-- All that is noted about messages is that each of them is delivered or discarded. -/
theorem note_of_mem_deliverEach {ds : List Delivery} (h : note ∈ (c.deliverEach ds).2) :
    ∃ d, note = .delivered d ∨ note = .discarded d := by
  induction ds generalizing c with
  | nil => exact nomatch h
  | cons d ds ih =>
      rcases List.mem_append.mp h with hfirst | hrest
      · exact ⟨d, note_of_mem_deliver hfirst⟩
      · exact ih hrest

/-- A completion is noted as a reply, and what it can discard is messages. -/
theorem note_of_mem_complete (h : note ∈ (c.complete completion).2) :
    note = .replied completion.reply ∨ ∃ d, note = .discarded d := by
  rcases List.mem_cons.mp h with hreply | hrest
  · exact .inl hreply
  · split at hrest
    · exact nomatch hrest
    · obtain ⟨d, -, rfl⟩ := List.mem_map.mp hrest
      exact .inr ⟨d, rfl⟩

/-- A request that had to wait is noted as a reply, and behind it the messages that were held. -/
theorem note_of_mem_resume {held : List Delivery} (h : note ∈ (c.resume held completion).2) :
    note = .replied completion.reply ∨ ∃ d, note = .delivered d ∨ note = .discarded d := by
  rcases List.mem_append.mp h with hfirst | hrest
  · rcases note_of_mem_complete hfirst with hreply | ⟨d, hdiscarded⟩
    · exact .inl hreply
    · exact .inr ⟨d, .inr hdiscarded⟩
  · exact .inr (note_of_mem_deliverEach hrest)

end Notes

/-! ### Steps that end a connection -/

/-- A connection that leaves is about to end. -/
theorem closing?_leave (c : Connection) (ending : Ending) :
    Phase.closing? (c.leave ending).1.phase ≠ none := by
  rw [leave]
  cases c.handler with
  | none => exact Option.some_ne_none _
  | some handler => exact Option.some_ne_none _

/-- A connection that fails is about to end. -/
theorem closing?_fail (c : Connection) (reason : String) :
    Phase.closing? (c.fail reason).phase ≠ none :=
  fun hopen => nomatch (fail_facts c reason).2.1.symm.trans hopen

/-- A connection whose flush fails is about to end. -/
theorem closing?_flushFailed (c : Connection) (reason : String) (next : AfterFlush) :
    Phase.closing? (c.flushFailed reason next).phase ≠ none := by
  cases next with
  | shutDown ending => exact nofun
  | _ => exact fun hopen => nomatch (fail_facts c reason).2.1.symm.trans hopen

/-! ### What becomes of the handler -/

/-- Whether a task goes on with another one: with itself, behind an answer or behind a
computation. -/
inductive Continues : Task (Except Fatal Completion) → Task (Except Fatal Completion) → Prop where
  /-- It goes on later. -/
  | same (task : Task (Except Fatal Completion)) : Continues task task
  /-- A call is answered. -/
  | answer (owned : Registry) (q : Call) (next : q.Answer → Task (Except Fatal Completion))
      (answer : q.Answer) : Continues (.call owned q next) (next answer)
  /-- A computation is finished. -/
  | computed (next : Task (Except Fatal Completion)) : Continues (.aside next) next

/-- What a task always ends with is what it ends with after going on. -/
theorem Continues.always {task task' : Task (Except Fatal Completion)}
    {post : Except Fatal Completion → Prop} (h : Continues task task')
    (halways : task.Always (fun _ _ => True) post) : task'.Always (fun _ _ => True) post := by
  cases h with
  | same => exact halways
  | answer owned q next answer => exact halways answer trivial
  | computed => exact halways

/-- What a step does with the handler. -/
inductive Handles (c : Connection) (p : Progress) : Prop where
  /-- Nothing, and no request is worked on behind it. -/
  | rests (hrests : Rests c.handler p.connection)
  /-- It gives the handler up. -/
  | givesUp (hrests : Rests none p.connection)
  /-- It takes the handler away for a request. -/
  | takes (request : Request) (handler : Handler) (hhandler : c.handler = some handler)
      (hunits : unitsOf p.notes = []) (haway : p.connection.handler = none)
      (htask : Phase.task? p.connection.phase = some (handler.handle request))
  /-- It works on a request. -/
  | works (task task' : Task (Except Fatal Completion)) (htask : Phase.task? c.phase = some task)
      (hcontinues : Continues task task') (hunits : unitsOf p.notes = [])
      (hhandler : p.connection.handler = c.handler)
      (htask' : Phase.task? p.connection.phase = some task')
  /-- It installs the handler that a request has led to. -/
  | installs (completion : Completion)
      (htask : Phase.task? c.phase = some (.done (.ok completion)))
      (hrests : Rests (some completion.handler) p.connection)

/-- A connection that leaves gives its handler up, if it still has it. -/
theorem handles_leave (c : Connection) (ending : Ending) {p : Progress}
    (h : p.connection = (c.leave ending).1) : Handles c p := by
  rw [leave] at h
  cases hhandler : c.handler with
  | none =>
      rw [hhandler] at h
      exact .rests ⟨h ▸ rfl, h ▸ rfl⟩
  | some handler =>
      rw [hhandler] at h
      exact .givesUp ⟨h ▸ rfl, h ▸ rfl⟩

/-- Every step does one of these things with the handler. -/
theorem Steps.handles {client : Nat} {s : Store Subscriber} {c : Connection} {m : Move}
    {p : Progress} (hstep : Steps client s c m p) : Handles c p := by
  cases hstep with
  | finished _ _ => exact .rests (rests_flush { c with state := .closed } _)
  | turn _ _ _ => exact .rests ⟨rfl, rfl⟩
  | turnFlush _ _ _ => exact .rests (rests_flush c _)
  | request _ _ hhandler => exact .takes _ _ hhandler rfl rfl rfl
  | @orphan _ reader _ _ _ => exact .rests (rests_fail { c with reader } _)
  | endOfInput _ _ => exact .rests ⟨rfl, rfl⟩
  | @readError _ reader _ _ => exact .rests (rests_fail { c with reader } _)
  | @nothing reader _ _ => exact .rests (rests_flush { c with reader } _)
  | more hphase _ _ _ => exact .rests ⟨rfl, hphase ▸ rfl⟩
  | @message d mailbox _ _ =>
      have hturn := (puts_deliver { c with mailbox, phase := .turn } d).phase_eq
      exact .rests ⟨handler_deliver _ d, congrArg Phase.task? hturn⟩
  | overBudget _ _ => exact .rests (rests_flush { c with autoRead := false } _)
  | settled _ _ => exact .rests ⟨rfl, rfl⟩
  | fatal _ => exact .rests (rests_fail c _)
  | answered hphase => exact .installs _ (congrArg Phase.task? hphase) ⟨rfl, rfl⟩
  | fatalWaiting _ => exact .rests (rests_fail c _)
  | @answeredWaiting completion held hphase =>
      have hrests := rests_flush (c.resume held completion).1 .settle
      rw [handler_resume] at hrests
      exact .installs _ (congrArg Phase.task? hphase) hrests
  | left _ => exact .rests ⟨rfl, rfl⟩
  | dropped _ => exact .rests ⟨rfl, rfl⟩
  | answer hphase =>
      exact .works _ _ (congrArg Phase.task? hphase) (.answer _ _ _ _) rfl rfl rfl
  | answerWaiting hphase =>
      exact .works _ _ (congrArg Phase.task? hphase) (.answer _ _ _ _) rfl rfl rfl
  | answerLeaving _ => exact .rests ⟨rfl, rfl⟩
  | answerAbandoned _ => exact .rests ⟨rfl, rfl⟩
  | computed hphase => exact .works _ _ (congrArg Phase.task? hphase) (.computed _) rfl rfl rfl
  | computedWaiting hphase =>
      exact .works _ _ (congrArg Phase.task? hphase) (.computed _) rfl rfl rfl
  | suspend hphase _ => exact .works _ _ (congrArg Phase.task? hphase) (.same _) rfl rfl rfl
  | hold hphase _ _ => exact .works _ _ (congrArg Phase.task? hphase) (.same _) rfl rfl rfl
  | @accept n chunk behind next _ _ =>
      have hflushes := Stream.flushes_rest (chunk.drop n) behind next
      exact .rests ⟨rfl, task?_of_flushes hflushes⟩
  | acceptNothing _ => exact .rests (rests_flushFailed c _ _)
  | sync _ => exact .rests (rests_afterFlush c _)
  | refuseWriting _ => exact .rests (rests_flushFailed c _ _)
  | refuseSyncing _ => exact .rests (rests_flushFailed c _ _)
  | refuseShutDown _ => exact handles_leave c _ rfl
  | shutDown _ => exact handles_leave c _ rfl
  | arrive a =>
      cases htask : Phase.task? c.phase with
      | none => exact .rests ⟨rfl, htask⟩
      | some task => exact .works task task htask (.same task) rfl rfl htask
  | abandon _ => exact .givesUp ⟨rfl, rfl⟩

/-! ### The invariant -/

/-- Whether the handler is there unless a request is worked on, or the connection is about to
end. -/
def Installed (c : Connection) : Prop :=
  Phase.closing? c.phase = none → Phase.task? c.phase = none → ∃ handler, c.handler = some handler

namespace Installed

variable {c c' : Connection}

/-- A connection that is about to end needs no handler. -/
theorem of_closing (hclosing : Phase.closing? c.phase ≠ none) : Installed c :=
  fun hopen => absurd hopen hclosing

/-- A connection that works on a request needs no handler of its own. -/
theorem of_task (htask : Phase.task? c.phase ≠ none) : Installed c :=
  fun _ hnone => absurd hnone htask

/-- A connection with a handler has it installed. -/
theorem of_handler {handler : Handler} (hhandler : c.handler = some handler) : Installed c :=
  fun _ _ => ⟨handler, hhandler⟩

/-- A step of a connection that works on no request, and does not begin to. -/
theorem of_rests (h : Installed c) (htask : Phase.task? c.phase = none)
    (hrests : Rests c.handler c')
    (hopen : Phase.closing? c'.phase = none → Phase.closing? c.phase = none) : Installed c' :=
  fun hclosing _ => hrests.handler_eq ▸ h (hopen hclosing) htask

/-- A new connection has its handler. -/
theorem new (settings : Settings) : Installed (Connection.new settings) := of_handler rfl

/-- A message that is posted leaves the handler where it is. -/
theorem post (h : Installed c) (d : Delivery) : Installed (c.post d).1 := by
  rw [Connection.post]
  split
  · exact h
  · exact h

variable {client : Nat} {s : Store Subscriber} {m : Move} {p : Progress}

/-- A step keeps the handler installed: what a request takes along is put back by its completion. -/
theorem step (h : Installed c) (hstep : Steps client s c m p) : Installed p.connection := by
  have hpolls : c.Polls → Phase.closing? c.phase = none ∧ Phase.task? c.phase = none := by
    rintro (hphase | ⟨hphase, -⟩)
    · exact hphase ▸ ⟨rfl, rfl⟩
    · exact hphase ▸ ⟨rfl, rfl⟩
  cases hstep with
  | finished hphase _ =>
      exact h.of_rests (hphase ▸ rfl) (rests_flush { c with state := .closed } _)
        fun _ => hphase ▸ rfl
  | turn hphase _ _ => exact h.of_rests (hphase ▸ rfl) ⟨rfl, rfl⟩ fun _ => hphase ▸ rfl
  | turnFlush hphase _ _ =>
      exact h.of_rests (hphase ▸ rfl) (rests_flush c _) fun _ => hphase ▸ rfl
  | request _ _ _ => exact of_task nofun
  | orphan _ _ _ => exact of_closing (closing?_fail _ _)
  | endOfInput hphase _ =>
      exact h.of_rests (hpolls hphase).2 ⟨rfl, rfl⟩ fun _ => (hpolls hphase).1
  | readError _ _ => exact of_closing (closing?_fail _ _)
  | @nothing reader hphase _ =>
      exact h.of_rests (hphase ▸ rfl) (rests_flush { c with reader } _) fun _ => hphase ▸ rfl
  | more hphase _ _ _ => exact h.of_rests (hphase ▸ rfl) ⟨rfl, hphase ▸ rfl⟩ id
  | @message d mailbox hphase _ =>
      have hturn := (puts_deliver { c with mailbox, phase := .turn } d).phase_eq
      exact h.of_rests (hphase ▸ rfl) ⟨handler_deliver _ d, congrArg Phase.task? hturn⟩
        fun _ => hphase ▸ rfl
  | overBudget hphase _ =>
      exact h.of_rests (hphase ▸ rfl) (rests_flush { c with autoRead := false } _)
        fun _ => hphase ▸ rfl
  | settled hphase _ => exact h.of_rests (hphase ▸ rfl) ⟨rfl, rfl⟩ fun _ => hphase ▸ rfl
  | fatal _ => exact of_closing (closing?_fail _ _)
  | answered _ => exact of_handler rfl
  | fatalWaiting _ => exact of_closing (closing?_fail _ _)
  | @answeredWaiting completion held _ =>
      have hrests := rests_flush (c.resume held completion).1 .settle
      exact of_handler (hrests.handler_eq.trans (handler_resume c held completion))
  | left _ => exact of_closing nofun
  | dropped _ => exact of_closing nofun
  | answer _ => exact of_task nofun
  | answerWaiting _ => exact of_task nofun
  | answerLeaving _ => exact of_closing nofun
  | answerAbandoned _ => exact of_closing nofun
  | computed _ => exact of_task nofun
  | computedWaiting _ => exact of_task nofun
  | suspend _ _ => exact of_task nofun
  | hold _ _ _ => exact of_task nofun
  | @accept n chunk behind next hphase _ =>
      have hflushes := Stream.flushes_rest (chunk.drop n) behind next
      have hclosing := Stream.closing?_of_flushes hflushes
      exact h.of_rests (hphase ▸ rfl) ⟨rfl, task?_of_flushes hflushes⟩
        fun hopen => hphase ▸ hclosing.symm.trans hopen
  | acceptNothing _ => exact of_closing (closing?_flushFailed c _ _)
  | @sync next hphase =>
      exact h.of_rests (hphase ▸ rfl) (rests_afterFlush c _)
        fun hopen => hphase ▸ (closing?_afterFlush c next).symm.trans hopen
  | refuseWriting _ => exact of_closing (closing?_flushFailed c _ _)
  | refuseSyncing _ => exact of_closing (closing?_flushFailed c _ _)
  | refuseShutDown _ => exact of_closing (closing?_leave c _)
  | shutDown _ => exact of_closing (closing?_leave c _)
  | arrive a => exact h
  | abandon _ => exact of_closing nofun

end Installed

end RespStore.Connection
