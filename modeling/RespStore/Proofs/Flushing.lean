import RespStore.Proofs.Acknowledgement
import Mathlib.Data.List.DropRight

/-!
# What waits in the outbound buffer

A connection writes its buffer out before it waits for its client, but not before it waits for the
store: what was put into the buffer since the last flush stays there until the store has answered.
This module says what the buffer holds whenever a connection waits.

* `sinceSynced` is what was noted since the last flush.
* `Connection.Buffered` is the invariant: at rest the buffer holds the replies and messages that
  were noted since the last flush, and it holds nothing while the connection waits for its client,
  flushes or closes.
* `Server.pending_while_waiting` is the main result, about every run of any number of connections.
-/

namespace RespStore

/-! ### Notes -/

/-- Whether a note says that the writer passed on what it took. -/
def Note.isSynced : Note → Bool
  | .synced => true
  | _ => false

/-- Whether a note is about messages on their way to the connection. -/
def Note.AboutMailbox : Note → Prop
  | .held _ => True
  | .accepted _ => True
  | .lost _ => True
  | _ => False

/-- The notes since the last flush. -/
def sinceSynced (notes : List Note) : List Note := notes.rtakeWhile fun note => !note.isSynced

section Notes

variable {notes more : List Note}

/-- What is noted without a flush is noted since the last flush. -/
theorem sinceSynced_append (hmore : ∀ note ∈ more, note.isSynced = false) :
    sinceSynced (notes ++ more) = sinceSynced notes ++ more := by
  induction more using List.reverseRecOn with
  | nil => rw [List.append_nil, List.append_nil]
  | append_singleton more note ih =>
      obtain ⟨hmore, hnote⟩ := List.forall_mem_append.mp hmore
      have hopen : (!note.isSynced) = true :=
        congrArg not (hnote note (List.mem_singleton_self note))
      rw [← List.append_assoc, ← List.append_assoc, ← ih hmore]
      exact List.rtakeWhile_concat_pos _ _ _ hopen

/-- Nothing is noted since a flush that is over just now. -/
theorem sinceSynced_synced : sinceSynced (notes ++ [.synced]) = [] :=
  List.rtakeWhile_concat_neg _ _ _ Bool.false_ne_true

/-- What is noted about the mailbox is no flush. -/
theorem Note.AboutMailbox.isSynced_eq {note : Note} (h : note.AboutMailbox) :
    note.isSynced = false := by
  cases note with
  | synced => exact h.elim
  | _ => rfl

/-- What is noted about the mailbox puts nothing into the buffer. -/
theorem Note.AboutMailbox.units_eq {note : Note} (h : note.AboutMailbox) : note.units = [] := by
  cases note with
  | replied reply => exact h.elim
  | delivered d => exact h.elim
  | _ => rfl

/-- What is noted about the mailbox puts nothing into the buffer, however much it is. -/
theorem unitsOf_aboutMailbox (hmore : ∀ note ∈ more, note.AboutMailbox) : unitsOf more = [] :=
  List.flatMap_eq_nil_iff.mpr fun note hnote => (hmore note hnote).units_eq

/-- Notes that put nothing into the buffer put no byte there. -/
theorem encodedOf_of_units (hunits : unitsOf more = []) : encodedOf more = [] := by
  rw [encodedOf, hunits, List.flatMap_nil]

end Notes

namespace Connection

/-! ### The invariant -/

/-- Whether the buffer is empty where the connection stands: while it waits for its client, flushes
or closes. -/
def Phase.Clear : Phase → Prop
  | .select => True
  | .writing _ _ _ => True
  | .syncing _ => True
  | .shuttingDown _ => True
  | .leaving _ _ => True
  | _ => False

/-- Whether a request waits for a call. -/
def Phase.waits : Phase → Bool
  | .waiting _ _ => true
  | _ => false

/-- A connection that waits for a call waits with a task, and with the messages that it holds. -/
theorem Phase.exists_of_waits {phase : Phase} (h : waits phase = true) :
    ∃ task held, phase = .waiting task held := by
  cases phase with
  | waiting task held => exact ⟨task, held, rfl⟩
  | _ => exact absurd h Bool.false_ne_true

/-- The buffer holds what was put into it since the last flush. -/
structure Buffered (c : Connection) (notes : List Note) : Prop where
  /-- What is buffered at rest. -/
  resting : Phase.AtRest c.phase → c.outbound.pending = encodedOf (sinceSynced notes)
  /-- Where nothing is. -/
  clear : Phase.Clear c.phase → c.outbound.pending = []
  /-- While a request is worked on, it is the last one taken, and only messages come. -/
  busy : Phase.task? c.phase ≠ none → ∃ before request behind,
    notes = before ++ .took request :: behind ∧ ∀ note ∈ behind, note.AboutMailbox

/-! What is noted about replies and messages is no flush. -/

/-- A message that is delivered or given up is no flush. -/
theorem isSynced_deliver (c : Connection) (d : Delivery) :
    ∀ note ∈ (c.deliver d).2, note.isSynced = false := by
  intro note hnote
  rcases note_of_mem_deliver hnote with rfl | rfl
  · rfl
  · rfl

/-- A completion is no flush. -/
theorem isSynced_complete (c : Connection) (completion : Completion) :
    ∀ note ∈ (c.complete completion).2, note.isSynced = false := by
  intro note hnote
  rcases note_of_mem_complete hnote with rfl | ⟨d, rfl⟩
  · rfl
  · rfl

/-- A request that had to wait is no flush when it is answered. -/
theorem isSynced_resume (c : Connection) (held : List Delivery) (completion : Completion) :
    ∀ note ∈ (c.resume held completion).2, note.isSynced = false := by
  intro note hnote
  rcases note_of_mem_resume hnote with rfl | ⟨d, rfl | rfl⟩
  · rfl
  · rfl
  · rfl

namespace Buffered

variable {c c' : Connection} {notes more : List Note}

/-- A connection that is about to end has nothing in its buffer, unless it was dropped. -/
theorem of_closing (hclosing : Phase.closing? c.phase ≠ none)
    (hpending : Phase.Clear c.phase → c.outbound.pending = []) : Buffered c notes where
  resting := fun hrest => absurd hrest.closing?_eq hclosing
  clear := hpending
  busy := fun htask => absurd (Phase.task?_of_closing hclosing) htask

/-- A connection that fails has nothing in its buffer, since its error is being flushed. -/
theorem of_fail {reason : String} : Buffered (c.fail reason) notes :=
  of_closing (closing?_fail c reason) fun _ => (fail_facts c reason).2.2

/-- Where no request is worked on, and what is buffered is not known to be nothing. -/
theorem of_idle (htask : Phase.task? c.phase = none) (hclear : ¬ Phase.Clear c.phase)
    (hpending : c.outbound.pending = encodedOf (sinceSynced notes)) : Buffered c notes where
  resting := fun _ => hpending
  clear := fun hc => absurd hc hclear
  busy := fun hbusy => absurd htask hbusy

/-- Behind a flush nothing is buffered. -/
theorem of_afterFlush {next : AfterFlush} (hpending : c.outbound.pending = [])
    (hsynced : encodedOf (sinceSynced notes) = []) : Buffered (c.afterFlush next) notes where
  resting := fun _ => by rw [outbound_afterFlush, hpending, hsynced]
  clear := fun _ => by rw [outbound_afterFlush, hpending]
  busy := fun hbusy => absurd (rests_afterFlush c next).task?_eq hbusy

/-- A flush begins, or has nothing to do. -/
theorem of_flush {next : AfterFlush}
    (hpending : c.outbound.pending = encodedOf (sinceSynced notes)) :
    Buffered (c.flush next) notes := by
  have hflatten := c.outbound.flatten_chunks
  rw [flush]
  split
  · rename_i hchunks
    rw [hchunks, List.flatten_nil] at hflatten
    exact of_afterFlush rfl (hpending.symm.trans hflatten.symm)
  · exact ⟨fun hrest => absurd (.writing _ _ _) (hrest.not_flushes next), fun _ => rfl,
      fun hbusy => absurd rfl hbusy⟩

/-- A connection whose flush fails has nothing in its buffer but the error that is being flushed. -/
theorem of_flushFailed {reason : String} {next : AfterFlush} (hpending : c.outbound.pending = []) :
    Buffered (c.flushFailed reason next) notes := by
  cases next with
  | shutDown ending => exact of_closing nofun fun _ => hpending
  | _ => exact of_fail

/-- A connection that leaves has nothing in its buffer. -/
theorem of_leave {ending : Ending} (hpending : c.outbound.pending = []) :
    Buffered (c.leave ending).1 notes := by
  refine of_closing (closing?_leave c ending) fun _ => ?_
  rw [leave]
  cases c.handler with
  | none => exact hpending
  | some handler => exact hpending

/-- Notes about messages on their way leave the account as it is, where the connection is as far
as before. -/
theorem of_mailbox (h : Buffered c notes) (hmore : ∀ note ∈ more, note.AboutMailbox)
    (houtbound : c'.outbound = c.outbound) (hrest : Phase.AtRest c'.phase → Phase.AtRest c.phase)
    (hclear : Phase.Clear c'.phase → Phase.Clear c.phase)
    (htask : Phase.task? c'.phase ≠ none → Phase.task? c.phase ≠ none) :
    Buffered c' (notes ++ more) where
  resting := fun hrest' => by
    rw [sinceSynced_append fun note hnote => (hmore note hnote).isSynced_eq, encodedOf_append,
      encodedOf_of_units (unitsOf_aboutMailbox hmore), List.append_nil, houtbound,
      h.resting (hrest hrest')]
  clear := fun hclear' => houtbound ▸ h.clear (hclear hclear')
  busy := fun htask' => by
    obtain ⟨before, request, behind, rfl, hbehind⟩ := h.busy (htask htask')
    refine ⟨before, request, behind ++ more, ?_, List.forall_mem_append.mpr ⟨hbehind, hmore⟩⟩
    rw [List.append_assoc, List.cons_append]

/-- While a request is worked on, the buffer is left alone. -/
theorem of_busy (h : Buffered c notes) (hrest : Phase.AtRest c.phase)
    (htask : Phase.task? c.phase ≠ none) (hmore : ∀ note ∈ more, note.AboutMailbox)
    (houtbound : c'.outbound = c.outbound) (hclear : ¬ Phase.Clear c'.phase) :
    Buffered c' (notes ++ more) :=
  h.of_mailbox hmore houtbound (fun _ => hrest) (fun hclear' => absurd hclear' hclear)
    fun _ => htask

/-- What a step puts into the buffer is noted behind the last flush. -/
theorem pending_of_puts {stepped : Stepped} (h : Buffered c notes) (hrest : Phase.AtRest c.phase)
    (houtbound : c'.outbound = c.outbound) (hputs : Puts c' stepped)
    (hsynced : ∀ note ∈ stepped.2, note.isSynced = false) :
    stepped.1.outbound.pending = encodedOf (sinceSynced (notes ++ stepped.2)) := by
  rw [hputs.pending_eq, houtbound, h.resting hrest, sinceSynced_append hsynced, encodedOf_append]

/-- A step from rest to rest that notes no flush and puts nothing into the buffer. -/
theorem of_quiet (h : Buffered c notes) (hrest : Phase.AtRest c.phase)
    (houtbound : c'.outbound = c.outbound) (htask : Phase.task? c'.phase = none)
    (hclear : ¬ Phase.Clear c'.phase) : Buffered c' (notes ++ []) :=
  of_idle htask hclear (by rw [houtbound, List.append_nil, h.resting hrest])

/-- A flush of what is buffered at rest. -/
theorem of_flush_rest {next : AfterFlush} (h : Buffered c notes) (hrest : Phase.AtRest c.phase)
    (houtbound : c'.outbound = c.outbound) : Buffered (c'.flush next) (notes ++ []) :=
  of_flush (by rw [houtbound, List.append_nil, h.resting hrest])

/-- A new connection has put nothing into its buffer. -/
theorem new (settings : Settings) : Buffered (Connection.new settings) [] :=
  of_idle rfl id rfl

/-- A message that is put into the mailbox does not concern the buffer. -/
theorem post (h : Buffered c notes) (d : Delivery) :
    Buffered (c.post d).1 (notes ++ (c.post d).2) := by
  have hmore : ∀ note ∈ (c.post d).2, note.AboutMailbox := by
    intro note hnote
    rcases note_of_mem_post c hnote with rfl | rfl
    · trivial
    · trivial
  obtain ⟨mailbox, hposted⟩ := c.post_eq d
  have houtbound : (c.post d).1.outbound = c.outbound := by rw [hposted]
  have hphase : (c.post d).1.phase = c.phase := by rw [hposted]
  exact h.of_mailbox hmore houtbound (hphase ▸ id) (hphase ▸ id) (hphase ▸ id)

variable {client : Nat} {s : Store Subscriber} {m : Move} {p : Progress}

/-- Every step keeps the account of the buffer. -/
theorem step (h : Buffered c notes) (hstep : Steps client s c m p) :
    Buffered p.connection (notes ++ p.notes) := by
  have hnone : ∀ note ∈ ([] : List Note), note.AboutMailbox := List.forall_mem_nil _
  cases hstep with
  | finished hphase _ => exact h.of_flush_rest (hphase ▸ .turn) rfl
  | turn hphase _ _ => exact h.of_quiet (hphase ▸ .turn) rfl rfl id
  | turnFlush hphase _ _ => exact h.of_flush_rest (hphase ▸ .turn) rfl
  | @request request _ _ hphase _ _ =>
      refine ⟨fun _ => ?_, fun hc => hc.elim, fun _ => ⟨notes, request, [], rfl, hnone⟩⟩
      rw [sinceSynced_append (List.forall_mem_singleton.mpr rfl), encodedOf_append]
      exact (h.resting hphase.atRest).trans (List.append_nil _).symm
  | orphan _ _ _ => exact of_fail
  | endOfInput hphase _ => exact h.of_quiet hphase.atRest rfl rfl id
  | readError _ _ => exact of_fail
  | nothing hphase _ => exact h.of_flush_rest (hphase ▸ .look) rfl
  | more _ _ _ _ => exact h.of_mailbox hnone rfl id id id
  | @message d mailbox hphase _ =>
      have hputs := puts_deliver { c with mailbox, phase := .turn } d
      have hturn := hputs.phase_eq
      refine of_idle (hturn ▸ rfl) (hturn ▸ id) ?_
      exact h.pending_of_puts (hphase ▸ .select) (by rfl) hputs (isSynced_deliver _ d)
  | overBudget hphase _ => exact h.of_flush_rest (hphase ▸ .settle) rfl
  | settled hphase _ => exact h.of_quiet (hphase ▸ .settle) rfl rfl id
  | fatal _ => exact of_fail
  | @answered completion hphase =>
      refine of_idle rfl id ?_
      exact h.pending_of_puts (hphase ▸ .running _) rfl (puts_complete c completion)
        (isSynced_complete c completion)
  | fatalWaiting _ => exact of_fail
  | @answeredWaiting completion held hphase =>
      refine of_flush ?_
      exact h.pending_of_puts (hphase ▸ .waiting _ held) rfl (puts_resume c held completion)
        (isSynced_resume c held completion)
  | left hphase => exact of_closing nofun fun hc => hc.elim
  | dropped hphase => exact of_closing nofun fun hc => hc.elim
  | answer hphase => exact h.of_busy (hphase ▸ .running _) (hphase ▸ nofun) hnone rfl id
  | answerWaiting hphase => exact h.of_busy (hphase ▸ .waiting _ _) (hphase ▸ nofun) hnone rfl id
  | answerLeaving hphase => exact of_closing nofun fun _ => h.clear (hphase ▸ trivial)
  | answerAbandoned hphase => exact of_closing nofun fun hc => hc.elim
  | computed hphase => exact h.of_busy (hphase ▸ .running _) (hphase ▸ nofun) hnone rfl id
  | computedWaiting hphase => exact h.of_busy (hphase ▸ .waiting _ _) (hphase ▸ nofun) hnone rfl id
  | suspend hphase _ => exact h.of_busy (hphase ▸ .running _) (hphase ▸ nofun) hnone rfl id
  | hold hphase _ _ =>
      exact h.of_busy (hphase ▸ .waiting _ _) (hphase ▸ nofun)
        (List.forall_mem_singleton.mpr trivial) rfl id
  | @accept n chunk behind next hphase _ =>
      have hflushes := Stream.flushes_rest (chunk.drop n) behind next
      exact ⟨fun hrest => absurd hflushes (hrest.not_flushes next),
        fun _ => h.clear (hphase ▸ trivial), fun hbusy => absurd (task?_of_flushes hflushes) hbusy⟩
  | acceptNothing hphase => exact of_flushFailed (h.clear (hphase ▸ trivial))
  | sync hphase =>
      have hsynced : encodedOf (sinceSynced (notes ++ [.synced])) = [] := by
        rw [sinceSynced_synced]
        rfl
      exact of_afterFlush (h.clear (hphase ▸ trivial)) hsynced
  | refuseWriting hphase => exact of_flushFailed (h.clear (hphase ▸ trivial))
  | refuseSyncing hphase => exact of_flushFailed (h.clear (hphase ▸ trivial))
  | refuseShutDown hphase => exact of_leave (h.clear (hphase ▸ trivial))
  | shutDown hphase => exact of_leave (h.clear (hphase ▸ trivial))
  | arrive a => exact h.of_mailbox hnone rfl id id id
  | abandon _ => exact of_closing nofun fun hc => hc.elim

end Buffered

end Connection

/-! ### Runs -/

namespace Server

/-- **What waits while a connection waits.** New connections over one store, and any run of them,
whatever their calls are answered and whatever their writers do. Of each connection this holds:

* While it waits for its client, its buffer is empty, and everything that was put into it has been
  written.
* While it takes its last listeners off, its buffer is empty.
* While a request waits for the store, what has been written and what is buffered are the replies
  and messages from before that request, and what is buffered are those that have come since the
  last flush. So the client has them all if and only if there was none since then. -/
theorem pending_while_waiting {y y' : Server} {moves : List (Nat × Move)} {log : Log} {j : Nat}
    {c : Connection} (hnew : ∀ c ∈ y.connections, ∃ settings, c = Connection.new settings)
    (hrun : y.run moves = some (y', log)) (hc : y'.connections[j]? = some c) :
    (c.phase = .select →
      c.outbound.pending = [] ∧ writtenOf (notesOf j log) = encodedOf (notesOf j log)) ∧
    (∀ task ending, c.phase = .leaving task ending → c.outbound.pending = []) ∧
    ∀ task held, c.phase = .waiting task held → ∃ before request behind,
      notesOf j log = before ++ .took request :: behind ∧ (∀ note ∈ behind, note.AboutMailbox) ∧
      writtenOf (notesOf j log) ++ c.outbound.pending = encodedOf before ∧
      c.outbound.pending = encodedOf (sinceSynced before) ∧
      (writtenOf (notesOf j log) = encodedOf before ↔ encodedOf (sinceSynced before) = []) := by
  have hbuffered : c.Buffered (notesOf j log) :=
    run_invariant_new (fun h hstep => h.step (Connection.steps_of_step hstep))
      (fun _ _ d h => h.post d) hnew .new hrun j c hc
  have hstream := stream_of_run hnew hrun hc
  refine ⟨fun hphase => ?_, fun task ending hphase => ?_, fun task held hphase => ?_⟩
  · have hpending := hbuffered.clear (hphase ▸ trivial)
    refine ⟨hpending, ?_⟩
    rw [← hstream.pending_of_atRest (hphase ▸ .select), hpending, List.append_nil]
  · exact hbuffered.clear (hphase ▸ trivial)
  · obtain ⟨before, request, behind, hnotes, hbehind⟩ := hbuffered.busy (hphase ▸ nofun)
    -- Nothing that was noted from the request on is a flush, or was put into the buffer, so that
    -- both accounts are those of what came before.
    have hunits : unitsOf (.took request :: behind) = [] :=
      List.flatMap_cons.trans (unitsOf_aboutMailbox hbehind)
    have hsynced : ∀ note ∈ Note.took request :: behind, note.isSynced = false :=
      List.forall_mem_cons.mpr ⟨rfl, fun note hnote => (hbehind note hnote).isSynced_eq⟩
    have hwritten : writtenOf (notesOf j log) ++ c.outbound.pending = encodedOf before := by
      rw [hstream.pending_of_atRest (hphase ▸ .waiting task held), hnotes, encodedOf_append,
        encodedOf_of_units hunits, List.append_nil]
    have hpending : c.outbound.pending = encodedOf (sinceSynced before) := by
      rw [hbuffered.resting (hphase ▸ .waiting task held), hnotes, sinceSynced_append hsynced,
        encodedOf_append, encodedOf_of_units hunits, List.append_nil]
    refine ⟨before, request, behind, hnotes, hbehind, hwritten, hpending, ?_⟩
    rw [← hwritten, ← hpending]
    exact List.self_eq_append_right

/-- A client asks twice at once, for nothing and then for a key. The store is slow. -/
def asking : List (Nat × Move) :=
  [(0, .arrive (.chunk (Bytes.ofString "*1\r\n$4\r\nPING\r\n*2\r\n$3\r\nGET\r\n$1\r\nk\r\n"))),
    (0, .proceed), (0, .proceed), (0, .proceed), (0, .proceed), (0, .proceed), (0, .proceed),
    (0, .suspend)]

/-- The reply to the first request is buffered, and not written, while the second one waits for the
store. -/
theorem pending_while_waiting_asking :
    ∃ y log c task held, twoClients.run asking = some (y, log) ∧ y.connections[0]? = some c ∧
      c.phase = .waiting task held ∧ ∃ before request behind,
        notesOf 0 log = before ++ .took request :: behind ∧
        encodedOf before = Reply.encode (.bulk (Bytes.ofString "PONG")) ∧
        writtenOf (notesOf 0 log) ≠ encodedOf before := by
  have hfacts : (twoClients.run asking).map (fun result => result.1.connections[0]?.map fun c =>
      (Connection.Phase.waits c.phase, writtenOf (notesOf 0 result.2), c.outbound.pending)) =
        some (some (true, [], Reply.encode (.bulk (Bytes.ofString "PONG")))) := by
    decide +kernel
  obtain ⟨⟨y, log⟩, hrun, hfacts⟩ := Option.map_eq_some_iff.mp hfacts
  obtain ⟨c, hc, hfacts⟩ := Option.map_eq_some_iff.mp hfacts
  obtain ⟨hwaits, hfacts⟩ := Prod.mk.inj hfacts
  obtain ⟨hwritten, hpending⟩ := Prod.mk.inj hfacts
  obtain ⟨task, held, hphase⟩ := Connection.Phase.exists_of_waits hwaits
  obtain ⟨before, request, behind, hnotes, -, hencoded, -, -⟩ :=
    (pending_while_waiting new_of_mem_twoClients hrun hc).2.2 task held hphase
  rw [hwritten, hpending, List.nil_append] at hencoded
  refine ⟨y, log, c, task, held, hrun, hc, hphase, before, request, behind, hnotes,
    hencoded.symm, ?_⟩
  rw [hwritten, ← hencoded]
  exact (List.cons_ne_nil _ _).symm

end Server

end RespStore
