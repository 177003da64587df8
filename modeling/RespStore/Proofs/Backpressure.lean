import RespStore.Proofs.Flushing
import RespStore.Proofs.Precedence

/-!
# How much is buffered when a request is taken

A client that asks faster than it reads is slowed down. Behind each request what is buffered is
compared with the write budget, and is written out before the next request if it is more than that.
What comes in between is compared with nothing: the messages that were held while a request waited,
and the message that is taken where the connection waits for its client. But the former are written
out with the reply, and the latter finds the buffer empty, and only one is taken before the
connection looks for a request again.

* `Connection.Light` says that what is buffered is within the budget, or is one message.
* `Connection.Paced` is the invariant: what is buffered is light wherever the connection is about to
  look for a request.
* `Server.light_of_took` is the main result, about every run of any number of connections.
-/

namespace RespStore

/-- A message is all that is put into the buffer, if only the mailbox is heard of behind it. -/
theorem encodedOf_delivered {d : Delivery} {behind : List Note}
    (hbehind : ∀ note ∈ behind, note.AboutMailbox) :
    encodedOf (.delivered d :: behind) = (Reply.message d.channel d.payload).encode := by
  have hunits : unitsOf (.delivered d :: behind) = [.message d.channel d.payload] :=
    congrArg (Reply.message d.channel d.payload :: ·) (unitsOf_aboutMailbox hbehind)
  rw [encodedOf, hunits, List.flatMap_singleton]

namespace Connection

/-! ### The settings stay as they are -/

section Settings

variable (c : Connection)

/-- To begin a flush does not change the settings. -/
theorem settings_flush (next : AfterFlush) : (c.flush next).settings = c.settings := by
  obtain ⟨outbound, autoRead, phase, heq⟩ := c.flush_eq next
  rw [heq]

/-- What follows a flush does not change the settings. -/
theorem settings_afterFlush (next : AfterFlush) : (c.afterFlush next).settings = c.settings := by
  obtain ⟨autoRead, phase, heq⟩ := c.afterFlush_eq next
  rw [heq]

/-- A connection that fails keeps its settings. -/
theorem settings_fail (reason : String) : (c.fail reason).settings = c.settings :=
  settings_flush _ _

/-- A connection whose flush fails keeps its settings. -/
theorem settings_flushFailed (reason : String) (next : AfterFlush) :
    (c.flushFailed reason next).settings = c.settings := by
  cases next with
  | shutDown ending => rfl
  | _ => exact c.settings_fail reason

/-- A connection that leaves keeps its settings. -/
theorem settings_leave (ending : Ending) : (c.leave ending).1.settings = c.settings := by
  rw [leave]
  cases c.handler with
  | none => rfl
  | some handler => rfl

/-- A message that is delivered or given up does not change the settings. -/
theorem settings_deliver (d : Delivery) : (c.deliver d).1.settings = c.settings := by
  rw [deliver]
  split
  · rfl
  · rfl

/-- Messages that are delivered or given up do not change the settings. -/
theorem settings_deliverEach (ds : List Delivery) :
    (c.deliverEach ds).1.settings = c.settings := by
  induction ds generalizing c with
  | nil => rfl
  | cons d ds ih => exact (ih (c.deliver d).1).trans (c.settings_deliver d)

/-- A request that had to wait does not change the settings when it is answered. -/
theorem settings_resume (held : List Delivery) (completion : Completion) :
    (c.resume held completion).1.settings = c.settings := by
  obtain ⟨state, hwake⟩ := ((c.complete completion).1.deliverEach held).1.wake_eq
  rw [resume]
  simp only [hwake]
  exact settings_deliverEach _ held

/-- No step changes the settings. -/
theorem Steps.settings_eq {c : Connection} {client : Nat} {s : Store Subscriber} {m : Move}
    {p : Progress} (hstep : Steps client s c m p) : p.connection.settings = c.settings := by
  cases hstep with
  | finished _ _ => exact settings_flush _ _
  | turnFlush _ _ _ => exact c.settings_flush _
  | orphan _ _ _ => exact settings_fail _ _
  | readError _ _ => exact settings_fail _ _
  | nothing _ _ => exact settings_flush _ _
  | message _ _ => exact settings_deliver _ _
  | overBudget _ _ => exact settings_flush _ _
  | fatal _ => exact c.settings_fail _
  | fatalWaiting _ => exact c.settings_fail _
  | answeredWaiting _ => exact (settings_flush _ _).trans (c.settings_resume _ _)
  | acceptNothing _ => exact c.settings_flushFailed _ _
  | sync _ => exact c.settings_afterFlush _
  | refuseWriting _ => exact c.settings_flushFailed _ _
  | refuseSyncing _ => exact c.settings_flushFailed _ _
  | refuseShutDown _ => exact c.settings_leave _
  | shutDown _ => exact c.settings_leave _
  | _ => rfl

end Settings

/-! ### What is buffered is light -/

/-- Whether a connection is on its way to a request with what is in its buffer. -/
def Phase.Seeks : Phase → Prop
  | .turn => True
  | .look => True
  | _ => False

/-- A connection on its way to a request is not about to end. -/
theorem Phase.Seeks.closing?_eq {phase : Phase} (h : Seeks phase) : closing? phase = none := by
  cases phase with
  | turn => rfl
  | look => rfl
  | _ => exact h.elim

/-- Whether one message is buffered, behind which only the mailbox has been heard of. -/
def HoldsMessage (c : Connection) (notes : List Note) : Prop :=
  ∃ before d behind, notes = before ++ .delivered d :: behind ∧
    (∀ note ∈ behind, note.AboutMailbox) ∧
    c.outbound.pending = (Reply.message d.channel d.payload).encode

/-- Whether what is buffered is within a budget, or is one message. -/
def Light (budget : Nat) (c : Connection) (notes : List Note) : Prop :=
  c.outbound.readable ≤ budget ∨ c.HoldsMessage notes

section Light

variable {budget : Nat} {c c' : Connection} {notes more : List Note}

/-- A buffer with nothing in it is light. -/
theorem light_of_pending (h : c.outbound.pending = []) : c.Light budget notes := by
  refine .inl ?_
  rw [← Outbound.length_pending, h]
  exact Nat.zero_le budget

/-- A buffer that is flushed is light, since nothing is left in it. -/
theorem light_of_flush {next : AfterFlush} : (c.flush next).Light budget notes :=
  light_of_pending (flush_facts c next).2.2

/-- A message that is put into an empty buffer is alone in there. -/
theorem light_of_deliver (h : c.outbound.pending = []) (d : Delivery) :
    (c.deliver d).1.Light budget (notes ++ (c.deliver d).2) := by
  rw [deliver]
  split
  · refine .inr ⟨notes, d, [], rfl, List.forall_mem_nil _, ?_⟩
    rw [Outbound.pending_push, h, List.nil_append]
  · exact light_of_pending h

/-- What comes into the mailbox is not in the buffer. -/
theorem Light.of_mailbox (h : c.Light budget notes) (houtbound : c'.outbound = c.outbound)
    (hmore : ∀ note ∈ more, note.AboutMailbox) : c'.Light budget (notes ++ more) := by
  rcases h with hwithin | ⟨before, d, behind, rfl, hbehind, hpending⟩
  · exact .inl (houtbound ▸ hwithin)
  · refine .inr ⟨before, d, behind ++ more, ?_, List.forall_mem_append.mpr ⟨hbehind, hmore⟩,
      houtbound ▸ hpending⟩
    rw [List.append_assoc, List.cons_append]

end Light

/-! ### The invariant -/

/-- What is buffered is light wherever the connection is about to look for a request. -/
structure Paced (budget : Nat) (c : Connection) (notes : List Note) : Prop extends
    Buffered c notes where
  /-- The budget is the configured one. -/
  budget_eq : c.settings.writeBudget = budget
  /-- What is buffered. -/
  light : Phase.Seeks c.phase → c.Light budget notes

namespace Paced

variable {budget : Nat} {c : Connection} {notes : List Note}

/-- A new connection has nothing in its buffer. -/
theorem new (settings : Settings) : Paced settings.writeBudget (Connection.new settings) [] where
  toBuffered := .new settings
  budget_eq := rfl
  light _ := light_of_pending rfl

/-- A message that is posted waits in the mailbox, and leaves the buffer as light as it is. -/
theorem post (h : Paced budget c notes) (d : Delivery) :
    Paced budget (c.post d).1 (notes ++ (c.post d).2) := by
  refine ⟨h.toBuffered.post d, ?_, fun hseeks => ?_⟩
  · obtain ⟨mailbox, hposted⟩ := c.post_eq d
    rw [hposted]
    exact h.budget_eq
  · have hmore : ∀ note ∈ (c.post d).2, note.AboutMailbox := by
      intro note hnote
      rcases note_of_mem_post c hnote with rfl | rfl
      · trivial
      · trivial
    obtain ⟨mailbox, hposted⟩ := c.post_eq d
    rw [hposted] at hseeks
    exact (h.light hseeks).of_mailbox (by rw [hposted]) hmore

/-- What is buffered is light where a request may be taken. -/
theorem light_of_polls (h : Paced budget c notes) (hphase : c.Polls) : c.Light budget notes := by
  rcases hphase with hlook | ⟨hselect, -⟩
  · exact h.light (hlook ▸ trivial)
  · exact light_of_pending (h.clear (hselect ▸ trivial))

variable {client : Nat} {s : Store Subscriber} {m : Move} {p : Progress}

/-- A step that leads to where a request is looked for leaves something light. It comes from a
flush, from a check of the budget, or from an empty buffer, or puts nothing into the buffer. -/
theorem light_step (h : Paced budget c notes) (hstep : Steps client s c m p)
    (hseeks : Phase.Seeks p.connection.phase) :
    p.connection.Light budget (notes ++ p.notes) := by
  have hnone : ∀ note ∈ ([] : List Note), note.AboutMailbox := List.forall_mem_nil _
  cases hstep with
  | finished _ _ => exact light_of_flush
  | turn hphase _ _ => exact (h.light (hphase ▸ trivial)).of_mailbox rfl hnone
  | turnFlush _ _ _ => exact light_of_flush
  | orphan _ _ _ => exact absurd hseeks.closing?_eq (closing?_fail _ _)
  | endOfInput hphase _ => exact (h.light_of_polls hphase).of_mailbox rfl hnone
  | readError _ _ => exact absurd hseeks.closing?_eq (closing?_fail _ _)
  | nothing _ _ => exact light_of_flush
  | more hphase _ _ _ => exact light_of_pending (h.clear (hphase ▸ trivial))
  | @message d mailbox hphase _ =>
      exact light_of_deliver (c := { c with mailbox, phase := .turn })
        (h.clear (hphase ▸ trivial)) d
  | overBudget _ _ => exact light_of_flush
  | settled _ hbudget => exact .inl (h.budget_eq ▸ Nat.le_of_not_lt hbudget)
  | fatal _ => exact absurd hseeks.closing?_eq (closing?_fail _ _)
  | fatalWaiting _ => exact absurd hseeks.closing?_eq (closing?_fail _ _)
  | answeredWaiting _ => exact light_of_flush
  | accept hphase _ => exact light_of_pending (h.clear (hphase ▸ trivial))
  | acceptNothing _ => exact absurd hseeks.closing?_eq (closing?_flushFailed c _ _)
  | @sync next hphase =>
      exact light_of_pending ((congrArg _ (outbound_afterFlush c next)).trans
        (h.clear (hphase ▸ trivial)))
  | refuseWriting _ => exact absurd hseeks.closing?_eq (closing?_flushFailed c _ _)
  | refuseSyncing _ => exact absurd hseeks.closing?_eq (closing?_flushFailed c _ _)
  | refuseShutDown _ => exact absurd hseeks.closing?_eq (closing?_leave c _)
  | shutDown _ => exact absurd hseeks.closing?_eq (closing?_leave c _)
  | arrive a => exact (h.light hseeks).of_mailbox rfl hnone
  | _ => exact hseeks.elim

/-- Every step keeps what is buffered light. -/
theorem step (h : Paced budget c notes) (hstep : Steps client s c m p) :
    Paced budget p.connection (notes ++ p.notes) where
  toBuffered := h.toBuffered.step hstep
  budget_eq := hstep.settings_eq.symm ▸ h.budget_eq
  light := h.light_step hstep

end Paced

end Connection

/-! ### Runs -/

namespace Server

/-- **What is buffered when a request is taken.** A new connection among any others over one store,
and any run of them, whatever arrives and in which order, whatever calls are answered, and whatever
the writers do. When the connection takes a request, its buffer holds no more bytes than its write
budget, or it holds one message and nothing else. That message was put into it last, and everything
before it has been written, so it is what has been put there since the last flush. -/
theorem light_of_took {y y' y'' : Server} {moves : List (Nat × Move)} {log more : Log} {i j : Nat}
    {m : Move} {settings : Settings} {c : Connection} {request : Request}
    (hsettings : y.connections[j]? = some (Connection.new settings))
    (hrun : y.run moves = some (y', log)) (hc : y'.connections[j]? = some c)
    (hstep : y'.step i m = some (y'', more)) (htook : .took request ∈ notesOf j more) :
    c.outbound.readable ≤ settings.writeBudget ∨
      ∃ before d behind, notesOf j log = before ++ .delivered d :: behind ∧
        (∀ note ∈ behind, note.AboutMailbox) ∧
        c.outbound.pending = (Reply.message d.channel d.payload).encode ∧
        c.outbound.pending = encodedOf (sinceSynced (notesOf j log)) ∧
        writtenOf (notesOf j log) = encodedOf before := by
  have hpaced : c.Paced settings.writeBudget (notesOf j log) :=
    run_invariant_of (fun h hstep => h.step (Connection.steps_of_step hstep))
      (fun _ _ d h => h.post d) hsettings (.new settings) hrun hc
  have hstream : c.Stream False (notesOf j log) :=
    run_invariant_of (fun h hstep => (h.step (Connection.steps_of_step hstep)).mono False.elim)
      (fun _ _ d h => h.post d) hsettings (.new settings) hrun hc
  obtain ⟨c'', hc''⟩ := exists_connection (length_step hstep) hc
  obtain ⟨hpolls, -⟩ := of_took hstep hc hc'' htook
  refine (hpaced.light_of_polls hpolls).imp_right ?_
  rintro ⟨before, d, behind, hnotes, hbehind, hpending⟩
  refine ⟨before, d, behind, hnotes, hbehind, hpending, hpaced.resting hpolls.atRest, ?_⟩
  have hwritten := hstream.pending_of_atRest hpolls.atRest
  have hencoded : encodedOf (notesOf j log) = encodedOf before ++ c.outbound.pending := by
    rw [hnotes, encodedOf_append, encodedOf_delivered hbehind, hpending]
  rw [hencoded] at hwritten
  exact List.append_cancel_right hwritten

/-- Two clients of an empty store. The first one has no write budget at all. -/
def tight : Server := { connections := [Connection.new { writeBudget := 0 }, Connection.new {}] }

/-- The first client subscribes, and is written to until it is waited for. The second client
publishes on its channel, and the first one asks for a sign of life. The message is taken. -/
def pressing : List (Nat × Move) :=
  [(0, .arrive (.chunk (Bytes.ofString "*2\r\n$9\r\nSUBSCRIBE\r\n$1\r\na\r\n"))),
    (0, .proceed), (0, .proceed), (0, .answer fun _ => none), (0, .proceed), (0, .proceed),
    (0, .accept 512), (0, .sync), (0, .proceed), (0, .proceed),
    (1, .arrive (.chunk (Bytes.ofString "*3\r\n$7\r\nPUBLISH\r\n$1\r\na\r\n$1\r\nx\r\n"))),
    (1, .proceed), (1, .proceed), (1, .answer fun _ => none),
    (0, .arrive (.chunk (Bytes.ofString "*1\r\n$4\r\nPING\r\n"))), (0, .proceed), (0, .proceed)]

/-- With no budget at all, the message that the first client is sent is in its buffer when its
request is taken. -/
theorem light_of_took_pressing :
    ∃ y log c y' more request, tight.run pressing = some (y, log) ∧ y.connections[0]? = some c ∧
      y.step 0 .proceed = some (y', more) ∧ notesOf 0 more = [.took request] ∧
      0 < c.outbound.readable ∧ ∃ before d behind,
        notesOf 0 log = before ++ .delivered d :: behind ∧
        c.outbound.pending = (Reply.message d.channel d.payload).encode ∧
        c.outbound.pending = encodedOf (sinceSynced (notesOf 0 log)) := by
  have hfacts : (tight.run pressing).map (fun result =>
      (result.1.connections[0]?.map fun c => c.outbound.readable,
        (result.1.step 0 .proceed).map fun stepped =>
          (notesOf 0 stepped.2).map fun note => note.request?.isSome)) =
        some (some 31, some [true]) := by
    decide +kernel
  obtain ⟨⟨y, log⟩, hrun, hfacts⟩ := Option.map_eq_some_iff.mp hfacts
  obtain ⟨hconnection, hstepped⟩ := Prod.mk.inj hfacts
  obtain ⟨c, hc, hreadable⟩ := Option.map_eq_some_iff.mp hconnection
  obtain ⟨⟨y', more⟩, hstep, hnotes⟩ := Option.map_eq_some_iff.mp hstepped
  obtain ⟨took, htook, hrequest⟩ := List.map_eq_singleton_iff.mp hnotes
  obtain ⟨request, hrequest⟩ := Option.isSome_iff_exists.mp hrequest
  obtain rfl := Note.eq_took hrequest
  have hpositive : 0 < c.outbound.readable := hreadable ▸ Nat.zero_lt_succ _
  have hmem : .took request ∈ notesOf 0 more := htook ▸ List.mem_singleton_self _
  obtain ⟨before, d, behind, hsplit, -, hpending, hsynced, -⟩ :=
    (light_of_took rfl hrun hc hstep hmem).resolve_left (Nat.not_le_of_lt hpositive)
  exact ⟨y, log, c, y', more, request, hrun, hc, hstep, htook, hpositive, before, d, behind,
    hsplit, hpending, hsynced⟩

end Server

end RespStore
