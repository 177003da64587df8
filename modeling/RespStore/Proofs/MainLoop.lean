import RespStore.Proofs.Connection.Ahead
import RespStore.Proofs.Dealings

/-!
# Turns of the main loop

A connection changes what it is doing, whether it reads and who its handler is in many places: when
a request has to wait and when it is answered, when too much is buffered, when a flush is over and
when it fails. This module says that it all fits together again by the next turn of the main loop.

* `Connection.Poised` is the invariant of a connection: what it may be doing, and whether it reads,
  is told by where it stands. `Poised.step` is its preservation.
* `Connection.Alternates` relates the requests that were taken to the replies, and `Connection.Over`
  says that no request is taken any more.
* `Server.turns_are_ready` is the main result, about every run of any number of connections.
-/

namespace RespStore

namespace Connection

/-! ### Between two turns -/

/-- What a connection may be doing, and whether it reads, when this comes behind a flush. A flush
that goes on to reading makes up for a pause, so only one that does not needs to know of none. -/
def PoisedFor (state : State) (autoRead : Bool) : AfterFlush → Prop
  | .look => state = .idle
  | .select => state = .idle ∧ autoRead = true
  | .settle => state ≠ .awaiting
  | .turn => state ≠ .awaiting
  | .shutDown _ => True

/-- What a connection may be doing, and whether it reads, where it stands. -/
def PoisedAt (state : State) (autoRead : Bool) : Phase → Prop
  | .turn => state ≠ .awaiting ∧ autoRead = true
  | .look => state = .idle ∧ autoRead = true
  | .select => state = .idle ∧ autoRead = true
  | .settle => state ≠ .awaiting ∧ autoRead = true
  | .running _ => state = .idle ∧ autoRead = true
  | .waiting _ _ => state = .awaiting
  | .writing _ _ next => PoisedFor state autoRead next
  | .syncing next => PoisedFor state autoRead next
  | _ => True

/-- Whether a connection does and reads what it may where it stands. -/
def Poised (c : Connection) : Prop := PoisedAt c.state c.autoRead c.phase

/-- Whether a turn of the main loop begins. -/
def Phase.isTurn : Phase → Bool
  | .turn => true
  | _ => false

/-- A phase in which a turn begins is the start of a turn. -/
theorem Phase.eq_turn {phase : Phase} (h : isTurn phase = true) : phase = .turn := by
  cases phase with
  | turn => rfl
  | _ => exact absurd h Bool.false_ne_true

/-- During a flush, what a connection may be doing is told by what comes behind the flush. -/
theorem poisedAt_of_flushes {state : State} {autoRead : Bool} {phase : Phase} {next : AfterFlush}
    (h : Phase.Flushes phase next) :
    PoisedAt state autoRead phase ↔ PoisedFor state autoRead next := by
  cases h with
  | writing => exact Iff.rfl
  | syncing => exact Iff.rfl

/-- A connection that neither waits nor is closed is idle. -/
theorem State.eq_idle {state : State} (hawaiting : state ≠ .awaiting) (hclosed : state ≠ .closed) :
    state = .idle := by
  cases state with
  | idle => rfl
  | awaiting => exact absurd rfl hawaiting
  | closed => exact absurd rfl hclosed

section Lemmas

variable (c : Connection)

/-- A message that is delivered or given up changes neither what a connection is doing nor whether
it reads. -/
theorem state_deliver (d : Delivery) :
    (c.deliver d).1.state = c.state ∧ (c.deliver d).1.autoRead = c.autoRead := by
  rw [deliver]
  split
  · exact ⟨rfl, rfl⟩
  · exact ⟨rfl, rfl⟩

/-- Messages that are delivered or given up do not change what a connection is doing. -/
theorem state_deliverEach (ds : List Delivery) : (c.deliverEach ds).1.state = c.state := by
  induction ds generalizing c with
  | nil => rfl
  | cons d ds ih => exact (ih _).trans (state_deliver c d).1

/-- A connection that has stopped waiting does not wait. -/
theorem wake_not_awaiting : c.wake.state ≠ .awaiting := by
  rw [wake]
  split
  · simp
  · assumption

/-- Nothing is buffered, so reading goes on. -/
theorem autoRead_writable (hpending : c.outbound.pending = []) : c.writable.autoRead = true := by
  have hempty : c.outbound.isEmpty = true := by
    rw [Outbound.isEmpty, ← Outbound.length_pending, hpending]
    rfl
  rw [writable, hempty, Bool.and_true]
  cases hread : c.autoRead with
  | true => exact hread
  | false => rfl

/-- A connection that closes is about to end. -/
theorem closing?_close (ending : Ending) : Phase.closing? (c.close ending).phase ≠ none :=
  fun hopen => nomatch (flush_facts _ _).2.1.symm.trans hopen

/-- To go on reading changes nothing about what a connection is doing. -/
theorem state_writable : c.writable.state = c.state := by
  obtain ⟨autoRead, heq⟩ := c.writable_eq
  rw [heq]

end Lemmas

namespace Poised

variable {c : Connection}

/-- A connection that is about to end may be doing anything. -/
theorem of_closing (h : Phase.closing? c.phase ≠ none) : c.Poised := by
  rw [Poised]
  cases hphase : c.phase with
  | writing chunk more next | syncing next =>
      rw [hphase] at h
      cases next with
      | shutDown ending => exact trivial
      | _ => exact absurd rfl h
  | shuttingDown _ | leaving _ _ | abandoned _ | ended _ => exact trivial
  | _ => exact absurd (hphase ▸ rfl) h

/-- Behind a flush. -/
theorem afterFlush {next : AfterFlush} (hpending : c.outbound.pending = [])
    (h : PoisedFor c.state c.autoRead next) : (c.afterFlush next).Poised := by
  cases next with
  | look => exact ⟨(state_writable c).trans h, autoRead_writable c hpending⟩
  | select => exact h
  | settle => exact ⟨h, rfl⟩
  | turn => exact ⟨fun hawaiting => h ((state_writable c).symm.trans hawaiting),
      autoRead_writable c hpending⟩
  | shutDown ending => exact trivial

/-- A flush begins, or has nothing to do. -/
theorem flush {next : AfterFlush} (h : PoisedFor c.state c.autoRead next) :
    (c.flush next).Poised := by
  rw [Connection.flush]
  split
  · exact afterFlush rfl h
  · exact h

/-- A new connection stands at the start of a turn, and reads. -/
theorem new (settings : Settings) : (Connection.new settings).Poised := ⟨nofun, rfl⟩

/-- A message that is posted changes neither where a connection stands nor what it is doing
there. -/
theorem post (h : c.Poised) (d : Delivery) : (c.post d).1.Poised := by
  obtain ⟨mailbox, heq⟩ := post_eq c d
  exact heq ▸ h

/-- A connection that looks for a request does nothing else, and reads. -/
theorem of_polls (h : c.Poised) (hpolls : c.Polls) : c.state = .idle ∧ c.autoRead = true := by
  rw [Poised] at h
  rcases hpolls with hphase | ⟨hphase, -⟩
  · rwa [hphase] at h
  · rwa [hphase] at h

variable {client : Nat} {s : Store Subscriber} {m : Move} {p : Progress}

/-- Every step leads a connection to where it may be doing what it does, by one case for each entry
of the list of steps. -/
theorem step (h : c.Poised)
    (htidy : ∀ next, Phase.Flushes c.phase next → c.outbound.pending = [])
    (hstep : Steps client s c m p) : p.connection.Poised := by
  have hat : ∀ phase, c.phase = phase → PoisedAt c.state c.autoRead phase := fun _ heq => heq ▸ h
  cases hstep with
  | finished _ _ => exact of_closing (closing?_close c _)
  | turn hphase hstate hread => exact ⟨State.eq_idle (hat _ hphase).1 hstate, hread⟩
  | turnFlush hphase hstate _ => exact flush (State.eq_idle (hat _ hphase).1 hstate)
  | request hphase _ _ => exact h.of_polls hphase
  | orphan _ _ _ | readError _ _ | fatal _ | fatalWaiting _ => exact of_closing (closing?_fail _ _)
  | endOfInput hphase _ => exact ⟨nofun, (h.of_polls hphase).2⟩
  | nothing hphase _ => exact flush (hat _ hphase)
  | more hphase _ _ _ => exact h
  | @message d mailbox hphase _ =>
      obtain ⟨hidle, hread⟩ := hat _ hphase
      obtain ⟨hstate, hauto⟩ := state_deliver { c with mailbox, phase := .turn } d
      have hturn := (puts_deliver { c with mailbox, phase := .turn } d).phase_eq
      rw [Poised, hturn, hstate, hauto]
      exact ⟨hidle ▸ nofun, hread⟩
  | overBudget hphase _ => exact flush (hat _ hphase).1
  | settled hphase _ =>
      obtain ⟨hstate, hread⟩ := hat _ hphase
      exact ⟨hstate, hread⟩
  | @answered completion hphase =>
      obtain ⟨hidle, hread⟩ := hat _ hphase
      refine ⟨?_, hread⟩
      -- A completion that closes the connection does not make it wait either.
      change (if completion.close then State.closed else c.state) ≠ .awaiting
      split
      · exact nofun
      · exact hidle ▸ nofun
  | answeredWaiting _ => exact flush (wake_not_awaiting _)
  | answer hphase | computed hphase =>
      obtain ⟨hidle, hread⟩ := hat _ hphase
      exact ⟨hidle, hread⟩
  | answerWaiting hphase | computedWaiting hphase | hold hphase _ _ =>
      have hawaiting := hat _ hphase
      exact hawaiting
  | suspend _ _ => exact rfl
  | left _ | dropped _ | answerLeaving _ | answerAbandoned _ | abandon _ => exact trivial
  | @accept n chunk behind next hphase _ =>
      exact (poisedAt_of_flushes (Stream.flushes_rest (chunk.drop n) behind next)).mpr
        (hat _ hphase)
  | acceptNothing _ | refuseWriting _ | refuseSyncing _ =>
      exact of_closing (closing?_flushFailed c _ _)
  | @sync next hphase =>
      have hflushes : Phase.Flushes c.phase next := hphase ▸ .syncing next
      exact afterFlush (htidy next hflushes) (hat _ hphase)
  | refuseShutDown _ | shutDown _ => exact of_closing (closing?_leave c _)
  | arrive a => exact h

end Poised

/-! ### One request at a time -/

/-- How many requests are worked on. -/
def Phase.underWay (phase : Phase) : Nat := if (Phase.task? phase).isSome then 1 else 0

/-- A connection that works on no request has none under way. -/
theorem Phase.underWay_of_task {phase : Phase} (h : task? phase = none) : underWay phase = 0 := by
  rw [underWay, h]
  rfl

/-- Whether requests and replies alternate. -/
structure Alternates (c : Connection) (notes : List Note) : Prop where
  /-- Every request has its reply, but the one that is worked on. -/
  length_eq : Phase.closing? c.phase = none →
    (requestsOf notes).length = (repliesOf notes).length + Phase.underWay c.phase
  /-- No reply comes before its request. -/
  replies_le : (repliesOf notes).length ≤ (requestsOf notes).length
  /-- At most one request has no reply. -/
  requests_le : (requestsOf notes).length ≤ (repliesOf notes).length + 1
  /-- A request is taken when all requests before it have their replies. -/
  taken : ∀ front request behind, notes = front ++ .took request :: behind →
    (requestsOf front).length = (repliesOf front).length

namespace Alternates

variable {c c' : Connection} {notes more : List Note}

/-- What follows without a request leaves each request that was taken behind the replies to all
others. -/
theorem taken_append (h : Alternates c notes) (hmore : requestsOf more = []) :
    ∀ front request behind, notes ++ more = front ++ .took request :: behind →
      (requestsOf front).length = (repliesOf front).length := by
  intro front request behind hsplit
  rcases split_append hsplit with ⟨rest, hnotes⟩ | ⟨mid, -, rfl⟩
  · exact h.taken front request rest hnotes
  · rw [requestsOf_append] at hmore
    exact nomatch (List.append_eq_nil_iff.mp hmore).2

/-- Neither a request nor a reply is noted. -/
theorem of_quiet (h : Alternates c notes) (hquiet : Quiet more)
    (hopen : Phase.closing? c'.phase = none →
      Phase.closing? c.phase = none ∧ Phase.underWay c'.phase = Phase.underWay c.phase) :
    Alternates c' (notes ++ more) where
  length_eq hclosing := by
    obtain ⟨hclosing, hunderWay⟩ := hopen hclosing
    rw [hquiet.requestsOf_append, hquiet.repliesOf_append, hunderWay, h.length_eq hclosing]
  replies_le := by
    rw [hquiet.requestsOf_append, hquiet.repliesOf_append]
    exact h.replies_le
  requests_le := by
    rw [hquiet.requestsOf_append, hquiet.repliesOf_append]
    exact h.requests_le
  taken := h.taken_append hquiet.requests

/-- The connection ends, or is about to. -/
theorem of_closing (h : Alternates c notes) (hquiet : Quiet more)
    (hclosing : Phase.closing? c'.phase ≠ none) : Alternates c' (notes ++ more) :=
  h.of_quiet hquiet fun hopen => absurd hopen hclosing

/-- No request is worked on, before or behind the step. -/
theorem of_rests {handler : Option Handler} (h : Alternates c notes) (hquiet : Quiet more)
    (htask : Phase.task? c.phase = none) (hclosing : Phase.closing? c.phase = none)
    (hrests : Rests handler c') : Alternates c' (notes ++ more) :=
  h.of_quiet hquiet fun _ => ⟨hclosing, by
    rw [Phase.underWay_of_task hrests.task?_eq, Phase.underWay_of_task htask]⟩

/-- A request is taken. -/
theorem of_took (h : Alternates c notes) (hpolls : c.Polls) (request : Request)
    (hphase : Phase.closing? c'.phase = none → Phase.underWay c'.phase = 1) :
    Alternates c' (notes ++ [.took request]) := by
  have hrest : Phase.closing? c.phase = none ∧ Phase.task? c.phase = none := by
    rcases hpolls with hphase | ⟨hphase, -⟩
    · exact hphase ▸ ⟨rfl, rfl⟩
    · exact hphase ▸ ⟨rfl, rfl⟩
  have hlength := h.length_eq hrest.1
  rw [Phase.underWay_of_task hrest.2, Nat.add_zero] at hlength
  have hrequests : (requestsOf (notes ++ [.took request])).length =
      (repliesOf notes).length + 1 := by
    rw [requestsOf_took, List.length_append, hlength]
    rfl
  refine ⟨fun hclosing => ?_, ?_, ?_, fun front other behind hsplit => ?_⟩
  · rw [repliesOf_took, hrequests, hphase hclosing]
  · rw [repliesOf_took, hrequests]
    exact Nat.le_succ _
  · rw [repliesOf_took, hrequests]
  · rcases split_concat hsplit with ⟨rest, hnotes⟩ | ⟨rfl, -⟩
    · exact h.taken front other rest hnotes
    · exact hlength

/-- The request that is worked on gets its reply. -/
theorem of_replied {task : Task (Except Fatal Completion)} {reply : Reply}
    (h : Alternates c notes) (htask : Phase.task? c.phase = some task)
    (hmore : ∃ rest, more = .replied reply :: rest ∧ Quiet rest)
    (htask' : Phase.task? c'.phase = none) : Alternates c' (notes ++ more) := by
  obtain ⟨rest, rfl, hquiet⟩ := hmore
  have hrequests : requestsOf (.replied reply :: rest) = [] := hquiet.requests
  have hreplies : repliesOf (.replied reply :: rest) = [reply] :=
    congrArg (reply :: ·) hquiet.replies
  have hlength : (requestsOf notes).length = (repliesOf notes).length + 1 := by
    rw [h.length_eq (Phase.closing?_of_task htask), Phase.underWay, htask]
    rfl
  have hequal : (requestsOf (notes ++ .replied reply :: rest)).length =
      (repliesOf (notes ++ .replied reply :: rest)).length := by
    rw [requestsOf_append, hrequests, List.append_nil, repliesOf_append, hreplies,
      List.length_append, hlength]
    rfl
  refine ⟨fun _ => ?_, hequal.ge, hequal.le.trans (Nat.le_succ _), h.taken_append hrequests⟩
  rw [hequal, Phase.underWay_of_task htask', Nat.add_zero]

/-- A new connection has neither taken a request nor replied to one. -/
theorem new (settings : Settings) : Alternates (Connection.new settings) [] :=
  ⟨fun _ => rfl, Nat.le_refl 0, Nat.zero_le 1, fun _ _ _ hsplit =>
    nomatch List.append_eq_nil_iff.mp hsplit.symm⟩

/-- A message that is posted is neither a request nor a reply. -/
theorem post (h : Alternates c notes) (d : Delivery) :
    Alternates (c.post d).1 (notes ++ (c.post d).2) := by
  obtain ⟨mailbox, heq⟩ := post_eq c d
  refine h.of_quiet (.of_idles (idles_post c d)) fun hopen => ?_
  rw [heq] at hopen ⊢
  exact ⟨hopen, rfl⟩

variable {client : Nat} {s : Store Subscriber} {m : Move} {p : Progress}

/-- Every step keeps requests and replies alternating. -/
theorem step (h : Alternates c notes) (hstep : Steps client s c m p) :
    Alternates p.connection (notes ++ p.notes) := by
  have hpolls : c.Polls → Phase.task? c.phase = none ∧ Phase.closing? c.phase = none := by
    rintro (hphase | ⟨hphase, -⟩)
    · exact hphase ▸ ⟨rfl, rfl⟩
    · exact hphase ▸ ⟨rfl, rfl⟩
  cases hstep with
  | finished _ _ => exact h.of_closing .nil (closing?_close c _)
  | turn hphase _ _ => exact h.of_rests .nil (hphase ▸ rfl) (hphase ▸ rfl) ⟨rfl, rfl⟩
  | turnFlush hphase _ _ =>
      exact h.of_rests .nil (hphase ▸ rfl) (hphase ▸ rfl) (rests_flush c _)
  | request hphase _ _ => exact h.of_took hphase _ fun _ => rfl
  | orphan hphase _ _ => exact h.of_took hphase _ fun hopen => absurd hopen (closing?_fail _ _)
  | endOfInput hphase _ =>
      exact h.of_rests .nil (hpolls hphase).1 (hpolls hphase).2 ⟨rfl, rfl⟩
  | readError _ _ => exact h.of_closing .nil (closing?_fail _ _)
  | @nothing reader hphase _ =>
      exact h.of_rests .nil (hphase ▸ rfl) (hphase ▸ rfl) (rests_flush { c with reader } _)
  | more hphase _ _ _ => exact h.of_rests .nil (hphase ▸ rfl) (hphase ▸ rfl) ⟨rfl, hphase ▸ rfl⟩
  | @message d mailbox hphase _ =>
      have hturn := (puts_deliver { c with mailbox, phase := .turn } d).phase_eq
      exact h.of_rests (quiet_deliver _ d) (hphase ▸ rfl) (hphase ▸ rfl)
        ⟨rfl, congrArg Phase.task? hturn⟩
  | overBudget hphase _ =>
      exact h.of_rests .nil (hphase ▸ rfl) (hphase ▸ rfl)
        (rests_flush { c with autoRead := false } _)
  | settled hphase _ => exact h.of_rests .nil (hphase ▸ rfl) (hphase ▸ rfl) ⟨rfl, rfl⟩
  | fatal _ => exact h.of_closing .nil (closing?_fail c _)
  | @answered completion hphase =>
      exact h.of_replied (congrArg Phase.task? hphase) (notes_complete c completion) rfl
  | @fatalWaiting _ held _ =>
      exact h.of_closing (.of_idles (idles_discarded held)) (closing?_fail c _)
  | @answeredWaiting completion held hphase =>
      exact h.of_replied (congrArg Phase.task? hphase) (notes_resume c held completion)
        (rests_flush (c.resume held completion).1 .settle).task?_eq
  | left _ | dropped _ =>
      exact h.of_closing (.of_forall (by simp [Note.request?, Note.reply?])) (Option.some_ne_none _)
  | answerLeaving _ | answerAbandoned _ | abandon _ =>
      exact h.of_closing .nil (Option.some_ne_none _)
  | answer hphase | answerWaiting hphase | computed hphase | computedWaiting hphase
  | suspend hphase _ => exact h.of_quiet .nil fun _ => hphase ▸ ⟨rfl, rfl⟩
  | hold hphase _ _ => exact h.of_quiet ⟨rfl, rfl⟩ fun _ => hphase ▸ ⟨rfl, rfl⟩
  | @accept n chunk behind next hphase _ =>
      have hflushes := Stream.flushes_rest (chunk.drop n) behind next
      refine h.of_quiet ⟨rfl, rfl⟩ fun hopen => ?_
      rw [Stream.closing?_of_flushes hflushes] at hopen
      rw [Phase.underWay_of_task (task?_of_flushes hflushes), hphase]
      exact ⟨hopen, rfl⟩
  | acceptNothing _ => exact h.of_closing ⟨rfl, rfl⟩ (closing?_flushFailed c _ _)
  | @sync next hphase =>
      refine h.of_quiet ⟨rfl, rfl⟩ fun hopen => ?_
      rw [closing?_afterFlush] at hopen
      rw [Phase.underWay_of_task (rests_afterFlush c next).task?_eq, hphase]
      exact ⟨hopen, rfl⟩
  | refuseWriting _ | refuseSyncing _ => exact h.of_closing .nil (closing?_flushFailed c _ _)
  | refuseShutDown _ | shutDown _ =>
      exact h.of_closing (.of_idles (idles_leave c _)) (closing?_leave c _)
  | arrive a => exact h.of_quiet .nil fun hopen => ⟨hopen, rfl⟩

end Alternates

/-! ### After the last request -/

/-- Whether whatever a task ends with ends the connection as well. -/
def Parts (task : Task (Except Fatal Completion)) : Prop :=
  task.Always (fun _ _ => True) (Handler.Completes fun completion => completion.close = true)

/-- Whether a connection takes no request any more. -/
inductive Over (c : Connection) : Prop where
  /-- It is about to end. -/
  | closing (hclosing : Phase.closing? c.phase ≠ none)
  /-- It was closed, and is going to see that in its next turn. -/
  | closed {next : AfterFlush} (hstate : c.state = .closed)
      (hnext : Phase.heading? c.phase = some next) (hturn : next = .turn ∨ next = .settle)
  /-- The request that it works on ends it. -/
  | parts {task : Task (Except Fatal Completion)} (htask : Phase.task? c.phase = some task)
      (hparts : Parts task)

/-- A request to quit ends the connection, whatever its handler. -/
theorem parts_quit {request : Request} (h : Command.ofRequest request = .ok .quit)
    (handler : Handler) : Parts (handler.handle request) := by
  rw [Handler.handle, h]
  cases handler with
  | normal => exact Handler.completes_ok rfl
  | subscriber registry => exact Handler.completes_ok rfl

/-- A completion that ends its connection closes it. -/
theorem closed_complete {c : Connection} {completion : Completion}
    (h : Parts (.done (.ok completion))) : (c.complete completion).1.state = .closed :=
  if_pos (h completion rfl)

namespace Over

variable {c : Connection}

/-- A connection that was closed is over. -/
theorem of_closed (h : c.Poised) (hstate : c.state = .closed) : c.Over := by
  rw [Poised, hstate] at h
  cases hphase : c.phase with
  | turn => exact .closed hstate (congrArg Phase.heading? hphase) (.inl rfl)
  | settle => exact .closed hstate (congrArg Phase.heading? hphase) (.inr rfl)
  | look | select | running _ =>
      rw [hphase] at h
      exact nomatch h.1
  | waiting task held =>
      rw [hphase] at h
      exact nomatch h
  | writing chunk more next | syncing next =>
      rw [hphase] at h
      cases next with
      | look => exact nomatch h
      | select => exact nomatch h.1
      | turn => exact .closed hstate (congrArg Phase.heading? hphase) (.inl rfl)
      | settle => exact .closed hstate (congrArg Phase.heading? hphase) (.inr rfl)
      | shutDown ending => exact .closing (hphase ▸ nofun)
  | _ => exact .closing (hphase ▸ nofun)

/-- A message that is posted does not bring back a connection that is over. -/
theorem post (h : c.Over) (d : Delivery) : (c.post d).1.Over := by
  obtain ⟨mailbox, heq⟩ := post_eq c d
  rw [heq]
  cases h with
  | closing hclosing => exact .closing hclosing
  | closed hstate hnext hturn => exact .closed hstate hnext hturn
  | parts htask hparts => exact .parts htask hparts

variable {client : Nat} {s : Store Subscriber} {m : Move} {p : Progress}

/-- A step of a connection that was closed. -/
theorem step_closed {next : AfterFlush} (hstate : c.state = .closed)
    (hnext : Phase.heading? c.phase = some next) (hturn : next = .turn ∨ next = .settle)
    (hstep : Steps client s c m p) : p.connection.Over ∧ requestsOf p.notes = [] := by
  have hpolls : ¬ c.Polls := by
    intro hpolls
    rcases hpolls.heading? with hlooks | hlooks
    · obtain rfl := Option.some.inj (hlooks.symm.trans hnext)
      simp at hturn
    · obtain rfl := Option.some.inj (hlooks.symm.trans hnext)
      simp at hturn
  have hopen : closingAfter? next = none := by
    rcases hturn with rfl | rfl
    · rfl
    · rfl
  cases hstep with
  | finished _ _ => exact ⟨.closing (closing?_close c _), rfl⟩
  | turn _ hnot _ | turnFlush _ hnot _ => exact absurd hstate hnot
  | request hphase _ _ | orphan hphase _ _ | endOfInput hphase _ | readError hphase _ =>
      exact absurd hphase hpolls
  | nothing hphase _ => exact absurd (.inl hphase) hpolls
  | more hphase hmailbox _ _ => exact absurd (.inr ⟨hphase, hmailbox⟩) hpolls
  | message hphase _ =>
      obtain rfl := Option.some.inj (hnext.symm.trans (congrArg Phase.heading? hphase))
      simp at hturn
  | overBudget _ _ =>
      obtain ⟨outbound, autoRead, phase, heq⟩ := flush_eq { c with autoRead := false } .turn
      have hheading := @heading?_flush { c with autoRead := false } .turn rfl
      rw [heq] at hheading ⊢
      exact ⟨.closed hstate hheading (.inl rfl), rfl⟩
  | settled _ _ => exact ⟨.closed hstate rfl (.inl rfl), rfl⟩
  | @accept n chunk behind after hphase _ =>
      obtain rfl := Option.some.inj (hnext.symm.trans (congrArg Phase.heading? hphase))
      exact ⟨.closed hstate (heading?_rest _ _ _) hturn, rfl⟩
  | acceptNothing _ => exact ⟨.closing (closing?_flushFailed c _ _), rfl⟩
  | @sync after hphase =>
      obtain rfl := Option.some.inj (hnext.symm.trans (congrArg Phase.heading? hphase))
      obtain ⟨autoRead, phase, heq⟩ := afterFlush_eq c next
      have hheading := heading?_afterFlush c hopen
      rw [heq] at hheading ⊢
      exact ⟨.closed hstate hheading hturn, rfl⟩
  | refuseWriting _ | refuseSyncing _ => exact ⟨.closing (closing?_flushFailed c _ _), rfl⟩
  | arrive a => exact ⟨.closed hstate hnext hturn, rfl⟩
  | abandon _ => exact ⟨.closing nofun, rfl⟩
  | _ =>
      have hphase := ‹c.phase = _›
      exact nomatch hnext.symm.trans (congrArg Phase.heading? hphase)

/-- A step of a connection whose request ends it. -/
theorem step_parts {task : Task (Except Fatal Completion)}
    (htask : Phase.task? c.phase = some task) (hparts : Parts task)
    (hstep : Steps client s c m p) : p.connection.Over ∧ requestsOf p.notes = [] := by
  have hpolls : ¬ c.Polls := fun hpolls =>
    hpolls.not_working (.inl fun hnone => nomatch hnone.symm.trans htask)
  cases hstep with
  | request hphase _ _ | orphan hphase _ _ | endOfInput hphase _ | readError hphase _ =>
      exact absurd hphase hpolls
  | fatal _ => exact ⟨.closing (closing?_fail c _), rfl⟩
  | @fatalWaiting _ held _ =>
      exact ⟨.closing (closing?_fail c _), (Quiet.of_idles (idles_discarded held)).requests⟩
  | @answered completion hphase =>
      obtain rfl := Option.some.inj (htask.symm.trans (congrArg Phase.task? hphase))
      obtain ⟨more, hnotes, hquiet⟩ := notes_complete c completion
      refine ⟨.closed (closed_complete hparts) rfl (.inr rfl), ?_⟩
      rw [hnotes]
      exact hquiet.requests
  | @answeredWaiting completion held hphase =>
      obtain rfl := Option.some.inj (htask.symm.trans (congrArg Phase.task? hphase))
      obtain ⟨more, hnotes, hquiet⟩ := notes_resume c held completion
      have hstate : (c.resume held completion).1.state = .closed :=
        (wake_state _).mpr ((state_deliverEach _ held).trans (closed_complete hparts))
      obtain ⟨outbound, autoRead, phase, heq⟩ := flush_eq (c.resume held completion).1 .settle
      have hheading := @heading?_flush (c.resume held completion).1 .settle rfl
      rw [heq] at hheading ⊢
      refine ⟨.closed hstate hheading (.inr rfl), ?_⟩
      rw [hnotes]
      exact hquiet.requests
  | answer hphase | answerWaiting hphase =>
      obtain rfl := Option.some.inj (htask.symm.trans (congrArg Phase.task? hphase))
      exact ⟨.parts rfl (hparts _ trivial), rfl⟩
  | computed hphase | computedWaiting hphase =>
      obtain rfl := Option.some.inj (htask.symm.trans (congrArg Phase.task? hphase))
      exact ⟨.parts rfl hparts, rfl⟩
  | suspend hphase _ | hold hphase _ _ =>
      obtain rfl := Option.some.inj (htask.symm.trans (congrArg Phase.task? hphase))
      exact ⟨.parts rfl hparts, rfl⟩
  | arrive a => exact ⟨.parts htask hparts, rfl⟩
  | abandon _ => exact ⟨.closing nofun, rfl⟩
  | _ =>
      have hphase := ‹c.phase = _›
      exact nomatch htask.symm.trans (congrArg Phase.task? hphase)

/-- A connection that is over stays so, and takes no request. -/
theorem step (h : c.Over) (hstep : Steps client s c m p) :
    p.connection.Over ∧ requestsOf p.notes = [] := by
  cases h with
  | closing hclosing =>
      obtain ⟨hclosing, hidles⟩ := hstep.closing hclosing
      exact ⟨.closing hclosing, (Quiet.of_idles hidles).requests⟩
  | closed hstate hnext hturn => exact step_closed hstate hnext hturn hstep
  | parts htask hparts => exact step_parts htask hparts hstep

end Over

/-- A request that is taken goes to the handler that is there. -/
theorem Steps.handler_of_took {client : Nat} {s : Store Subscriber} {c : Connection} {m : Move}
    {p : Progress} {request : Request} (hstep : Steps client s c m p) (hinstalled : c.Installed)
    (h : .took request ∈ p.notes) : ∃ handler, c.handler = some handler ∧
      p.connection.phase = .running (handler.handle request) := by
  obtain ⟨hpolls, hnotes, -⟩ := hstep.of_took h
  cases hstep with
  | request _ _ hhandler =>
      obtain rfl := Note.took.inj (List.mem_singleton.mp h)
      exact ⟨_, hhandler, rfl⟩
  | orphan _ _ hhandler =>
      have hrest : Phase.task? c.phase = none := not_not.mp fun htask =>
        hpolls.not_working (.inl htask)
      obtain ⟨handler, hthere⟩ := hinstalled hpolls.atRest.closing?_eq hrest
      exact nomatch hhandler.symm.trans hthere
  | message hphase hmailbox =>
      rcases hpolls with hlook | ⟨-, hqueued⟩
      · exact nomatch hphase.symm.trans hlook
      · rw [queued_of_take hmailbox] at hqueued
        exact nomatch hqueued
  | answered hphase | answeredWaiting hphase | fatalWaiting hphase | refuseShutDown hphase
  | shutDown hphase =>
      rcases hpolls with hlook | ⟨hselect, -⟩
      · exact nomatch hphase.symm.trans hlook
      · exact nomatch hphase.symm.trans hselect
  | _ => exact nomatch hnotes

/-- Whether no request was taken behind one that ends the connection. -/
def EndsLast (c : Connection) (notes : List Note) : Prop :=
  ∀ front request behind, notes = front ++ .took request :: behind →
    (∀ handler : Handler, Parts (handler.handle request)) → c.Over ∧ requestsOf behind = []

namespace EndsLast

variable {c c' : Connection} {notes more : List Note}

/-- What is added takes no request once the connection is over, and ends it if it takes one that
does. -/
theorem append (h : EndsLast c notes) (hover : c.Over → c'.Over ∧ requestsOf more = [])
    (htook : ∀ request, .took request ∈ more →
      (∀ handler : Handler, Parts (handler.handle request)) →
      c'.Over ∧ more = [.took request]) : EndsLast c' (notes ++ more) := by
  intro front request behind hsplit hends
  rcases split_append hsplit with ⟨rest, rfl⟩ | ⟨mid, rfl, rfl⟩
  · obtain ⟨hwas, hrest⟩ := h front request rest rfl hends
    obtain ⟨his, hmore⟩ := hover hwas
    rw [List.append_assoc, List.cons_append] at hsplit
    obtain rfl := (List.cons.inj (List.append_cancel_left hsplit)).2
    exact ⟨his, by rw [requestsOf_append, hrest, hmore, List.append_nil]⟩
  · have hmem : .took request ∈ mid ++ .took request :: behind :=
      List.mem_append_right _ List.mem_cons_self
    obtain ⟨his, hsingle⟩ := htook request hmem hends
    cases mid with
    | nil =>
        obtain rfl := (List.cons.inj hsingle).2
        exact ⟨his, rfl⟩
    | cons first mid => exact nomatch (List.append_eq_nil_iff.mp (List.cons.inj hsingle).2).2

/-- A message that is posted is no request. -/
theorem post (h : EndsLast c notes) (d : Delivery) :
    EndsLast (c.post d).1 (notes ++ (c.post d).2) := by
  have hidles := idles_post c d
  exact h.append (fun hover => ⟨hover.post d, (Quiet.of_idles hidles).requests⟩)
    fun request hmem => absurd trivial (hidles _ hmem).2

/-- Every step keeps the request that ends a connection the last one that was taken. -/
theorem step {client : Nat} {s : Store Subscriber} {m : Move} {p : Progress} (h : EndsLast c notes)
    (hinstalled : c.Installed) (hstep : Steps client s c m p) :
    EndsLast p.connection (notes ++ p.notes) := by
  refine h.append (fun hover => hover.step hstep) fun request hmem hends => ?_
  obtain ⟨handler, -, hphase⟩ := hstep.handler_of_took hinstalled hmem
  exact ⟨.parts (congrArg Phase.task? hphase) (hends handler), (hstep.of_took hmem).2.1⟩

end EndsLast

end Connection

/-! ### Runs -/

namespace Server

open Connection

variable {y y' : Server} {moves : List (Nat × Move)} {log : Log} {j : Nat} {c : Connection}

/-- After every run of new connections, each of them is doing what it may where it stands. -/
theorem poised_of_run (hnew : ∀ c ∈ y.connections, ∃ settings, c = Connection.new settings)
    (hrun : y.run moves = some (y', log)) (hc : y'.connections[j]? = some c) : c.Poised := by
  suffices hboth : c.Poised ∧ c.Stream False (notesOf j log) from hboth.1
  refine run_invariant_new (P := fun c notes => c.Poised ∧ c.Stream False notes) ?_ ?_ hnew
    (fun settings => ⟨.new settings, .new settings⟩) hrun j c hc
  · rintro client s c m p notes ⟨hpoised, hstream⟩ hstep
    have hsteps := steps_of_step hstep
    exact ⟨hpoised.step hstream.tidy hsteps, (hstream.step hsteps).mono False.elim⟩
  · exact fun c notes d h => ⟨h.1.post d, h.2.post d⟩

/-- After every run of new connections, each of them has its handler unless it works on a request or
is about to end. -/
theorem installed_of_run (hnew : ∀ c ∈ y.connections, ∃ settings, c = Connection.new settings)
    (hrun : y.run moves = some (y', log)) (hc : y'.connections[j]? = some c) : c.Installed :=
  run_invariant_new (P := fun c _ => c.Installed) (fun h hstep => h.step (steps_of_step hstep))
    (fun _ _ d h => h.post d) hnew .new hrun j c hc

/-- After every run of new connections, the requests and replies of each of them alternate. -/
theorem alternates_of_run (hnew : ∀ c ∈ y.connections, ∃ settings, c = Connection.new settings)
    (hrun : y.run moves = some (y', log)) (hc : y'.connections[j]? = some c) :
    c.Alternates (notesOf j log) :=
  run_invariant_new (fun h hstep => h.step (steps_of_step hstep)) (fun _ _ d h => h.post d) hnew
    .new hrun j c hc

/-- After every run of new connections, none of them has taken a request behind one that ends it. -/
theorem endsLast_of_run (hnew : ∀ c ∈ y.connections, ∃ settings, c = Connection.new settings)
    (hrun : y.run moves = some (y', log)) (hc : y'.connections[j]? = some c) :
    c.EndsLast (notesOf j log) := by
  suffices hboth : c.Installed ∧ c.EndsLast (notesOf j log) from hboth.2
  refine run_invariant_new (P := fun c notes => c.Installed ∧ c.EndsLast notes) ?_ ?_ hnew
    (fun settings => ⟨.new settings, ?_⟩) hrun j c hc
  · rintro client s c m p notes ⟨hinstalled, hlast⟩ hstep
    have hsteps := steps_of_step hstep
    exact ⟨hinstalled.step hsteps, hlast.step hinstalled hsteps⟩
  · exact fun c notes d h => ⟨h.1.post d, h.2.post d⟩
  · exact fun front request behind hsplit => nomatch List.append_eq_nil_iff.mp hsplit.symm

/-- A connection that is over takes no request, however it goes on. -/
theorem requestsOf_of_over (hc : y.connections[j]? = some c) (hover : c.Over)
    (hrun : y.run moves = some (y', log)) : requestsOf (notesOf j log) = [] := by
  obtain ⟨c', hc'⟩ := exists_connection (length_run hrun) hc
  suffices hboth : c'.Over ∧ requestsOf (notesOf j log) = [] from hboth.2
  refine run_invariant_of (P := fun c notes => c.Over ∧ requestsOf notes = []) ?_ ?_ hc
    ⟨hover, rfl⟩ hrun hc'
  · rintro client s c m p notes ⟨hover, hnotes⟩ hstep
    obtain ⟨hover, hmore⟩ := hover.step (steps_of_step hstep)
    exact ⟨hover, by rw [requestsOf_append, hnotes, hmore, List.append_nil]⟩
  · rintro c notes d ⟨hover, hnotes⟩
    exact ⟨hover.post d, by
      rw [(Quiet.of_idles (idles_post c d)).requestsOf_append, hnotes]⟩

/-- The handler that a request goes to which was taken in this step. -/
theorem handler_of_took {i : Nat} {m : Move} {request : Request} {c' : Connection}
    (hinstalled : c.Installed) (hstep : y.step i m = some (y', log))
    (hc : y.connections[j]? = some c) (hc' : y'.connections[j]? = some c')
    (htook : .took request ∈ notesOf j log) : ∃ handler, c.handler = some handler ∧
      c'.phase = .running (handler.handle request) := by
  obtain ⟨p, ds, hp, hown, rfl, -⟩ := step_of_took hstep hc hc' htook
  obtain ⟨mailbox, hposted⟩ := p.connection.postEach_eq ds
  rw [hposted]
  exact (steps_of_step hp).handler_of_took hinstalled hown

/-- **Every turn of the main loop begins ready.** New connections over one store, and any run of
them, whatever their calls are answered, however long they have to wait for that, whatever arrives
and is delivered meanwhile, and whatever their writers do. Of each connection this holds:

* At the start of a turn it is closed, or else it is idle, it reads and its handler is there.
* When it takes a request, the handler is there and starts to work on it. So the failure that tells
  of a missing handler never happens.
* At most one request has no reply, and a request is taken only when all before it have theirs.
* Once it is closed, or works on a request that has come to a completion which closes it, it takes
  no further request, however the run goes on.
* Behind a request to quit it takes none. -/
theorem turns_are_ready (hnew : ∀ c ∈ y.connections, ∃ settings, c = Connection.new settings)
    (hrun : y.run moves = some (y', log)) (hc : y'.connections[j]? = some c) :
    (c.phase = .turn → c.state ≠ .closed →
      c.state = .idle ∧ c.autoRead = true ∧ ∃ handler, c.handler = some handler) ∧
    (∀ i m y₁ log₁ request, y'.step i m = some (y₁, log₁) → .took request ∈ notesOf j log₁ →
      ∃ handler c₁, c.handler = some handler ∧ y₁.connections[j]? = some c₁ ∧
        c₁.phase = .running (handler.handle request)) ∧
    ((repliesOf (notesOf j log)).length ≤ (requestsOf (notesOf j log)).length ∧
      (requestsOf (notesOf j log)).length ≤ (repliesOf (notesOf j log)).length + 1 ∧
      ∀ front request behind, notesOf j log = front ++ .took request :: behind →
        (requestsOf front).length = (repliesOf front).length) ∧
    ((c.state = .closed ∨ ∃ completion : Completion,
        Phase.task? c.phase = some (.done (.ok completion)) ∧ completion.close = true) →
      ∀ more y₁ log₁, y'.run more = some (y₁, log₁) → requestsOf (notesOf j log₁) = []) ∧
    ∀ front request behind, notesOf j log = front ++ .took request :: behind →
      Command.ofRequest request = .ok .quit → requestsOf behind = [] := by
  have hpoised := poised_of_run hnew hrun hc
  have hinstalled := installed_of_run hnew hrun hc
  have halternates := alternates_of_run hnew hrun hc
  refine ⟨fun hphase hopen => ?_, fun i m y₁ log₁ request hstep htook => ?_,
    ⟨halternates.replies_le, halternates.requests_le, halternates.taken⟩,
    fun hclosed more y₁ log₁ hmore => ?_, fun front request behind hsplit hquit => ?_⟩
  · have hat : PoisedAt c.state c.autoRead .turn := hphase ▸ hpoised
    exact ⟨State.eq_idle hat.1 hopen, hat.2, hinstalled (hphase ▸ rfl) (hphase ▸ rfl)⟩
  · obtain ⟨c₁, hc₁⟩ := exists_connection (length_step hstep) hc
    obtain ⟨handler, hhandler, hphase⟩ := handler_of_took hinstalled hstep hc hc₁ htook
    exact ⟨handler, c₁, hhandler, hc₁, hphase⟩
  · refine requestsOf_of_over hc ?_ hmore
    rcases hclosed with hstate | ⟨completion, htask, hcloses⟩
    · exact .of_closed hpoised hstate
    · exact .parts htask (Handler.completes_ok hcloses)
  · exact (endsLast_of_run hnew hrun hc front request behind hsplit (parts_quit hquit)).2

/-- A client reads a key, asks to quit and asks for a sign of life, all at once. The store is
slow. -/
def hangingUp : List (Nat × Move) :=
  [(0, .arrive (.chunk (Bytes.ofString
      "*2\r\n$3\r\nGET\r\n$1\r\nk\r\n*1\r\n$4\r\nQUIT\r\n*1\r\n$4\r\nPING\r\n"))),
    (0, .proceed), (0, .proceed), (0, .suspend), (0, .answer fun _ => none), (0, .proceed),
    (0, .accept 512), (0, .sync), (0, .proceed), (0, .proceed), (0, .proceed), (0, .proceed)]

/-- The connection is idle, reads and has its handler when its second turn begins, and takes no
request behind the one to quit, however it goes on. -/
theorem turns_are_ready_hangingUp :
    ∃ y log c y₁ log₁ c₁, twoClients.run (hangingUp.take 9) = some (y, log) ∧
      y.connections[0]? = some c ∧ c.phase = .turn ∧
      (c.state = .idle ∧ c.autoRead = true ∧ ∃ handler, c.handler = some handler) ∧
      twoClients.run hangingUp = some (y₁, log₁) ∧ y₁.connections[0]? = some c₁ ∧
      c₁.state = .closed ∧ (requestsOf (notesOf 0 log₁)).length = 2 ∧
      ∀ more y₂ log₂, y₁.run more = some (y₂, log₂) → requestsOf (notesOf 0 log₂) = [] := by
  have hturn : (twoClients.run (hangingUp.take 9)).map (fun result =>
      result.1.connections[0]?.map fun c => (Phase.isTurn c.phase, c.state)) =
        some (some (true, .idle)) := by
    decide +kernel
  have hquit : (twoClients.run hangingUp).map (fun result =>
      (result.1.connections[0]?.map Connection.state, (requestsOf (notesOf 0 result.2)).length)) =
        some (some .closed, 2) := by
    decide +kernel
  obtain ⟨⟨y, log⟩, hrun, hturn⟩ := Option.map_eq_some_iff.mp hturn
  obtain ⟨c, hc, hturn⟩ := Option.map_eq_some_iff.mp hturn
  obtain ⟨hphase, hidle⟩ := Prod.mk.inj hturn
  replace hphase := Phase.eq_turn hphase
  obtain ⟨⟨y₁, log₁⟩, hrun₁, hquit⟩ := Option.map_eq_some_iff.mp hquit
  obtain ⟨hclosed, hlength⟩ := Prod.mk.inj hquit
  obtain ⟨c₁, hc₁, hclosed⟩ := Option.map_eq_some_iff.mp hclosed
  have hready := (turns_are_ready new_of_mem_twoClients hrun hc).1 hphase (hidle ▸ nofun)
  have hover := (turns_are_ready new_of_mem_twoClients hrun₁ hc₁).2.2.2.1 (.inl hclosed)
  exact ⟨y, log, c, y₁, log₁, c₁, hrun, hc, hphase, hready, hrun₁, hc₁, hclosed, hlength, hover⟩

end Server

end RespStore
