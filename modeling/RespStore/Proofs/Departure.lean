import RespStore.Proofs.Registration

/-!
# Listeners of connections that are over

Whatever ends a connection, it goes through the same last steps: its buffer is written out or the
writer fails, the writer is shut down or fails at that too, and then the handler's listeners are
taken off one after the other. The handler is there by then, unless a request has failed for good
while it was away, and such a request had no listeners.

* `Phase.departure?` is what is left to be taken off, and `Connection.Departs` says that nothing
  else is registered.
* `Server.others_of_run` says that nobody's listeners change but by moves of their own.
* `Server.canReach_of_closing` says that the last steps can always be made.
* `Server.no_listener_left` is the main result, about every run of any number of connections.
-/

namespace RespStore

namespace Connection

/-- How a connection has ended, once it has. -/
def Phase.ending? : Phase → Option Ending
  | .ended ending => some ending
  | _ => none

/-- A connection that has an ending has ended. -/
theorem phase_of_ending {phase : Phase} {ending : Ending}
    (h : Phase.ending? phase = some ending) : phase = .ended ending := by
  cases phase with
  | ended other => exact congrArg Phase.ended (Option.some.inj h)
  | _ => cases h

/-- What a connection that is about to end can still have to do. -/
theorem cases_of_closing {phase : Phase} {ending : Ending}
    (h : Phase.closing? phase = some ending) :
    (∃ next, Phase.Flushes phase next ∧ closingAfter? next = some ending) ∨
      phase = .shuttingDown ending ∨ (∃ task, phase = .leaving task ending) ∨
      phase = .ended ending ∨ .dropped = ending := by
  cases phase with
  | writing chunk more next => exact .inl ⟨next, .writing chunk more next, h⟩
  | syncing next => exact .inl ⟨next, .syncing next, h⟩
  | shuttingDown other => exact .inr (.inl (congrArg Phase.shuttingDown (Option.some.inj h)))
  | leaving task other =>
      exact .inr (.inr (.inl ⟨task, congrArg (Phase.leaving task) (Option.some.inj h)⟩))
  | ended other => exact .inr (.inr (.inr (.inl (congrArg Phase.ended (Option.some.inj h)))))
  | abandoned task => exact .inr (.inr (.inr (.inr (Option.some.inj h))))
  | _ => cases h

/-! ### What is left to be taken off -/

/-- What a connection that was not dropped still has to do about its listeners, once it has begun to
take them off. -/
def Phase.departure? : Phase → Option (Task Unit)
  | .leaving task _ => some task
  | .ended .dropped => none
  | .ended _ => some (.done ())
  | _ => none

/-- A connection that holds its listeners has not begun to take them off. -/
theorem departure?_of_holds {phase : Phase} (h : Phase.Holds phase) :
    Phase.departure? phase = none := by
  cases phase with
  | leaving task ending => exact h.elim
  | ended ending => exact h.elim
  | _ => rfl

/-- A connection that has ended without being dropped has nothing left to take off. -/
theorem departure?_of_ended {phase : Phase} {ending : Ending} (h : phase = .ended ending)
    (hdropped : ending ≠ .dropped) : Phase.departure? phase = some (.done ()) := by
  subst h
  cases ending with
  | dropped => exact absurd rfl hdropped
  | _ => rfl

/-- Whether all listeners that the store has of a connection are about to be taken off, once the
connection has begun to do so. -/
def Departs (s : Store Subscriber) (client : Nat) (c : Connection) : Prop :=
  ∀ task, Phase.departure? c.phase = some task →
    ∃ ids, task = Handler.unlistenEach ids ∧ s.HasOnly client ids

namespace Departs

variable {s : Store Subscriber} {client : Nat} {c c' : Connection}

/-- Nothing is claimed of a connection that holds its listeners. -/
theorem of_holds (h : Phase.Holds c.phase) : Departs s client c :=
  fun _ htask => nomatch (departure?_of_holds h).symm.trans htask

/-- The listeners that a task takes off are all that the store has of the connection. -/
theorem of_ids {ids : List ListenerId}
    (hphase : ∀ task, Phase.departure? c.phase = some task → task = Handler.unlistenEach ids)
    (h : s.HasOnly client ids) : Departs s client c :=
  fun task htask => ⟨ids, hphase task htask, h⟩

/-- Once the last listener has been taken off, the connection is over. -/
theorem of_ended {ending : Ending} (h : s.HasOnly client []) :
    Departs s client { c with phase := .ended ending } := by
  refine of_ids (fun task htask => ?_) h
  cases ending with
  | dropped => cases htask
  | _ => exact (Option.some.inj htask).symm

/-- A connection that is over begins with all listeners of its handler. A handler that is away has
left none behind. -/
theorem of_leave {ending : Ending} (h : Registered s client c)
    (hphase : c.phase = .shuttingDown ending) : Departs s client (c.leave ending).1 := by
  have hregisters := h.listeners (hphase ▸ trivial)
  rw [registry_of_resting (hphase ▸ rfl)] at hregisters
  rw [leave]
  cases hhandler : c.handler with
  | none =>
      rw [hhandler] at hregisters
      have hnone : Registry.ids ∅ = [] := rfl
      exact of_ended (hnone ▸ hregisters.hasOnly)
  | some handler =>
      rw [hhandler] at hregisters
      exact of_ids (fun task htask => (Option.some.inj htask).symm) hregisters.hasOnly

/-- One listener is taken off. -/
theorem of_answer {q : Call} {owned : Registry} {next : q.Answer → Task Unit} {ending : Ending}
    {instead : (q : Call) → Option q.Answer} (h : Departs s client c)
    (hphase : c.phase = .leaving (.call owned q next) ending)
    (hunlistens : Move.Unlistens (.answer instead)) :
    Departs (s.react client q (instead q)).store client
      { c with phase := .leaving (next (s.react client q (instead q)).answer) ending } := by
  obtain ⟨ids, hcall, hids⟩ := h _ (congrArg Phase.departure? hphase)
  cases ids with
  | nil => cases hcall
  | cons id ids =>
      change _ = Task.call ∅ (.unlisten id) fun _ => Handler.unlistenEach ids at hcall
      cases hcall
      rw [hunlistens id]
      exact of_ids (fun task htask => (Option.some.inj htask).symm) hids.unlisten

variable {m : Move} {p : Progress}

/-- Every step keeps it that all listeners are about to be taken off. Most steps do not begin to;
those that do are in front. -/
theorem step (h : Departs s client c) (hregistered : Registered s client c)
    (hstep : Steps client s c m p) (hunlistens : m.Unlistens) :
    Departs p.store client p.connection := by
  cases hstep with
  | refuseShutDown hphase => exact of_leave hregistered hphase
  | shutDown hphase => exact of_leave hregistered hphase
  | answerLeaving hphase => exact h.of_answer hphase hunlistens
  | left hphase =>
      obtain ⟨ids, hdone, hids⟩ := h _ (congrArg Phase.departure? hphase)
      cases ids with
      | nil => exact of_ended hids
      | cons id ids => cases hdone
  | dropped _ => exact fun _ htask => nomatch htask
  | answerAbandoned _ => exact fun _ htask => nomatch htask
  | abandon _ => exact fun _ htask => nomatch htask
  | arrive a => exact h
  | finished _ _ => exact of_holds (holds_flush _ _)
  | turnFlush _ _ _ => exact of_holds (holds_flush _ _)
  | orphan _ _ _ => exact of_holds (holds_flush _ _)
  | readError _ _ => exact of_holds (holds_flush _ _)
  | nothing _ _ => exact of_holds (holds_flush _ _)
  | overBudget _ _ => exact of_holds (holds_flush _ _)
  | fatal _ => exact of_holds (holds_flush _ _)
  | fatalWaiting _ => exact of_holds (holds_flush _ _)
  | answeredWaiting _ => exact of_holds (holds_flush _ _)
  | @message d mailbox _ _ =>
      have hturn := (puts_deliver { c with mailbox, phase := .turn } d).phase_eq
      exact of_holds (hturn ▸ trivial)
  | more hphase _ _ _ => exact of_holds (hphase ▸ trivial)
  | accept _ _ => exact of_holds (holds_of_flushes (Stream.flushes_rest _ _ _))
  | acceptNothing _ => exact of_holds (holds_flushFailed _ _ _)
  | refuseWriting _ => exact of_holds (holds_flushFailed _ _ _)
  | refuseSyncing _ => exact of_holds (holds_flushFailed _ _ _)
  | sync _ => exact of_holds (holds_afterFlush _ _)
  | _ => exact of_holds trivial

/-- Messages that are put into the mailbox change nothing about the last steps. -/
theorem postEach (h : Departs s client c) (ds : List Delivery) :
    Departs s client (c.postEach ds).1 := by
  obtain ⟨mailbox, hposted⟩ := c.postEach_eq ds
  rw [hposted]
  exact h

/-- Nobody else registers listeners for the connection. -/
theorem react_other {other : Nat} {q : Call} {instead : Option q.Answer}
    (h : Departs s client c) (hne : client ≠ other) :
    Departs (s.react other q instead).store client c := by
  intro task htask
  obtain ⟨ids, heq, hids⟩ := h task htask
  exact ⟨ids, heq, hids.react_other hne⟩

end Departs

end Connection

/-! ### Runs -/

namespace Server

/-- In a run, a connection that takes its listeners off takes off all of them, if that does not
fail. -/
theorem departs_of_run {y y' : Server} {moves : List (Nat × Move)} {log : Log} {j : Nat}
    (hregistered : y.Registered)
    (h : ∀ c, y.connections[j]? = some c → c.Departs y.store j)
    (hmoves : ∀ move ∈ moves, move.2.IsHonest ∧ (move.1 = j → move.2.Unlistens))
    (hrun : y.run moves = some (y', log)) :
    y'.Registered ∧ ∀ c, y'.connections[j]? = some c → c.Departs y'.store j := by
  refine run_induction (R := fun i m => m.IsHonest ∧ (i = j → m.Unlistens))
    (Q := fun _ y _ => y.Registered ∧ ∀ c, y.connections[j]? = some c → c.Departs y.store j)
    ?_ ⟨hregistered, h⟩ hmoves hrun
  rintro made y y' i m before log ⟨hregistered, h⟩ ⟨hhonest, hunlistens⟩ hstep
  refine ⟨hregistered.step hhonest hstep, fun c' hc' => ?_⟩
  obtain ⟨c, p, moved, ds, hc, hp, hstore, rfl, -, hmoved⟩ := step_at hstep hc'
  have hsteps := Connection.steps_of_step hp
  rw [hstore]
  refine Connection.Departs.postEach ?_ ds
  rcases hmoved with ⟨rfl, rfl⟩ | ⟨hij, hmoved⟩
  · exact (h c hc).step (hregistered i c hc) hsteps (hunlistens rfl)
  · rcases hsteps.store_cases with hsame | ⟨q, instead, -, hreact⟩
    · exact hsame ▸ h moved hmoved
    · exact hreact ▸ (h moved hmoved).react_other (Ne.symm hij)

/-- A step changes no listeners but those of the connection that makes it. -/
theorem others_of_step {y y' : Server} {i : Nat} {m : Move} {log : Log}
    (hregistered : y.Registered) (hstep : y.step i m = some (y', log)) {id : ListenerId}
    {listener : Listener Subscriber} (hne : listener.target.client ≠ i) :
    y'.store.listeners[id]? = some listener ↔ y.store.listeners[id]? = some listener := by
  obtain ⟨c, p, hc, hp, hstore, -, -⟩ := step_cases hstep
  rw [hstore]
  rcases (Connection.steps_of_step hp).store_cases with hsame | ⟨q, instead, hcall, hreact⟩
  · rw [hsame]
  · rw [hreact]
    exact Store.getElem?_listeners_react_iff hne ((hregistered i c hc).minds hcall)

/-- A run leaves the listeners alone of everybody who makes no move in it. -/
theorem others_of_run {y y' : Server} {moves : List (Nat × Move)} {log : Log} {k : Nat}
    (hregistered : y.Registered) (hmoves : ∀ move ∈ moves, move.2.IsHonest ∧ move.1 ≠ k)
    (hrun : y.run moves = some (y', log)) {id : ListenerId} {listener : Listener Subscriber}
    (hclient : listener.target.client = k) :
    y'.store.listeners[id]? = some listener ↔ y.store.listeners[id]? = some listener := by
  refine (run_induction (R := fun i m => m.IsHonest ∧ i ≠ k)
    (Q := fun _ y' _ => y'.Registered ∧ (y'.store.listeners[id]? = some listener ↔
      y.store.listeners[id]? = some listener)) ?_ ⟨hregistered, Iff.rfl⟩ hmoves hrun).2
  rintro made y₁ y₂ i m before log ⟨hregistered, hsame⟩ ⟨hhonest, hne⟩ hstep
  refine ⟨hregistered.step hhonest hstep, (others_of_step hregistered hstep ?_).trans hsame⟩
  exact hclient ▸ hne.symm

/-! ### The last steps -/

/-- Whether a connection can get to a phase by moves of its own, in which calls about listeners do
what they claim to do and taking listeners off does not fail. -/
def CanReach (y : Server) (j : Nat) (phase : Phase) : Prop :=
  ∃ behind y' log c', (∀ move ∈ behind, move.1 = j ∧ move.2.IsHonest ∧ move.2.Unlistens) ∧
    y.run behind = some (y', log) ∧ y'.connections[j]? = some c' ∧ c'.phase = phase

/-- Without a move, a connection stays in its phase. -/
theorem canReach_self {y : Server} {j : Nat} {c : Connection} (hc : y.connections[j]? = some c) :
    y.CanReach j c.phase :=
  ⟨[], y, [], c, List.forall_mem_nil _, rfl, hc, rfl⟩

/-- One more move in front. -/
theorem canReach_of_step {y : Server} {j : Nat} {m : Move} {c : Connection} {p : Progress}
    {phase : Phase} (hc : y.connections[j]? = some c)
    (hp : c.step j y.store m = some p) (hhonest : m.IsHonest) (hunlistens : m.Unlistens)
    (h : ∀ (y' : Server) c', y'.connections[j]? = some c' → c'.phase = p.connection.phase →
      y'.CanReach j phase) : y.CanReach j phase := by
  obtain ⟨y₁, log₁, hstep⟩ := exists_step hc hp
  obtain ⟨c₁, hc₁⟩ := exists_connection (length_step hstep) hc
  obtain ⟨_, p', moved, ds, hc₀, hp', -, rfl, -, ⟨-, rfl⟩ | ⟨hne, -⟩⟩ := step_at hstep hc₁
  · obtain rfl := Option.some.inj (hc.symm.trans hc₀)
    obtain rfl := Option.some.inj (hp.symm.trans hp')
    obtain ⟨mailbox, hposted⟩ := p.connection.postEach_eq ds
    obtain ⟨behind, y', log, c', hmoves, hrun, hc', hphase⟩ := h y₁ _ hc₁ (by rw [hposted])
    refine ⟨(j, m) :: behind, y', log₁ ++ log, c', ?_, ?_, hc', hphase⟩
    · exact List.forall_mem_cons.mpr ⟨⟨rfl, hhonest, hunlistens⟩, hmoves⟩
    · simp [run, hstep, hrun]
  · exact absurd rfl hne

/-- Taking the listeners off ends, by induction on those that are left. -/
theorem canReach_of_leaving {ids : List ListenerId} {ending : Ending} {y : Server} {j : Nat}
    {c : Connection} (hc : y.connections[j]? = some c)
    (hphase : c.phase = .leaving (Handler.unlistenEach ids) ending) :
    y.CanReach j (.ended ending) := by
  induction ids generalizing y c with
  | nil =>
      have hp : c.step j y.store .proceed =
          some ⟨{ c with phase := .ended ending }, y.store, [], [.ended ending]⟩ := by
        rw [Connection.step, Connection.proceed, hphase]
        rfl
      refine canReach_of_step hc hp trivial trivial fun y' c' hc' hended => ?_
      change c'.phase = .ended ending at hended
      exact hended ▸ canReach_self hc'
  | cons id ids ih =>
      have hp : c.step j y.store (.answer fun _ => none) =
          some ⟨{ c with phase := .leaving (Handler.unlistenEach ids) ending },
            y.store.unlisten id, [], []⟩ := by
        rw [Connection.step, Connection.answer, hphase]
        rfl
      have hhonest : (Move.answer fun _ => none).IsHonest :=
        ⟨fun _ _ h => absurd h.symm (Option.some_ne_none _),
          fun _ _ h => absurd h.symm (Option.some_ne_none _)⟩
      exact canReach_of_step hc hp hhonest (fun _ => rfl) fun y' c' hc' hleaving => ih hc' hleaving

/-- Once the writer is shut down, what is left is to take the listeners off. -/
theorem canReach_of_shuttingDown {ending : Ending} {y : Server} {j : Nat} {c : Connection}
    (hc : y.connections[j]? = some c) (hphase : c.phase = .shuttingDown ending) :
    y.CanReach j (.ended ending) := by
  have hp : c.step j y.store .shutDown =
      some ⟨(c.leave ending).1, y.store, [], (c.leave ending).2⟩ := by
    rw [Connection.step, Connection.shutDown, hphase]
    rfl
  refine canReach_of_step hc hp trivial trivial fun y' c' hc' hleft => ?_
  rw [Connection.leave] at hleft
  cases hhandler : c.handler with
  | none =>
      rw [hhandler] at hleft
      change c'.phase = .ended ending at hleft
      exact hleft ▸ canReach_self hc'
  | some handler =>
      rw [hhandler] at hleft
      exact canReach_of_leaving hc' hleft

/-- A connection that writes the rest of its buffer can end: the writer may fail instead. -/
theorem canReach_of_flushes {ending : Ending} {next : AfterFlush} {y : Server} {j : Nat}
    {c : Connection} (hc : y.connections[j]? = some c)
    (hflushes : Connection.Phase.Flushes c.phase next)
    (hnext : Connection.closingAfter? next = some ending) : y.CanReach j (.ended ending) := by
  obtain rfl : next = .shutDown ending := by
    cases next with
    | shutDown other => exact congrArg AfterFlush.shutDown (Option.some.inj hnext)
    | _ => cases hnext
  have hp : c.step j y.store (.refuse "") =
      some ⟨{ c with phase := .shuttingDown ending }, y.store, [], []⟩ := by
    rw [Connection.step, Connection.refuse]
    generalize c.phase = phase at hflushes
    cases hflushes with
    | writing chunk more => rfl
    | syncing => rfl
  exact canReach_of_step hc hp trivial trivial fun y' c' hc' hphase =>
    canReach_of_shuttingDown hc' hphase

/-- A connection that is about to end can end, unless it was dropped. -/
theorem canReach_of_closing {ending : Ending} {y : Server} {j : Nat} {c : Connection}
    (hc : y.connections[j]? = some c) (hdeparts : c.Departs y.store j)
    (hclosing : Connection.Phase.closing? c.phase = some ending) (hdropped : ending ≠ .dropped) :
    y.CanReach j (.ended ending) := by
  rcases Connection.cases_of_closing hclosing with
    ⟨next, hflushes, hnext⟩ | hphase | ⟨task, hphase⟩ | hphase | rfl
  · exact canReach_of_flushes hc hflushes hnext
  · exact canReach_of_shuttingDown hc hphase
  · obtain ⟨ids, rfl, -⟩ := hdeparts task (congrArg Connection.Phase.departure? hphase)
    exact canReach_of_leaving hc hphase
  · exact hphase ▸ canReach_self hc
  · exact absurd rfl hdropped

/-- **No listener outlives its connection.** New connections over a store that has no listeners of
theirs, and any run of them in which taking a listener of connection `j` off does not fail.

* When the connection is over, whatever ended it, the store has no listener of it.
* Meanwhile everybody else's listeners are exactly as they were: from there on, too, nobody's
  listeners change in a run in which they make no move.
* A connection that is about to end does end, if it is given the moves: the writer that it still has
  to write to may fail, and so may its shutdown.

A connection that is dropped gives its listeners up in another way, which `listeners_agree` is
about. -/
theorem no_listener_left {y y' : Server} {moves : List (Nat × Move)} {log : Log} {j : Nat}
    {c : Connection} (hnew : ∀ c ∈ y.connections, ∃ settings, c = Connection.new settings)
    (hstore : ∀ (id : ListenerId) listener, y.store.listeners[id]? = some listener →
      y.connections.length ≤ listener.target.client)
    (hmoves : ∀ move ∈ moves, move.2.IsHonest ∧ (move.1 = j → move.2.Unlistens))
    (hrun : y.run moves = some (y', log)) (hc : y'.connections[j]? = some c) :
    (∀ ending, c.phase = .ended ending → ending ≠ .dropped →
      ∀ (id : ListenerId) listener, y'.store.listeners[id]? = some listener →
        listener.target.client ≠ j) ∧
    (∀ k behind y₂ log₂, (∀ move ∈ behind, move.2.IsHonest ∧ move.1 ≠ k) →
      y'.run behind = some (y₂, log₂) →
      ∀ (id : ListenerId) listener, listener.target.client = k →
        (y₂.store.listeners[id]? = some listener ↔ y'.store.listeners[id]? = some listener)) ∧
    ∀ ending, Connection.Phase.closing? c.phase = some ending → ending ≠ .dropped →
      y'.CanReach j (.ended ending) := by
  have hregistered : y.Registered :=
    registered_of_run hnew hstore (List.forall_mem_nil _) (rfl : y.run [] = some (y, []))
  have hstart : ∀ c, y.connections[j]? = some c → c.Departs y.store j := by
    intro c hc
    obtain ⟨settings, rfl⟩ := hnew c (List.mem_of_getElem? hc)
    exact .of_holds trivial
  obtain ⟨hregistered', hdeparts⟩ := departs_of_run hregistered hstart hmoves hrun
  refine ⟨fun ending hended hdropped id listener hlistener hclient => ?_, ?_, ?_⟩
  · obtain ⟨ids, hdone, hids⟩ :=
      hdeparts c hc _ (Connection.departure?_of_ended hended hdropped)
    cases ids with
    | nil => exact List.not_mem_nil (hids id listener hlistener hclient)
    | cons id ids => cases hdone
  · intro k behind y₂ log₂ hbehind hrun₂ id listener hclient
    exact others_of_run hregistered' hbehind hrun₂ hclient
  · intro ending hclosing hdropped
    exact canReach_of_closing hc (hdeparts c hc) hclosing hdropped

/-- Two clients subscribe to a channel. The writer of the first one breaks before it is told, and
breaks again when it is told to shut down. -/
def breaking : List (Nat × Move) :=
  [(1, .arrive (.chunk (Bytes.ofString "*2\r\n$9\r\nSUBSCRIBE\r\n$1\r\na\r\n"))),
    (1, .proceed), (1, .proceed), (1, .answer fun _ => none), (1, .proceed),
    (0, .arrive (.chunk (Bytes.ofString "*2\r\n$9\r\nSUBSCRIBE\r\n$1\r\na\r\n"))),
    (0, .proceed), (0, .proceed), (0, .answer fun _ => none), (0, .proceed), (0, .proceed),
    (0, .proceed), (0, .proceed), (0, .refuse "broken pipe"), (0, .refuse "broken pipe"),
    (0, .refuse "broken pipe"), (0, .answer fun _ => none), (0, .proceed)]

/-- The hypotheses can be met by a client whose writer breaks twice before the end. -/
theorem no_listener_left_breaking :
    ∃ y log c, twoClients.run breaking = some (y, log) ∧ y.connections[0]? = some c ∧
      c.phase = .ended (.failed "broken pipe") ∧ y.store.listeners.keys = [0] ∧
      ∀ (id : ListenerId) listener, y.store.listeners[id]? = some listener →
        listener.target.client ≠ 0 := by
  have hfacts : (twoClients.run breaking).map (fun result => result.1.connections[0]?.map
      fun c => (Connection.Phase.ending? c.phase, result.1.store.listeners.keys)) =
        some (some (some (Ending.failed "broken pipe"), [0])) := by
    decide +kernel
  obtain ⟨⟨y, log⟩, hrun, hfacts⟩ := Option.map_eq_some_iff.mp hfacts
  obtain ⟨c, hc, hfacts⟩ := Option.map_eq_some_iff.mp hfacts
  obtain ⟨hending, hkeys⟩ := Prod.mk.inj hfacts
  have hended := Connection.phase_of_ending hending
  have hmoves : ∀ move ∈ breaking, move.2.IsHonest ∧ (move.1 = 0 → move.2.Unlistens) := by
    simp [breaking, Move.IsHonest, Move.Unlistens, Honest]
  obtain ⟨hover, -, -⟩ :=
    no_listener_left new_of_mem_twoClients (listeners_of_empty rfl) hmoves hrun hc
  exact ⟨y, log, c, hrun, hc, hended, hkeys, hover _ hended Ending.noConfusion⟩

end Server

end RespStore
