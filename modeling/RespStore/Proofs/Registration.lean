import RespStore.Proofs.Acknowledgement
import RespStore.Proofs.Registry

/-!
# Listeners of connections

The listeners that a store has for a connection are at every moment those that the connection
holds: between requests, and whenever a change of subscriptions waits for a call, however its calls
are answered, as long as a call about listeners either takes effect or fails.

* `Connection.Registered` is the invariant of a connection and its store. It also covers the time
  in which the listeners are taken off.
* `Connection.Removing` follows a connection that has been dropped.
* `Server.listeners_agree` is the main result, about every run of any number of connections.
-/

namespace RespStore

/-- Whether a call that is answered in this move is answered honestly. -/
def Move.IsHonest : Move → Prop
  | .answer instead => Honest instead
  | _ => True

/-- Whether a call that is answered in this move is carried out if it takes a listener off. -/
def Move.Unlistens : Move → Prop
  | .answer instead => ∀ id, instead (.unlisten id) = none
  | _ => True

/-- How many calls are answered in this move. -/
def Move.answers : Move → Nat
  | .answer _ => 1
  | _ => 0

namespace Connection

/-- The task that takes the listeners of a connection off, once that has begun. -/
def Phase.removal? : Phase → Option (Task Unit)
  | .leaving task _ => some task
  | .abandoned task => some task
  | _ => none

/-- The call that a connection makes, if it makes one. -/
def Phase.call? : Phase → Option Call
  | .running (.call _ q _) => some q
  | .waiting (.call _ q _) _ => some q
  | .leaving (.call _ q _) _ => some q
  | .abandoned (.call _ q _) => some q
  | _ => none

/-- Whether a connection has not begun to give its listeners up. -/
def Phase.Holds : Phase → Prop
  | .leaving _ _ => False
  | .abandoned _ => False
  | .ended _ => False
  | _ => True

section Registry

variable {c : Connection} {registry : Registry} {task : Task (Except Fatal Completion)}

/-- Where no request is worked on, the listeners are those of the handler. -/
theorem registry_of_resting (h : Phase.task? c.phase = none) :
    c.registry = (c.handler.map Handler.registry).getD ∅ := by
  rw [Connection.registry]
  cases hphase : c.phase with
  | running task =>
      rw [hphase] at h
      exact nomatch h
  | waiting task held =>
      rw [hphase] at h
      exact nomatch h
  | _ => rfl

/-- While a request is worked on, the listeners are those that its task tracks. -/
theorem registry_of_tracks (h : Phase.task? c.phase = some task)
    (htracks : task.Tracks Handler.EndsWith registry) : c.registry = registry := by
  rw [Connection.registry]
  cases hphase : c.phase with
  | running task' =>
      rw [hphase] at h
      obtain rfl : task' = task := Option.some.inj h
      cases task' with
      | done result =>
          cases result with
          | ok completion => exact htracks.1
          | error reason => exact (show registry = ∅ from htracks).symm
      | call owned request next => exact htracks.1
      | aside next => exact htracks.1.symm
  | waiting task' held =>
      rw [hphase] at h
      obtain rfl : task' = task := Option.some.inj h
      cases task' with
      | done result =>
          cases result with
          | ok completion => exact htracks.1
          | error reason => exact (show registry = ∅ from htracks).symm
      | call owned request next => exact htracks.1
      | aside next => exact htracks.1.symm
  | _ =>
      rw [hphase] at h
      exact nomatch h

end Registry

section Holds

variable {phase : Phase}

/-- A connection that works on a request still holds its listeners. -/
theorem holds_of_task {task : Task (Except Fatal Completion)} (h : Phase.task? phase = some task) :
    Phase.Holds phase := by
  cases phase with
  | running task => trivial
  | waiting task held => trivial
  | _ => exact nomatch h

/-- No request is worked on once the listeners are being given up. -/
theorem task?_of_not_holds (h : ¬ Phase.Holds phase) : Phase.task? phase = none := by
  cases htask : Phase.task? phase with
  | none => rfl
  | some task => exact absurd (holds_of_task htask) h

/-- A connection that holds its listeners is not taking them off. -/
theorem removal?_of_holds (h : Phase.Holds phase) : Phase.removal? phase = none := by
  cases phase with
  | leaving task ending => exact h.elim
  | abandoned task => exact h.elim
  | _ => rfl

/-- A connection that takes its listeners off no longer holds them. -/
theorem not_holds_of_removal {task : Task Unit} (h : Phase.removal? phase = some task) :
    ¬ Phase.Holds phase :=
  fun hholds => nomatch (removal?_of_holds hholds).symm.trans h

/-- A call is made for a request, or to take a listener off. -/
theorem call?_cases {q : Call} (h : Phase.call? phase = some q) :
    (∃ owned next, Phase.task? phase = some (.call owned q next)) ∨
      ∃ owned next, Phase.removal? phase = some (.call owned q next) := by
  unfold Phase.call? at h
  split at h
  · obtain rfl := Option.some.inj h
    exact .inl ⟨_, _, rfl⟩
  · obtain rfl := Option.some.inj h
    exact .inl ⟨_, _, rfl⟩
  · obtain rfl := Option.some.inj h
    exact .inr ⟨_, _, rfl⟩
  · obtain rfl := Option.some.inj h
    exact .inr ⟨_, _, rfl⟩
  · exact nomatch h

/-- Listeners are still held while the buffer is written out. -/
theorem holds_of_flushes {next : AfterFlush} (h : Phase.Flushes phase next) :
    Phase.Holds phase := by
  cases h with
  | writing => trivial
  | syncing => trivial

variable (c : Connection) (next : AfterFlush) (reason : String)

/-- Nothing that follows a flush begins to give listeners up. -/
theorem holds_afterFlush : Phase.Holds (c.afterFlush next).phase := by
  cases next with
  | _ => trivial

/-- A flush begins with all listeners held. -/
theorem holds_flush : Phase.Holds (c.flush next).phase := by
  rw [flush]
  split
  · exact holds_afterFlush _ next
  · trivial

/-- A flush that fails leaves all listeners held: the writer is shut down first. -/
theorem holds_flushFailed : Phase.Holds (c.flushFailed reason next).phase := by
  cases next with
  | shutDown ending => trivial
  | _ => exact holds_flush _ _

end Holds

/-- The store changes only by a call that the connection makes. -/
theorem Steps.store_cases {client : Nat} {s : Store Subscriber} {c : Connection} {m : Move}
    {p : Progress} (hstep : Steps client s c m p) :
    p.store = s ∨ ∃ q instead, Phase.call? c.phase = some q ∧
      p.store = (s.react client q instead).store := by
  cases hstep with
  | answer hphase => exact .inr ⟨_, _, hphase ▸ rfl, rfl⟩
  | answerWaiting hphase => exact .inr ⟨_, _, hphase ▸ rfl, rfl⟩
  | answerLeaving hphase => exact .inr ⟨_, _, hphase ▸ rfl, rfl⟩
  | answerAbandoned hphase => exact .inr ⟨_, _, hphase ▸ rfl, rfl⟩
  | _ => exact .inl rfl

/-- A connection that holds listeners can be dropped. -/
theorem abandon_of_holds {c : Connection} (h : Phase.Holds c.phase) : c.abandon =
    some { c with handler := none, phase := .abandoned (Handler.unlistenEach c.registry.ids) } := by
  rw [abandon]
  split
  · rename_i hphase
    exact (hphase ▸ h).elim
  · rename_i hphase
    exact (hphase ▸ h).elim
  · rfl

/-! ### The invariant -/

/-- Whether the store has registered for a connection what the connection holds. -/
structure Registered (s : Store Subscriber) (client : Nat) (c : Connection) : Prop where
  /-- The listeners in the store are those of the connection. -/
  listeners : Phase.Holds c.phase → s.Registers client c.registry
  /-- A task that the handler is away with changes them along with its calls. -/
  task : ∀ task, Phase.task? c.phase = some task →
    c.handler = none ∧ task.Tracks Handler.EndsWith c.registry
  /-- A handler is a subscriber while it has channels. -/
  handler : ∀ handler, c.handler = some handler → handler.Proper
  /-- The handler goes when the listeners are given up. -/
  left : ¬ Phase.Holds c.phase → c.handler = none
  /-- Nobody else's listeners are taken off in the end. -/
  removal : ∀ task, Phase.removal? c.phase = some task →
    ∃ ids, task = Handler.unlistenEach ids ∧ ∀ id ∈ ids, s.Belongs client id

namespace Registered

variable {s : Store Subscriber} {client : Nat} {c c' : Connection} {registry : Registry}
  {handler : Option Handler}

/-- Where no request is worked on and the listeners are not given up, the handler has them. -/
theorem of_resting (h : s.Registers client registry)
    (hregistry : (handler.map Handler.registry).getD ∅ = registry)
    (hproper : ∀ h, handler = some h → h.Proper) (hrests : Rests handler c')
    (hholds : Phase.Holds c'.phase) : Registered s client c' where
  listeners := fun _ => by
    rw [registry_of_resting hrests.task?_eq, hrests.handler_eq, hregistry]
    exact h
  task := fun _ heq => nomatch hrests.task?_eq.symm.trans heq
  handler := fun handler heq => hproper handler (hrests.handler_eq ▸ heq)
  left := fun hc' => absurd hholds hc'
  removal := fun _ heq => nomatch (removal?_of_holds hholds).symm.trans heq

/-- A step that works on no request and leaves the handler as it is. -/
theorem of_rests (h : Registered s client c) (hholds : Phase.Holds c.phase)
    (htask : Phase.task? c.phase = none) (hrests : Rests c.handler c')
    (hholds' : Phase.Holds c'.phase) : Registered s client c' :=
  of_resting (h.listeners hholds) (registry_of_resting htask).symm h.handler hrests hholds'

/-- While a request is worked on, its task has the listeners. -/
theorem of_task {task : Task (Except Fatal Completion)} (h : s.Registers client registry)
    (htracks : task.Tracks Handler.EndsWith registry) (hhandler : c'.handler = none)
    (htask : Phase.task? c'.phase = some task) : Registered s client c' := by
  have hregistry := registry_of_tracks htask htracks
  have hholds := holds_of_task htask
  refine ⟨fun _ => hregistry.symm ▸ h, fun task' heq => ?_, fun handler heq => ?_,
    fun hc' => absurd hholds hc', fun _ heq => ?_⟩
  · obtain rfl := Option.some.inj (htask.symm.trans heq)
    exact ⟨hhandler, hregistry.symm ▸ htracks⟩
  · exact nomatch hhandler.symm.trans heq
  · exact nomatch (removal?_of_holds hholds).symm.trans heq

/-- A task goes on with the same listeners. -/
theorem of_same_task {task task' : Task (Except Fatal Completion)} (h : Registered s client c)
    (htask : Phase.task? c.phase = some task)
    (htracks : task'.Tracks Handler.EndsWith c.registry) (hhandler : c'.handler = c.handler)
    (htask' : Phase.task? c'.phase = some task') : Registered s client c' :=
  of_task (h.listeners (holds_of_task htask)) htracks (hhandler.trans (h.task _ htask).1) htask'

/-- The call that a task waits for is answered: the store and the registry change together. -/
theorem of_answer {owned : Registry} {q : Call}
    {next : q.Answer → Task (Except Fatal Completion)} {instead : (q : Call) → Option q.Answer}
    (h : Registered s client c) (htask : Phase.task? c.phase = some (.call owned q next))
    (hhonest : Honest instead) (hhandler : c'.handler = c.handler)
    (htask' : Phase.task? c'.phase = some (next (s.react client q (instead q)).answer)) :
    Registered (s.react client q (instead q)).store client c' := by
  obtain ⟨hnone, -, hnext⟩ := h.task _ htask
  obtain ⟨registry', hturns, htracks⟩ := hnext (s.react client q (instead q)).answer
  have hregisters := (h.listeners (holds_of_task htask)).react hhonest hturns
  exact of_task hregisters htracks (hhandler.trans hnone) htask'

/-- A computation of a task is over. No listeners are owned meanwhile. -/
theorem of_aside {next : Task (Except Fatal Completion)} (h : Registered s client c)
    (htask : Phase.task? c.phase = some (.aside next)) (hhandler : c'.handler = c.handler)
    (htask' : Phase.task? c'.phase = some next) : Registered s client c' := by
  obtain ⟨-, hempty, htracks⟩ := h.task _ htask
  exact h.of_same_task htask (hempty ▸ htracks) hhandler htask'

/-- A request that is answered installs the handler that its task has led to. -/
theorem of_completion {completion : Completion} (h : Registered s client c)
    (htask : Phase.task? c.phase = some (.done (.ok completion)))
    (hrests : Rests (some completion.handler) c') (hholds : Phase.Holds c'.phase) :
    Registered s client c' := by
  obtain ⟨-, hregistry, hproper⟩ := h.task _ htask
  have hmap : ((some completion.handler).map Handler.registry).getD ∅ = c.registry := hregistry
  refine of_resting (h.listeners (holds_of_task htask)) hmap ?_ hrests hholds
  exact fun handler heq => Option.some.inj heq ▸ hproper

/-- A request that fails for good leaves no listeners behind. -/
theorem of_fatal {reason : Fatal} (h : Registered s client c)
    (htask : Phase.task? c.phase = some (.done (.error reason))) :
    Registered s client (c.fail reason) := by
  obtain ⟨hhandler, hempty⟩ := h.task _ htask
  have hmap : (c.handler.map Handler.registry).getD ∅ = c.registry := by
    rw [hhandler]
    exact Eq.symm hempty
  exact of_resting (h.listeners (holds_of_task htask)) hmap h.handler (rests_fail c reason)
    (holds_flush _ _)

/-- Once all listeners are given up, nothing is left to be shown. -/
theorem of_ended {ending : Ending} (hhandler : c.handler = none) :
    Registered s client { c with phase := .ended ending } where
  listeners := False.elim
  task := fun _ heq => nomatch heq
  handler := fun _ heq => nomatch hhandler.symm.trans heq
  left := fun _ => hhandler
  removal := fun _ heq => nomatch heq

/-- Listeners of the connection begin to be taken off. -/
theorem of_removal {ids : List ListenerId} (hbelongs : ∀ id ∈ ids, s.Belongs client id)
    (hhandler : c'.handler = none)
    (hremoval : Phase.removal? c'.phase = some (Handler.unlistenEach ids)) :
    Registered s client c' := by
  have hholds := not_holds_of_removal hremoval
  refine ⟨fun hc' => absurd hc' hholds, fun _ heq => absurd (holds_of_task heq) hholds,
    fun _ heq => (nomatch hhandler.symm.trans heq), fun _ => hhandler, fun task heq => ?_⟩
  exact ⟨ids, Option.some.inj (heq.symm.trans hremoval), hbelongs⟩

/-- A connection that is over gives its listeners up, if it has any. -/
theorem of_leave {ending : Ending} (h : Registered s client c)
    (hphase : c.phase = .shuttingDown ending) : Registered s client (c.leave ending).1 := by
  have hregisters := h.listeners (hphase ▸ trivial)
  rw [registry_of_resting (hphase ▸ rfl)] at hregisters
  rw [leave]
  cases hhandler : c.handler with
  | none => exact of_ended hhandler
  | some handler =>
      rw [hhandler] at hregisters
      exact of_removal hregisters.belongs_ids rfl rfl

/-- A connection that is dropped gives up what it holds. -/
theorem of_abandon (h : Registered s client c) : Registered s client
    { c with handler := none, phase := .abandoned (Handler.unlistenEach c.registry.ids) } := by
  refine of_removal (fun id hid => ?_) rfl rfl
  by_cases hholds : Phase.Holds c.phase
  · exact (h.listeners hholds).belongs_ids id hid
  · have hempty : c.registry = ∅ := by
      rw [registry_of_resting (task?_of_not_holds hholds), h.left hholds]
      rfl
    rw [hempty] at hid
    obtain ⟨channel, hid⟩ := Registry.mem_ids.mp hid
    exact nomatch Std.ExtTreeMap.getElem?_empty.symm.trans hid

/-- One listener has been taken off, or not. -/
theorem of_answer_removal {owned : Registry} {q : Call} {next : q.Answer → Task Unit}
    {instead : Option q.Answer} (h : Registered s client c)
    (hremoval : Phase.removal? c.phase = some (.call owned q next))
    (hhandler : c'.handler = c.handler)
    (hremoval' : Phase.removal? c'.phase = some (next (s.react client q instead).answer)) :
    Registered (s.react client q instead).store client c' := by
  obtain ⟨ids, hcall, hbelongs⟩ := h.removal _ hremoval
  cases ids with
  | nil => exact nomatch hcall
  | cons id ids =>
      change _ = Task.call ∅ (.unlisten id) fun _ => Handler.unlistenEach ids at hcall
      cases hcall
      have hgone := h.left (not_holds_of_removal hremoval)
      exact of_removal (fun id' hid' => (hbelongs id' (List.mem_cons_of_mem _ hid')).react)
        (hhandler.trans hgone) hremoval'

variable {m : Move} {p : Progress}

/-- Every step keeps what the store has registered and what the connection holds together. -/
theorem step (h : Registered s client c) (hstep : Steps client s c m p) (hhonest : m.IsHonest) :
    Registered p.store client p.connection := by
  have hpolls : c.Polls → Phase.Holds c.phase ∧ Phase.task? c.phase = none := by
    rintro (hphase | ⟨hphase, -⟩)
    · exact hphase ▸ ⟨trivial, rfl⟩
    · exact hphase ▸ ⟨trivial, rfl⟩
  cases hstep with
  | finished hphase _ =>
      exact h.of_rests (hphase ▸ trivial) (hphase ▸ rfl) (rests_flush { c with state := .closed } _)
        (holds_flush _ _)
  | turn hphase _ _ =>
      exact h.of_rests (hphase ▸ trivial) (hphase ▸ rfl) ⟨rfl, rfl⟩ trivial
  | turnFlush hphase _ _ =>
      exact h.of_rests (hphase ▸ trivial) (hphase ▸ rfl) (rests_flush c _) (holds_flush _ _)
  | @request request _ handler hphase _ hhandler =>
      obtain ⟨hholds, htask⟩ := hpolls hphase
      have hregistry : c.registry = handler.registry := by
        rw [registry_of_resting htask, hhandler]
        rfl
      have htracks := Handler.tracks_handle request (h.handler handler hhandler)
      exact of_task (hregistry ▸ h.listeners hholds) htracks rfl rfl
  | @orphan _ reader hphase _ _ =>
      exact h.of_rests (hpolls hphase).1 (hpolls hphase).2 (rests_fail { c with reader } _)
        (holds_flush _ _)
  | endOfInput hphase _ =>
      exact h.of_rests (hpolls hphase).1 (hpolls hphase).2 ⟨rfl, rfl⟩ trivial
  | @readError _ reader hphase _ =>
      exact h.of_rests (hpolls hphase).1 (hpolls hphase).2 (rests_fail { c with reader } _)
        (holds_flush _ _)
  | @nothing reader hphase _ =>
      exact h.of_rests (hphase ▸ trivial) (hphase ▸ rfl) (rests_flush { c with reader } _)
        (holds_flush _ _)
  | more hphase _ _ _ =>
      exact h.of_rests (hphase ▸ trivial) (hphase ▸ rfl) ⟨rfl, hphase ▸ rfl⟩ (hphase ▸ trivial)
  | @message d mailbox hphase _ =>
      have hturn := (puts_deliver { c with mailbox, phase := .turn } d).phase_eq
      exact h.of_rests (hphase ▸ trivial) (hphase ▸ rfl)
        ⟨handler_deliver _ d, congrArg Phase.task? hturn⟩ (hturn ▸ trivial)
  | overBudget hphase _ =>
      exact h.of_rests (hphase ▸ trivial) (hphase ▸ rfl)
        (rests_flush { c with autoRead := false } _) (holds_flush _ _)
  | settled hphase _ =>
      exact h.of_rests (hphase ▸ trivial) (hphase ▸ rfl) ⟨rfl, rfl⟩ trivial
  | fatal hphase => exact h.of_fatal (congrArg Phase.task? hphase)
  | answered hphase => exact h.of_completion (congrArg Phase.task? hphase) ⟨rfl, rfl⟩ trivial
  | fatalWaiting hphase => exact h.of_fatal (congrArg Phase.task? hphase)
  | @answeredWaiting completion held hphase =>
      have hrests := rests_flush (c.resume held completion).1 .settle
      rw [handler_resume] at hrests
      exact h.of_completion (congrArg Phase.task? hphase) hrests (holds_flush _ _)
  | left hphase => exact of_ended (h.left (hphase ▸ id))
  | dropped hphase => exact of_ended (h.left (hphase ▸ id))
  | answer hphase => exact h.of_answer (congrArg Phase.task? hphase) hhonest rfl rfl
  | answerWaiting hphase => exact h.of_answer (congrArg Phase.task? hphase) hhonest rfl rfl
  | answerLeaving hphase =>
      exact h.of_answer_removal (congrArg Phase.removal? hphase) rfl rfl
  | answerAbandoned hphase =>
      exact h.of_answer_removal (congrArg Phase.removal? hphase) rfl rfl
  | computed hphase => exact h.of_aside (congrArg Phase.task? hphase) rfl rfl
  | computedWaiting hphase => exact h.of_aside (congrArg Phase.task? hphase) rfl rfl
  | suspend hphase _ =>
      have htask := congrArg Phase.task? hphase
      exact h.of_same_task htask (h.task _ htask).2 rfl rfl
  | hold hphase _ _ =>
      have htask := congrArg Phase.task? hphase
      exact h.of_same_task htask (h.task _ htask).2 rfl rfl
  | @accept n chunk behind next hphase _ =>
      have hflushes := Stream.flushes_rest (chunk.drop n) behind next
      exact h.of_rests (hphase ▸ trivial) (hphase ▸ rfl) ⟨rfl, task?_of_flushes hflushes⟩
        (holds_of_flushes hflushes)
  | acceptNothing hphase =>
      exact h.of_rests (hphase ▸ trivial) (hphase ▸ rfl) (rests_flushFailed c _ _)
        (holds_flushFailed _ _ _)
  | @sync next hphase =>
      exact h.of_rests (hphase ▸ trivial) (hphase ▸ rfl) (rests_afterFlush c _)
        (holds_afterFlush c _)
  | refuseWriting hphase =>
      exact h.of_rests (hphase ▸ trivial) (hphase ▸ rfl) (rests_flushFailed c _ _)
        (holds_flushFailed _ _ _)
  | refuseSyncing hphase =>
      exact h.of_rests (hphase ▸ trivial) (hphase ▸ rfl) (rests_flushFailed c _ _)
        (holds_flushFailed _ _ _)
  | refuseShutDown hphase => exact h.of_leave hphase
  | shutDown hphase => exact h.of_leave hphase
  | arrive a => exact ⟨h.listeners, h.task, h.handler, h.left, h.removal⟩
  | abandon _ => exact h.of_abandon

/-- A new connection has no listeners. -/
theorem new (settings : Settings)
    (hnone : ∀ (id : ListenerId) listener, s.listeners[id]? = some listener →
      listener.target.client ≠ client) :
    Registered s client (Connection.new settings) := by
  have hregisters : s.Registers client ∅ := by
    intro id listener
    refine iff_of_false (fun h => hnone id listener h.1 h.2) ?_
    rintro ⟨channel, hid, -⟩
    exact nomatch Std.ExtTreeMap.getElem?_empty.symm.trans hid
  have hproper : ∀ handler, some Handler.normal = some handler → handler.Proper :=
    fun handler heq => Option.some.inj heq ▸ Handler.proper_normal
  have hrests : Rests (some .normal) (Connection.new settings) := ⟨rfl, rfl⟩
  refine of_resting hregisters ?_ hproper hrests trivial
  rfl

/-- Messages that are put into the mailbox do not concern the listeners. -/
theorem postEach (h : Registered s client c) (ds : List Delivery) :
    Registered s client (c.postEach ds).1 := by
  obtain ⟨mailbox, hposted⟩ := c.postEach_eq ds
  rw [hposted]
  exact ⟨h.listeners, h.task, h.handler, h.left, h.removal⟩

/-- A call of the connection takes off no listener but its own. -/
theorem minds {q : Call} (h : Registered s client c) (hcall : Phase.call? c.phase = some q) :
    q.Minds s client := by
  cases q with
  | unlisten id =>
      rcases call?_cases hcall with ⟨owned, next, htask⟩ | ⟨owned, next, hremoval⟩
      · obtain ⟨-, -, hnext⟩ := h.task _ htask
        obtain ⟨registry', ⟨channel, hid, -⟩, -⟩ := hnext (.ok ())
        exact (h.listeners (holds_of_task htask)).belongs hid
      · obtain ⟨ids, hcalls, hbelongs⟩ := h.removal _ hremoval
        cases ids with
        | nil => exact nomatch hcalls
        | cons id' ids =>
            change _ = Task.call ∅ (.unlisten id') fun _ => Handler.unlistenEach ids at hcalls
            cases hcalls
            exact hbelongs id (List.mem_cons_self ..)
  | _ => trivial

/-- What another connection does that minds its own listeners. -/
theorem react_other {other : Nat} {q : Call} {instead : Option q.Answer}
    (h : Registered s client c) (hne : client ≠ other) (hminds : q.Minds s other) :
    Registered (s.react other q instead).store client c where
  listeners := fun hholds => (h.listeners hholds).react_other hne hminds
  task := h.task
  handler := h.handler
  left := h.left
  removal := fun task htask => by
    obtain ⟨ids, heq, hbelongs⟩ := h.removal task htask
    exact ⟨ids, heq, fun id hid => (hbelongs id hid).react⟩

end Registered

/-! ### Listeners that are taken off -/

/-- A connection that has been dropped takes these listeners off, and the store has no others of
it. -/
structure Removing (s : Store Subscriber) (client : Nat) (ids : List ListenerId)
    (c : Connection) : Prop where
  /-- What is left to be done. -/
  phase : c.phase = .abandoned (Handler.unlistenEach ids) ∨
    ids = [] ∧ c.phase = .ended .dropped
  /-- What is left in the store. -/
  listeners : ∀ (id : ListenerId) listener, s.listeners[id]? = some listener →
    listener.target.client = client → id ∈ ids

namespace Removing

variable {s : Store Subscriber} {client : Nat} {ids : List ListenerId} {c : Connection}

/-- Dropping a connection begins with all its listeners. -/
theorem of_registers {c' : Connection} (h : s.Registers client c.registry)
    (hphase : c'.phase = .abandoned (Handler.unlistenEach c.registry.ids)) :
    Removing s client c.registry.ids c' :=
  ⟨.inl hphase, h.hasOnly⟩

/-- Messages that are put into the mailbox of a dropped connection take no listener off. -/
theorem postEach (h : Removing s client ids c) (ds : List Delivery) :
    Removing s client ids (c.postEach ds).1 := by
  obtain ⟨mailbox, hposted⟩ := c.postEach_eq ds
  rw [hposted]
  exact ⟨h.phase, h.listeners⟩

/-- Nobody else registers listeners for the connection. -/
theorem react_other {other : Nat} {q : Call} {instead : Option q.Answer}
    (h : Removing s client ids c) (hne : client ≠ other) :
    Removing (s.react other q instead).store client ids c :=
  ⟨h.phase, Store.HasOnly.react_other h.listeners hne⟩

/-- The first listener is taken off. -/
theorem unlisten {id : ListenerId} (h : Removing s client (id :: ids) c) :
    Removing (s.unlisten id) client ids
      { c with phase := .abandoned (Handler.unlistenEach ids) } :=
  ⟨.inl rfl, Store.HasOnly.unlisten h.listeners⟩

/-- A dropped connection no longer holds its listeners. -/
theorem not_holds (h : Removing s client ids c) : ¬ Phase.Holds c.phase := by
  rcases h.phase with hphase | ⟨-, hphase⟩
  · exact hphase ▸ id
  · exact hphase ▸ id

/-- A call that is answered takes one listener off; no other step takes or registers any. -/
theorem step {m : Move} {p : Progress} (h : Removing s client ids c)
    (hstep : Steps client s c m p) (hunlistens : m.Unlistens) :
    Removing p.store client (ids.drop m.answers) p.connection := by
  have hpolls : ¬ c.Polls := by
    rintro (hphase | ⟨hphase, -⟩)
    · exact h.not_holds (hphase ▸ trivial)
    · exact h.not_holds (hphase ▸ trivial)
  cases hstep with
  | @answerAbandoned instead owned q next hphase =>
      rcases h.phase with hremoval | ⟨-, hended⟩
      · cases ids with
        | nil => exact nomatch hphase.symm.trans hremoval
        | cons id ids =>
            have hcall := Phase.abandoned.inj (hphase.symm.trans hremoval)
            change _ = Task.call ∅ (.unlisten id) fun _ => Handler.unlistenEach ids at hcall
            cases hcall
            rw [hunlistens id]
            exact h.unlisten
      · exact nomatch hphase.symm.trans hended
  | dropped hphase =>
      rcases h.phase with hremoval | ⟨-, hended⟩
      · cases ids with
        | nil => exact ⟨.inr ⟨rfl, rfl⟩, h.listeners⟩
        | cons id ids => exact nomatch hphase.symm.trans hremoval
      · exact nomatch hphase.symm.trans hended
  | arrive a => exact ⟨h.phase, h.listeners⟩
  | abandon hpresent =>
      rcases h.phase with hremoval | ⟨-, hended⟩
      · exact absurd hremoval (hpresent.1 _)
      · exact absurd hended (hpresent.2 _)
  | left hphase =>
      rcases h.phase with hremoval | ⟨-, hended⟩
      · exact nomatch hphase.symm.trans hremoval
      · exact nomatch hphase.symm.trans hended
  | answerLeaving hphase =>
      rcases h.phase with hremoval | ⟨-, hended⟩
      · exact nomatch hphase.symm.trans hremoval
      · exact nomatch hphase.symm.trans hended
  | request hphase _ _ => exact absurd hphase hpolls
  | orphan hphase _ _ => exact absurd hphase hpolls
  | endOfInput hphase _ => exact absurd hphase hpolls
  | readError hphase _ => exact absurd hphase hpolls
  | _ =>
      have hphase := ‹c.phase = _›
      exact absurd (hphase ▸ trivial) h.not_holds

/-- As long as listeners are left, the next one can be taken off. -/
theorem exists_answer (h : Removing s client ids c) (hids : ids ≠ []) :
    ∃ p, c.step client s (.answer fun _ => none) = some p := by
  rcases h.phase with hphase | ⟨hnil, -⟩
  · cases ids with
    | nil => exact absurd rfl hids
    | cons id ids =>
        rw [Connection.step, Connection.answer, hphase]
        exact ⟨_, rfl⟩
  · exact absurd hnil hids

end Removing

end Connection

/-! ### Runs -/

namespace Server

/-- Whether the store has registered for every connection what the connection holds. -/
def Registered (y : Server) : Prop :=
  ∀ (j : Nat) c, y.connections[j]? = some c → c.Registered y.store j

/-- Every step of every connection keeps all listeners right. -/
theorem Registered.step {y y' : Server} {i : Nat} {m : Move} {log : Log} (h : y.Registered)
    (hhonest : m.IsHonest) (hstep : y.step i m = some (y', log)) : y'.Registered := by
  intro j c' hc'
  obtain ⟨c, p, moved, ds, hc, hp, hstore, rfl, -, hmoved⟩ := step_at hstep hc'
  have hsteps := Connection.steps_of_step hp
  rw [hstore]
  refine Connection.Registered.postEach ?_ ds
  rcases hmoved with ⟨rfl, rfl⟩ | ⟨hij, hmoved⟩
  · exact (h i c hc).step hsteps hhonest
  · rcases hsteps.store_cases with hsame | ⟨q, instead, hcall, hreact⟩
    · exact hsame ▸ h j moved hmoved
    · exact hreact ▸ (h j moved hmoved).react_other (Ne.symm hij) ((h i c hc).minds hcall)

/-- In every run of new connections over a store that has no listeners of theirs, all listeners are
right. -/
theorem registered_of_run {y y' : Server} {moves : List (Nat × Move)} {log : Log}
    (hnew : ∀ c ∈ y.connections, ∃ settings, c = Connection.new settings)
    (hstore : ∀ (id : ListenerId) listener, y.store.listeners[id]? = some listener →
      y.connections.length ≤ listener.target.client)
    (hhonest : ∀ move ∈ moves, move.2.IsHonest) (hrun : y.run moves = some (y', log)) :
    y'.Registered := by
  refine run_induction (R := fun _ m => m.IsHonest) (Q := fun _ y _ => y.Registered)
    (fun h hm hstep => h.step hm hstep) ?_ hhonest hrun
  intro j c hc
  obtain ⟨settings, rfl⟩ := hnew c (List.mem_of_getElem? hc)
  have hlt := (List.getElem?_eq_some_iff.mp hc).1
  exact .new settings fun id listener hlistener =>
    Nat.ne_of_gt (Nat.lt_of_lt_of_le hlt (hstore id listener hlistener))

/-- A connection that holds its listeners can be dropped, and begins to take them all off then. -/
theorem exists_abandon {y : Server} {j : Nat} {c : Connection} (hc : y.connections[j]? = some c)
    (hholds : Connection.Phase.Holds c.phase) (h : y.store.Registers j c.registry) :
    ∃ y₁ log₁, y.step j .abandon = some (y₁, log₁) ∧ ∀ c₁, y₁.connections[j]? = some c₁ →
      Connection.Removing y₁.store j c.registry.ids c₁ := by
  have habandon : c.step j y.store .abandon = some ⟨_, y.store, [], []⟩ :=
    congrArg (Option.map _) (Connection.abandon_of_holds hholds)
  obtain ⟨y₁, log₁, hdrop⟩ := exists_step hc habandon
  refine ⟨y₁, log₁, hdrop, fun c₁ hc₁ => ?_⟩
  obtain ⟨_, p, moved, ds, hc', hp, hstore, rfl, -, ⟨-, rfl⟩ | ⟨hne, -⟩⟩ := step_at hdrop hc₁
  · obtain rfl := Option.some.inj (hc.symm.trans hc')
    obtain rfl := Option.some.inj (habandon.symm.trans hp)
    exact hstore ▸ (Connection.Removing.of_registers h rfl).postEach ds
  · exact absurd rfl hne

/-- How many calls of a connection are answered in these moves. -/
def answersOf (j : Nat) (moves : List (Nat × Move)) : Nat :=
  moves.foldl (fun count move => count + if move.1 = j then move.2.answers else 0) 0

/-- A connection that has been dropped takes off one listener after the other, whatever others
do. -/
theorem removing_of_run {y y' : Server} {moves : List (Nat × Move)} {log : Log} {j : Nat}
    {ids : List ListenerId}
    (h : ∀ c, y.connections[j]? = some c → Connection.Removing y.store j ids c)
    (hunlistens : ∀ move ∈ moves, move.1 = j → move.2.Unlistens)
    (hrun : y.run moves = some (y', log)) :
    ∀ c, y'.connections[j]? = some c →
      Connection.Removing y'.store j (ids.drop (answersOf j moves)) c := by
  refine run_induction (R := fun i m => i = j → m.Unlistens)
    (Q := fun made y _ => ∀ c, y.connections[j]? = some c →
      Connection.Removing y.store j (ids.drop (answersOf j made)) c) ?_ h hunlistens hrun
  intro made y y' i m before log h hm hstep c' hc'
  obtain ⟨c, p, moved, ds, hc, hp, hstore, rfl, -, hmoved⟩ := step_at hstep hc'
  have hsteps := Connection.steps_of_step hp
  have hanswers : answersOf j (made ++ [(i, m)]) =
      answersOf j made + if i = j then m.answers else 0 := by
    simp [answersOf]
  rw [hstore, hanswers, ← List.drop_drop]
  refine Connection.Removing.postEach ?_ ds
  rcases hmoved with ⟨rfl, rfl⟩ | ⟨hij, hmoved⟩
  · rw [if_pos rfl]
    exact (h c hc).step hsteps (hm rfl)
  · rw [if_neg hij, List.drop_zero]
    rcases hsteps.store_cases with hsame | ⟨q, instead, -, hreact⟩
    · exact hsame ▸ h moved hmoved
    · exact hreact ▸ (h moved hmoved).react_other (Ne.symm hij)

/-- An empty store has no listeners, so it has none of any connection. -/
theorem listeners_of_empty {y : Server} (h : y.store = .empty) :
    ∀ (id : ListenerId) listener, y.store.listeners[id]? = some listener →
      y.connections.length ≤ listener.target.client := by
  intro id listener hlistener
  rw [h] at hlistener
  cases Std.ExtTreeMap.getElem?_empty.symm.trans hlistener

/-- **The store's listeners are those that connections hold.** New connections over a store that has
no listeners of theirs, and any run of them. A call about listeners may fail at any time and may
have to be waited for, but it never claims to have done what it has not done. Of each connection
that has not begun to give its listeners up, whether it rests or works on a request, this holds:

* The store has one listener of it for each channel of its registry, with the number that stands
  there, for that very channel, and has no others.
* A handler that is there has that registry, and is a subscriber if and only if the registry is not
  empty. The handler is there unless a request is worked on or the connection is about to end.
* The connection can be dropped. Whatever happens behind that, its listeners are taken off one
  after the other, as long as taking them off does not fail: after `n` answers only those behind
  the first `n` can be left, and the next answer can always come. -/
theorem listeners_agree {y y' : Server} {moves : List (Nat × Move)} {log : Log} {j : Nat}
    {c : Connection} (hnew : ∀ c ∈ y.connections, ∃ settings, c = Connection.new settings)
    (hstore : ∀ (id : ListenerId) listener, y.store.listeners[id]? = some listener →
      y.connections.length ≤ listener.target.client)
    (hhonest : ∀ move ∈ moves, move.2.IsHonest) (hrun : y.run moves = some (y', log))
    (hc : y'.connections[j]? = some c) (hholds : Connection.Phase.Holds c.phase) :
    (∀ (id : ListenerId) listener,
      y'.store.listeners[id]? = some listener ∧ listener.target.client = j ↔
        ∃ channel, c.registry[channel]? = some id ∧ listener = ⟨.exact channel, ⟨j, channel⟩⟩) ∧
    (∀ handler, c.handler = some handler →
      handler.registry = c.registry ∧ (handler.isSubscriber = true ↔ c.registry ≠ ∅)) ∧
    (Connection.Phase.closing? c.phase = none →
      (c.handler = none ↔ ∃ task, Connection.Phase.task? c.phase = some task)) ∧
    ∃ y₁ log₁, y'.step j .abandon = some (y₁, log₁) ∧
      ∀ behind y₂ log₂, (∀ move ∈ behind, move.1 = j → move.2.Unlistens) →
        y₁.run behind = some (y₂, log₂) →
        (∀ (id : ListenerId) listener, y₂.store.listeners[id]? = some listener →
          listener.target.client = j → id ∈ c.registry.ids.drop (answersOf j behind)) ∧
        (answersOf j behind < c.registry.ids.length →
          ∃ y₃ log₃, y₂.step j (.answer fun _ => none) = some (y₃, log₃)) := by
  have h := registered_of_run hnew hstore hhonest hrun j c hc
  have hinstalled : c.Installed :=
    run_invariant_new (P := fun c _ => c.Installed)
      (fun h hstep => h.step (Connection.steps_of_step hstep)) (fun _ _ d h => h.post d) hnew .new
      hrun j c hc
  refine ⟨h.listeners hholds, fun handler hhandler => ?_, fun hopen => ⟨fun hnone => ?_, ?_⟩, ?_⟩
  · have htask : Connection.Phase.task? c.phase = none := by
      refine Option.eq_none_iff_forall_ne_some.mpr fun task htask => ?_
      exact nomatch (h.task task htask).1.symm.trans hhandler
    have hregistry : c.registry = handler.registry := by
      rw [Connection.registry_of_resting htask, hhandler]
      rfl
    exact ⟨hregistry.symm, hregistry ▸ h.handler handler hhandler⟩
  · refine Option.ne_none_iff_exists'.mp fun htask => ?_
    obtain ⟨handler, hhandler⟩ := hinstalled hopen htask
    exact nomatch hnone.symm.trans hhandler
  · rintro ⟨task, htask⟩
    exact (h.task task htask).1
  · obtain ⟨y₁, log₁, hdrop, hstart⟩ := exists_abandon hc hholds (h.listeners hholds)
    refine ⟨y₁, log₁, hdrop, fun behind y₂ log₂ hunlistens hbehind => ?_⟩
    obtain ⟨c₂, hc₂⟩ := exists_connection ((length_run hbehind).trans (length_step hdrop)) hc
    have hremoving := removing_of_run hstart hunlistens hbehind c₂ hc₂
    refine ⟨hremoving.listeners, fun hleft => ?_⟩
    have hids : c.registry.ids.drop (answersOf j behind) ≠ [] :=
      fun hnil => Nat.not_le_of_gt hleft (List.drop_eq_nil_iff.mp hnil)
    obtain ⟨p, hp⟩ := hremoving.exists_answer hids
    exact exists_step hc₂ hp

/-- A client subscribes to two channels, and to the first one twice. The store is slow: one listener
is registered, the other one is being waited for. -/
def subscribing : List (Nat × Move) :=
  [(0, .arrive (.chunk (Bytes.ofString
      "*4\r\n$9\r\nSUBSCRIBE\r\n$1\r\na\r\n$1\r\na\r\n$1\r\nb\r\n"))),
    (0, .proceed), (0, .proceed), (0, .suspend), (0, .answer fun _ => none)]

/-- The hypotheses can be met while a request waits, and a drop then takes the listeners off. -/
theorem listeners_agree_subscribing :
    ∃ y log c, twoClients.run subscribing = some (y, log) ∧ y.connections[0]? = some c ∧
      (∃ task, Connection.Phase.task? c.phase = some task) ∧ c.registry.ids = [0] ∧
      (∀ (id : ListenerId) listener,
        y.store.listeners[id]? = some listener ∧ listener.target.client = 0 ↔
          ∃ channel, c.registry[channel]? = some id ∧ listener = ⟨.exact channel, ⟨0, channel⟩⟩) ∧
      ∃ y₁ log₁, y.step 0 .abandon = some (y₁, log₁) ∧
        ∀ y₂ log₂, y₁.run [(0, .answer fun _ => none)] = some (y₂, log₂) →
          ∀ (id : ListenerId) listener, y₂.store.listeners[id]? = some listener →
            listener.target.client ≠ 0 := by
  have hfacts : (twoClients.run subscribing).map (fun result => result.1.connections[0]?.map
      fun c => ((Connection.Phase.task? c.phase).isSome, c.registry.ids)) =
        some (some (true, [0])) := by
    decide +kernel
  obtain ⟨⟨y, log⟩, hrun, hfacts⟩ := Option.map_eq_some_iff.mp hfacts
  obtain ⟨c, hc, hfacts⟩ := Option.map_eq_some_iff.mp hfacts
  obtain ⟨htask, hids⟩ := Prod.mk.inj hfacts
  obtain ⟨task, htask⟩ := Option.isSome_iff_exists.mp htask
  have hstore : ∀ (id : ListenerId) listener, twoClients.store.listeners[id]? = some listener →
      twoClients.connections.length ≤ listener.target.client :=
    fun _ _ h => nomatch Std.ExtTreeMap.getElem?_empty.symm.trans h
  have hhonest : ∀ move ∈ subscribing, move.2.IsHonest := by
    refine List.forall_mem_cons.mpr ⟨trivial, List.forall_mem_cons.mpr ⟨trivial,
      List.forall_mem_cons.mpr ⟨trivial, List.forall_mem_cons.mpr ⟨trivial,
        List.forall_mem_singleton.mpr ⟨fun _ _ h => (nomatch h), fun _ _ h => (nomatch h)⟩⟩⟩⟩⟩
  obtain ⟨hlisteners, -, -, y₁, log₁, hdrop, hbehind⟩ :=
    listeners_agree new_of_mem_twoClients hstore hhonest hrun hc (Connection.holds_of_task htask)
  refine ⟨y, log, c, hrun, hc, ⟨task, htask⟩, hids, hlisteners, y₁, log₁, hdrop, ?_⟩
  intro y₂ log₂ hanswer id listener hlistener hclient
  have hunlistens : ∀ move ∈ [((0 : Nat), Move.answer fun _ => none)],
      move.1 = 0 → move.2.Unlistens := List.forall_mem_singleton.mpr fun _ _ => rfl
  have hleft := (hbehind _ y₂ log₂ hunlistens hanswer).1 id listener hlistener hclient
  rw [hids] at hleft
  exact nomatch hleft

end Server

end RespStore
