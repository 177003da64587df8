import RespStore.Proofs.Fanout

/-!
# How many messages wait

The mailbox of a connection has room for a fixed number of messages, and a message that finds it
full is lost. While a request waits, messages are taken out of the mailbox and held: they go on
waiting, but they take up no room any more. So the room bounds the messages that wait only where
none are held.

* `Connection.Fits` says that no more messages are in the mailbox than it has room for.
* `Connection.Holding` says that a request waits while its client is subscribed to a channel, and
  `Server.holding_of_publish` that the message of anybody who publishes there is accepted then.
* `Server.backlog_bound` is the main result, about every run of any number of connections.
-/

namespace RespStore

namespace Connection

/-! ### The mailbox -/

/-- Whether the mailbox has room for this many messages, and holds no more. -/
structure Fits (room : Nat) (c : Connection) : Prop where
  /-- The room. -/
  capacity_eq : c.mailbox.capacity = room
  /-- What waits in the mailbox. -/
  length_le : c.mailbox.queued.length ≤ room

namespace Fits

variable {room : Nat} {c : Connection}

/-- A new mailbox is empty. It has room for one message at least. -/
theorem new (settings : Settings) :
    Fits (max settings.queueCapacity 1) (Connection.new settings) :=
  ⟨rfl, Nat.zero_le _⟩

/-- A message is put into the mailbox only where there is room. -/
theorem post (h : Fits room c) (d : Delivery) : Fits room (c.post d).1 := by
  rw [Connection.post]
  split
  · rename_i hroom
    have hfull : c.mailbox.isFull ≠ true := fun hfull => by simp [hfull] at hroom
    have hlt : c.mailbox.queued.length < c.mailbox.capacity := by
      simpa [Mailbox.isFull] using hfull
    rw [Mailbox.offer, if_neg hfull]
    refine ⟨h.capacity_eq, ?_⟩
    rw [List.length_append, List.length_singleton]
    exact h.capacity_eq ▸ hlt
  · exact h

/-- A step takes messages out of the mailbox, if it does anything with them. -/
theorem step {client : Nat} {s : Store Subscriber} {m : Move} {p : Progress} (h : Fits room c)
    (hstep : Steps client s c m p) : Fits room p.connection := by
  obtain ⟨front, hmailbox⟩ := hstep.accounts.mailbox
  obtain ⟨hcapacity, hlength⟩ := h
  rw [hmailbox] at hcapacity hlength
  refine ⟨hcapacity, ?_⟩
  rw [List.length_append] at hlength
  omega

end Fits

/-- A message that is lost found nobody there, or no room. -/
theorem lost_of_post {c : Connection} {d : Delivery} (h : lostOf (c.post d).2 ≠ [])
    (hpresent : c.isPresent = true) : c.mailbox.isFull = true := by
  rw [post, hpresent] at h
  cases hfull : c.mailbox.isFull with
  | true => rfl
  | false =>
      rw [hfull] at h
      exact absurd rfl h

/-- Messages do not make anybody come or go. -/
theorem isPresent_postEach (c : Connection) (ds : List Delivery) :
    (c.postEach ds).1.isPresent = c.isPresent := by
  rw [(postEach_accepted c ds).1]
  rfl

/-- A mailbox that is full stays so when more messages come. -/
theorem isFull_postEach {c : Connection} (ds : List Delivery) (h : c.mailbox.isFull = true) :
    (c.postEach ds).1.mailbox.isFull = true := by
  rw [(postEach_accepted c ds).1]
  have hfull : c.mailbox.capacity ≤ c.mailbox.queued.length := of_decide_eq_true h
  refine decide_eq_true (Nat.le_trans hfull ?_)
  rw [List.length_append]
  exact Nat.le_add_right _ _

/-- Among messages that arrive together, one is lost to a connection that is there only if the
mailbox is full in the end. -/
theorem lost_of_postEach {c : Connection} {ds : List Delivery}
    (h : lostOf (c.postEach ds).2 ≠ []) (hpresent : c.isPresent = true) :
    (c.postEach ds).1.mailbox.isFull = true := by
  induction ds generalizing c with
  | nil => exact absurd rfl h
  | cons d ds ih =>
      change ((c.post d).1.postEach ds).1.mailbox.isFull = true
      have hsame : (c.post d).1.isPresent = c.isPresent := by
        rw [(post_accepted c d).1]
        rfl
      by_cases hrest : lostOf ((c.post d).1.postEach ds).2 = []
      · refine isFull_postEach ds ?_
        have hfirst : lostOf (c.post d).2 ≠ [] := by
          intro hnil
          refine h ?_
          change lostOf ((c.post d).2 ++ ((c.post d).1.postEach ds).2) = []
          rw [lostOf_append, hnil, hrest, List.append_nil]
        have hfull := lost_of_post hfirst hpresent
        exact isFull_postEach [d] hfull
      · exact ih hrest (hsame.trans hpresent)

/-! ### Messages that are held -/

/-- Whether a request of a connection waits for a call, while the connection is subscribed to a
channel. -/
structure Holding (channel : Bytes) (c : Connection) : Prop where
  /-- The request waits. -/
  waits : ∃ task held, c.phase = .waiting task held ∧ ∀ result, task ≠ .done result
  /-- The connection is subscribed. -/
  subscribed : channel ∈ c.registry

/-- Whether a connection is about to publish a message. -/
def Publishes (channel payload : Bytes) (c : Connection) : Prop :=
  ∃ owned next, c.phase = .running (.call owned (.apply channel (.put payload)) next)

section Hold

variable {c : Connection} {channel : Bytes} {task : Task (Except Fatal Completion)}
  {held : List Delivery} {d : Delivery} {rest : List Delivery}

/-- A request that waits owns the listeners. -/
theorem registry_of_waiting (hphase : c.phase = .waiting task held)
    (htask : ∀ result, task ≠ .done result) : c.registry = task.owned := by
  rw [registry, hphase]
  cases task with
  | done result => exact absurd rfl (htask result)
  | _ => rfl

/-- While a request waits, the oldest message can be held. -/
theorem hold_of_waiting (hphase : c.phase = .waiting task held)
    (htask : ∀ result, task ≠ .done result) (hqueued : c.mailbox.queued = d :: rest) :
    c.hold = some ({ c with
      mailbox := { c.mailbox with queued := rest }, phase := .waiting task (held ++ [d]) },
      [.held d]) := by
  rw [hold, hphase]
  cases task with
  | done result => exact absurd rfl (htask result)
  | call owned q next => simp only [Mailbox.take?, hqueued, Option.map_some]
  | aside next => simp only [Mailbox.take?, hqueued, Option.map_some]

end Hold

end Connection

namespace Server

/-- A run leaves no more messages in a mailbox than it has room for. -/
theorem fits_of_run {y y' : Server} {moves : List (Nat × Move)} {log : Log} {j room : Nat}
    {c c' : Connection} (h : c.Fits room) (hc : y.connections[j]? = some c)
    (hrun : y.run moves = some (y', log)) (hc' : y'.connections[j]? = some c') : c'.Fits room :=
  run_invariant_of (P := fun c _ => c.Fits room)
    (fun h hstep => h.step (Connection.steps_of_step hstep)) (fun _ _ d h => h.post d) hc h hrun hc'

section Step

variable {y y' : Server} {i j : Nat} {log : Log} {c : Connection} {channel payload : Bytes}

/-- A message that is held goes on waiting where it was, and takes up no room in the mailbox. -/
theorem hold_of_step (hstep : y.step j .hold = some (y', log)) (hc : y.connections[j]? = some c) :
    ∃ c', y'.connections[j]? = some c' ∧ c'.backlog = c.backlog ∧
      c'.mailbox.capacity = c.mailbox.capacity ∧
      c'.mailbox.queued.length + 1 = c.mailbox.queued.length ∧
      (∀ channel, c.Holding channel → c'.Holding channel) ∧
      ∀ l : Nat, l ≠ j → y'.connections[l]? = y.connections[l]? := by
  obtain ⟨mover, p, hmover, hp, -, hconnections, -⟩ := step_cases hstep
  obtain rfl := Option.some.inj (hc.symm.trans hmover)
  cases Connection.steps_of_step hp with
  | @hold task held d mailbox hphase htask hmailbox =>
      have hsame (l : Nat) : y'.connections[l]? = (y.connections.set j
          { c with mailbox, phase := .waiting task (held ++ [d]) })[l]? :=
        (hconnections l).trans Option.map_id'
      have htaken := Connection.mailbox_of_take hmailbox
      refine ⟨{ c with mailbox, phase := .waiting task (held ++ [d]) }, ?_, ?_, ?_, ?_, ?_, ?_⟩
      · rw [hsame, List.getElem?_set_self (List.getElem?_eq_some_iff.mp hc).1]
      · rw [Connection.backlog, Connection.backlog, hphase, htaken]
        exact (List.append_cons held d mailbox.queued).symm
      · rw [htaken]
      · rw [htaken, List.length_cons]
      · rintro channel ⟨-, hsubscribed⟩
        rw [Connection.registry_of_waiting hphase htask] at hsubscribed
        refine ⟨⟨task, held ++ [d], rfl, htask⟩, ?_⟩
        rw [Connection.registry_of_waiting rfl htask]
        exact hsubscribed
      · intro l hl
        rw [hsame, List.getElem?_set_ne hl.symm]

/-- While a request waits, messages in the mailbox can be held. -/
theorem exists_hold (hc : y.connections[j]? = some c) (hholding : c.Holding channel)
    (hqueued : c.mailbox.queued ≠ []) : ∃ y' log, y.step j .hold = some (y', log) := by
  obtain ⟨⟨task, held, hphase, htask⟩, -⟩ := hholding
  obtain ⟨d, rest, hqueued⟩ := List.exists_cons_of_ne_nil hqueued
  have hp : c.step j y.store .hold = some ⟨_, y.store, [], _⟩ :=
    congrArg (Option.map _) (Connection.hold_of_waiting hphase htask hqueued)
  exact exists_step hc hp

/-- Who is about to publish does not hold messages: a connection makes one call at a time. -/
theorem ne_of_publishes {publisher : Connection} (hc : y.connections[j]? = some c)
    (hholding : c.Holding channel) (hpublisher : y.connections[i]? = some publisher)
    (hpublishes : publisher.Publishes channel payload) : i ≠ j := by
  rintro rfl
  obtain ⟨⟨task, held, hwaits, -⟩, -⟩ := hholding
  obtain ⟨owned, next, hphase⟩ := hpublishes
  obtain rfl := Option.some.inj (hc.symm.trans hpublisher)
  cases hwaits.symm.trans hphase

/-- A message is accepted while a request waits, if there is room. Who else is about to publish
still is. -/
theorem accepts_of_publish (h : y.Listening) (hc : y.connections[j]? = some c)
    (hholding : c.Holding channel) (hroom : c.mailbox.isFull = false) (hpayload : payload ≠ [])
    {publisher : Connection} (hpublisher : y.connections[i]? = some publisher)
    (hpublishes : publisher.Publishes channel payload) :
    ∃ y' log c', y.step i (.answer fun _ => none) = some (y', log) ∧
      y'.connections[j]? = some c' ∧ c'.backlog = c.backlog ++ [⟨channel, payload⟩] ∧
      c'.Holding channel ∧
      ∀ (l : Nat) other, l ≠ i → y.connections[l]? = some other →
        ∃ other', y'.connections[l]? = some other' ∧ other'.phase = other.phase := by
  have hne := (ne_of_publishes hc hholding hpublisher hpublishes).symm
  obtain ⟨owned, next, hphase⟩ := hpublishes
  obtain ⟨⟨task, held, hwaits, htask⟩, hsubscribed⟩ := hholding
  obtain ⟨y', log, hstep⟩ := exists_step (m := .answer fun _ => none) hpublisher
    (by rw [Connection.step, Connection.answer, hphase])
  have hmessage : y.message? i (.answer fun _ => none) = some ⟨channel, payload⟩ := by
    rw [message?, hpublisher, Option.bind_some, Connection.change?, hphase]
    exact if_neg hpayload
  have hhears : y.store.hears j channel = true :=
    ((h.registered j c hc).listeners (hwaits ▸ trivial)).hears_iff.mpr hsubscribed
  have hpresent : c.isPresent = true := by rw [Connection.isPresent, hwaits]
  have haccepted : acceptedOf (notesOf j log) = [⟨channel, payload⟩] := by
    rw [accepted_of_step h hstep hc, hmessage]
    simp [hhears, hpresent, hroom]
  have hc' := connection_of_step hstep hc hne
  rw [haccepted] at hc'
  refine ⟨y', log, _, hstep, hc', ?_, ?_, fun l other hl hother => ?_⟩
  · exact (List.append_assoc _ _ _).symm
  · exact ⟨⟨task, held, hwaits, htask⟩, hsubscribed⟩
  · exact ⟨_, connection_of_step hstep hother hl, rfl⟩

/-- While a request waits, there can always be room for another message. -/
theorem exists_room {room : Nat} (hc : y.connections[j]? = some c) (hfits : c.Fits room)
    (hroom : 0 < room) (hholding : c.Holding channel) :
    ∃ moves y' log c', (∀ move ∈ moves, move.2.IsHonest) ∧ y.run moves = some (y', log) ∧
      y'.connections[j]? = some c' ∧ c'.backlog = c.backlog ∧ c'.Holding channel ∧
      c'.mailbox.isFull = false ∧ ∀ l : Nat, l ≠ j → y'.connections[l]? = y.connections[l]? := by
  obtain ⟨hcapacity, hlength⟩ := hfits
  by_cases hqueued : c.mailbox.queued = []
  · refine ⟨[], y, [], c, List.forall_mem_nil _, rfl, hc, rfl, hholding, ?_, fun _ _ => rfl⟩
    rw [Mailbox.isFull, hqueued, decide_eq_false_iff_not, List.length_nil]
    omega
  · obtain ⟨y', log, hstep⟩ := exists_hold hc hholding hqueued
    obtain ⟨c', hc', hbacklog, hcapacity', hless, hholding', hothers⟩ :=
      hold_of_step hstep hc
    refine ⟨[(j, .hold)], y', log, c', List.forall_mem_singleton.mpr trivial, ?_, hc', hbacklog,
      hholding' channel hholding, ?_, hothers⟩
    · simp [run, hstep]
    · rw [Mailbox.isFull, decide_eq_false_iff_not]
      omega

/-- However many clients are about to publish on a channel, all their messages can be accepted while
a request waits. Induction on the clients: before each of them publishes, the oldest message is
held. -/
theorem all_accepted {room : Nat} {clients : List Nat} (h : y.Listening)
    (hc : y.connections[j]? = some c) (hfits : c.Fits room) (hroom : 0 < room)
    (hholding : c.Holding channel) (hpayload : payload ≠ []) (hnodup : clients.Nodup)
    (hclients : ∀ i ∈ clients, ∃ publisher, y.connections[i]? = some publisher ∧
      publisher.Publishes channel payload) :
    ∃ moves y' log c', (∀ move ∈ moves, move.2.IsHonest) ∧ y.run moves = some (y', log) ∧
      y'.connections[j]? = some c' ∧
      c'.backlog = c.backlog ++ List.replicate clients.length ⟨channel, payload⟩ := by
  induction clients generalizing y c with
  | nil => exact ⟨[], y, [], c, List.forall_mem_nil _, rfl, hc, (List.append_nil _).symm⟩
  | cons i clients ih =>
      obtain ⟨hi, hnodup⟩ := List.nodup_cons.mp hnodup
      obtain ⟨⟨publisher, hpublisher, hpublishes⟩, hclients⟩ := List.forall_mem_cons.mp hclients
      have hij := ne_of_publishes hc hholding hpublisher hpublishes
      obtain ⟨moves₁, y₁, log₁, c₁, hhonest₁, hrun₁, hc₁, hbacklog₁, hholding₁, hfull, hothers₁⟩ :=
        exists_room hc hfits hroom hholding
      have hfits₁ := fits_of_run hfits hc hrun₁ hc₁
      obtain ⟨y₂, log₂, c₂, hstep, hc₂, hbacklog₂, hholding₂, hothers₂⟩ :=
        accepts_of_publish (h.run hhonest₁ hrun₁) hc₁ hholding₁ hfull hpayload
          ((hothers₁ i hij).trans hpublisher) hpublishes
      have hanswer : (Move.answer fun _ => none).IsHonest := by simp [Move.IsHonest, Honest]
      have hrun₂ : y₁.run [(i, .answer fun _ => none)] = some (y₂, log₂) := by simp [run, hstep]
      have hlistening₂ := (h.run hhonest₁ hrun₁).step hanswer hstep
      have hclients₂ : ∀ l ∈ clients, ∃ publisher, y₂.connections[l]? = some publisher ∧
          publisher.Publishes channel payload := by
        intro l hl
        obtain ⟨other, hother, hpublishes'⟩ := hclients l hl
        have hlj := ne_of_publishes hc hholding hother hpublishes'
        have hli : l ≠ i := fun heq => hi (heq ▸ hl)
        obtain ⟨other', hother', hphase⟩ :=
          hothers₂ l other hli ((hothers₁ l hlj).trans hother)
        obtain ⟨owned, next, hcall⟩ := hpublishes'
        exact ⟨other', hother', owned, next, hphase.trans hcall⟩
      obtain ⟨moves₃, y₃, log₃, c₃, hhonest₃, hrun₃, hc₃, hbacklog₃⟩ :=
        ih hlistening₂ hc₂ (fits_of_run hfits₁ hc₁ hrun₂ hc₂) hholding₂ hnodup hclients₂
      refine ⟨moves₁ ++ ([(i, .answer fun _ => none)] ++ moves₃), y₃, log₁ ++ (log₂ ++ log₃), c₃,
        ?_, ?_, hc₃, ?_⟩
      · exact List.forall_mem_append.mpr ⟨hhonest₁,
          List.forall_mem_append.mpr ⟨List.forall_mem_singleton.mpr hanswer, hhonest₃⟩⟩
      · simp only [run_append, hrun₁, hrun₂, hrun₃, Option.bind_some, Option.map_some]
      · rw [hbacklog₃, hbacklog₂, hbacklog₁, List.length_cons, List.replicate_succ,
          List.append_assoc, List.singleton_append]

end Step

/-! ### Runs -/

/-- A message that a connection loses has found its mailbox full, or nobody there. -/
theorem isFull_of_lost {y y' : Server} {i j : Nat} {m : Move} {log : Log} {c' : Connection}
    (hstep : y.step i m = some (y', log)) (hc' : y'.connections[j]? = some c')
    (hlost : lostOf (notesOf j log) ≠ []) (hpresent : c'.isPresent = true) :
    c'.mailbox.isFull = true := by
  obtain ⟨c, p, moved, ds, -, hp, -, rfl, hnotes, -⟩ := step_at hstep hc'
  rw [Connection.isPresent_postEach] at hpresent
  refine Connection.lost_of_postEach (fun hnil => hlost ?_) hpresent
  have hown := (Connection.steps_of_step hp).accounts.settles.none_comes.2
  rw [hnotes, lostOf_append, hnil, List.append_nil]
  split
  · exact hown
  · rfl

/-- **Room for messages.** New connections over a store that has no listeners of theirs, and any run
of them in which calls about listeners are answered honestly. Of each connection this holds, where
its room is the configured one, and at least one message:

* No more messages are in its mailbox than there is room for.
* As long as it has not been dropped, the messages that were accepted and neither went out nor were
  given up are those that are held and those in the mailbox. So the room bounds them where none are
  held, in particular when no request is worked on.
* A message is lost only where the mailbox is full, or nobody is there.
* A message that is held goes on waiting, but makes room for another one.
* So the room bounds nothing while a request waits: however many clients are about to publish on a
  channel that the connection is subscribed to, all their messages can be accepted. -/
theorem backlog_bound {y y' : Server} {moves : List (Nat × Move)} {log : Log} {j : Nat}
    {settings : Settings} {c : Connection}
    (hnew : ∀ c ∈ y.connections, ∃ settings, c = Connection.new settings)
    (hstore : ∀ (id : ListenerId) listener, y.store.listeners[id]? = some listener →
      y.connections.length ≤ listener.target.client)
    (hhonest : ∀ move ∈ moves, move.2.IsHonest) (hrun : y.run moves = some (y', log))
    (hsettings : y.connections[j]? = some (Connection.new settings))
    (hc : y'.connections[j]? = some c) :
    c.mailbox.queued.length ≤ max settings.queueCapacity 1 ∧
    (c.isDropped = false → (acceptedOf (notesOf j log)).length =
      (deliveredOf (notesOf j log)).length + (discardedOf (notesOf j log)).length +
        ((Connection.Phase.held c.phase).length + c.mailbox.queued.length)) ∧
    (Connection.Phase.task? c.phase = none → Connection.Phase.held c.phase = []) ∧
    (∀ i m y'' more c', y'.step i m = some (y'', more) → y''.connections[j]? = some c' →
      lostOf (notesOf j more) ≠ [] → c'.isPresent = true →
        c'.mailbox.queued.length = max settings.queueCapacity 1) ∧
    (∀ y'' more c', y'.step j .hold = some (y'', more) → y''.connections[j]? = some c' →
      c'.backlog = c.backlog ∧ c'.mailbox.queued.length < max settings.queueCapacity 1) ∧
    ∀ channel payload (clients : List Nat), c.Holding channel → payload ≠ [] → clients.Nodup →
      (∀ i ∈ clients, ∃ publisher : Connection, y'.connections[i]? = some publisher ∧
        publisher.Publishes channel payload) →
      ∃ behind y₂ log₂ c₂, y'.run behind = some (y₂, log₂) ∧ y₂.connections[j]? = some c₂ ∧
        c₂.backlog = c.backlog ++ List.replicate clients.length ⟨channel, payload⟩ := by
  have hfits := fits_of_run (.new settings) hsettings hrun hc
  have hlistening := listening_of_run hnew hstore hhonest hrun
  refine ⟨hfits.length_le, fun hpresent => ?_, Connection.held_of_task, ?_, ?_, ?_⟩
  · obtain ⟨past, hpast, -, hperm⟩ := (accounted_of_run hnew hrun hc).backlog hpresent
    rw [hpast, List.length_append, hperm.length_eq, List.length_append, Connection.backlog,
      List.length_append]
  · intro i m y'' more c' hstep hc' hlost hpresent
    have hrun' : y'.run [(i, m)] = some (y'', more) := by simp [run, hstep]
    obtain ⟨hcapacity, hlength⟩ := fits_of_run hfits hc hrun' hc'
    have hfull := of_decide_eq_true (isFull_of_lost hstep hc' hlost hpresent)
    omega
  · intro y'' more c' hstep hc'
    obtain ⟨c'', hc'', hbacklog, -, hless, -, -⟩ := hold_of_step hstep hc
    obtain rfl := Option.some.inj (hc'.symm.trans hc'')
    have hlength := hfits.length_le
    exact ⟨hbacklog, by omega⟩
  · intro channel payload clients hholding hpayload hnodup hclients
    have hroom : 0 < max settings.queueCapacity 1 := by omega
    obtain ⟨behind, y₂, log₂, c₂, -, hbehind, hc₂, hbacklog⟩ :=
      all_accepted hlistening hc hfits hroom hholding hpayload hnodup hclients
    exact ⟨behind, y₂, log₂, c₂, hbehind, hc₂, hbacklog⟩

/-- Two clients of an empty store. The first one has room for one message. -/
def crowded : Server :=
  { connections := [Connection.new { queueCapacity := 1 }, Connection.new {}] }

/-- The hypotheses can be met by a run in which two messages wait where there is room for one. -/
theorem backlog_bound_crowded :
    ∃ y log c, crowded.run holding = some (y, log) ∧ y.connections[0]? = some c ∧
      c.mailbox.queued.length ≤ 1 ∧
      (acceptedOf (notesOf 0 log)).length =
        (deliveredOf (notesOf 0 log)).length + (discardedOf (notesOf 0 log)).length +
          ((Connection.Phase.held c.phase).length + c.mailbox.queued.length) ∧
      1 < (Connection.Phase.held c.phase).length + c.mailbox.queued.length := by
  have hfacts : (crowded.run holding).map (fun result => result.1.connections[0]?.map fun c =>
      (c.isDropped, (Connection.Phase.held c.phase).length + c.mailbox.queued.length)) =
        some (some (false, 2)) := by
    decide +kernel
  obtain ⟨⟨y, log⟩, hrun, hfacts⟩ := Option.map_eq_some_iff.mp hfacts
  obtain ⟨c, hc, hfacts⟩ := Option.map_eq_some_iff.mp hfacts
  obtain ⟨hpresent, hlength⟩ := Prod.mk.inj hfacts
  have hnew : ∀ c ∈ crowded.connections, ∃ settings, c = Connection.new settings :=
    List.forall_mem_cons.mpr ⟨⟨_, rfl⟩, List.forall_mem_singleton.mpr ⟨{}, rfl⟩⟩
  have hhonest : ∀ move ∈ holding, move.2.IsHonest := by
    simp [holding, Move.IsHonest, Honest]
  obtain ⟨hmailbox, haccount, -⟩ := backlog_bound hnew (listeners_of_empty rfl) hhonest hrun rfl hc
  exact ⟨y, log, c, hrun, hc, hmailbox, haccount hpresent, hlength ▸ Nat.one_lt_two⟩

end Server

end RespStore
