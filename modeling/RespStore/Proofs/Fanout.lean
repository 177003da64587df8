import RespStore.Proofs.Accounting
import RespStore.Proofs.Linearization

/-!
# Who receives a message

A commit that leaves a byte string behind is a message on the channel that the key names, unless
the byte string is empty. It goes to everybody who listens there at that moment, once to each, and
nobody's mailbox matters to anybody else.

* `Store.message?` is the message that a change brings, and `Store.messages` are those of several
  changes. Nothing about listeners is in it.
* `Store.hears` says who listens, and `Store.Single` that a client has no two listeners for one
  channel, which `Server.Listening` says of all connections.
* `deliveriesFor_applyAmid` says what an apply amid rivals sends to a client.
* `Server.accepted_of_step` and `Server.connection_of_step` say what a step does to the mailboxes,
  and `Server.step_of_set` that no mailbox matters to anybody else.
* `Server.fan_out` is the main result, about every run of any number of connections.
-/

namespace RespStore

/-! ### Messages of changes -/

/-- The message that a commit is, if it is one: it must leave a byte string behind that is not
empty. -/
def Update.message? (key : Bytes) : Update → Option Delivery
  | .put (.bytes payload) => if payload = [] then none else some ⟨key, payload⟩
  | _ => none

/-- The message of a commit is one on the channel that the key names. -/
theorem Update.filter_message? (key : Bytes) (update : Update) (wanted : Bytes → Bool) :
    (update.message? key).toList.filter (fun d => wanted d.channel) =
      if wanted key then (update.message? key).toList else [] := by
  cases hmessage : update.message? key with
  | none => exact (ite_self _).symm
  | some d =>
      obtain rfl : d.channel = key := by
        unfold Update.message? at hmessage
        split at hmessage
        · split at hmessage
          · cases hmessage
          · exact Option.some.inj hmessage ▸ rfl
        · cases hmessage
      exact List.filter_cons

/-- What brings a message does so as the key is created and as it is modified. -/
theorem delivery?_of_put (client : Nat) (key : Bytes) (value : Value) {kind : EventKind}
    (hkind : kind ≠ .removed) :
    Notice.delivery? ⟨⟨client, key⟩, ⟨key, kind, some value⟩⟩ =
      (Update.put value).message? key := by
  cases kind with
  | removed => exact absurd rfl hkind
  | _ =>
      cases value with
      | _ => rfl

namespace Store

section Messages

variable {τ : Type}

/-- The message that a change brings, if it brings one. A transform that fails brings none. -/
def message? (s : Store τ) (change : Change) : Option Delivery :=
  match change.transform (s.get change.key) with
  | .ok decision => decision.update.message? change.key
  | .error _ => none

/-- The messages that changes bring which are made one after the other. -/
def messages (s : Store τ) : List Change → List Delivery
  | [] => []
  | change :: changes =>
    (s.message? change).toList ++ (s.apply change.key change.transform).store.messages changes

end Messages

/-! ### Listeners of a client -/

/-- Whether a listener tells a client about a key. -/
def tells (client : Nat) (key : Bytes) (listener : Listener Subscriber) : Bool :=
  decide (listener.target.client = client) && listener.filter.accepts key

/-- Whether a client has a listener that hears about a key. -/
def hears (s : Store Subscriber) (client : Nat) (key : Bytes) : Bool :=
  s.listeners.values.any (tells client key)

/-- Whether each listener of a client hears about its own channel only, and no two of them about the
same one. -/
def Single (s : Store Subscriber) (client : Nat) : Prop :=
  ∀ (id : ListenerId) (listener : Listener Subscriber),
    s.listeners[id]? = some listener → listener.target.client = client →
      ∃ channel, listener = ⟨.exact channel, ⟨client, channel⟩⟩ ∧
        ∀ other : ListenerId, s.listeners[other]? = some listener → other = id

variable {s s' : Store Subscriber} {client : Nat} {key : Bytes}

/-- A listener tells a client about a key if it is the client's and its filter accepts the key. -/
theorem tells_iff {listener : Listener Subscriber} : tells client key listener = true ↔
    listener.target.client = client ∧ listener.filter.accepts key = true := by
  rw [tells, Bool.and_eq_true, decide_eq_true_iff]

/-- A client hears about a key if one of its listeners tells it. -/
theorem hears_iff : s.hears client key = true ↔
    ∃ (id : ListenerId) (listener : Listener Subscriber),
      s.listeners[id]? = some listener ∧ tells client key listener = true := by
  rw [hears, List.any_eq_true]
  constructor
  · rintro ⟨listener, hmem, htells⟩
    obtain ⟨id, hlistener⟩ := mem_values_listeners.mp hmem
    exact ⟨id, listener, hlistener, htells⟩
  · rintro ⟨id, listener, hlistener, htells⟩
    exact ⟨listener, mem_values_listeners.mpr ⟨id, hlistener⟩, htells⟩

/-- A client hears about the channels of its registry. -/
theorem Registers.hears_iff {registry : Registry} (h : s.Registers client registry) :
    s.hears client key = true ↔ key ∈ registry := by
  rw [Store.hears_iff, Std.ExtTreeMap.mem_iff_isSome_getElem?, Option.isSome_iff_exists]
  constructor
  · rintro ⟨id, listener, hlistener, htells⟩
    obtain ⟨hclient, haccepts⟩ := tells_iff.mp htells
    obtain ⟨channel, hid, rfl⟩ := (h id listener).mp ⟨hlistener, hclient⟩
    obtain rfl : key = channel := eq_of_beq haccepts
    exact ⟨id, hid⟩
  · rintro ⟨id, hid⟩
    exact ⟨id, _, h.getElem? hid, tells_iff.mpr ⟨rfl, beq_self_eq_true key⟩⟩

namespace Single

/-- Listeners that are those of a registry are single: a registry maps a channel to one listener. -/
theorem of_registers {registry : Registry} (h : s.Registers client registry) : s.Single client := by
  intro id listener hlistener hclient
  obtain ⟨channel, hid, rfl⟩ := (h id listener).mp ⟨hlistener, hclient⟩
  refine ⟨channel, rfl, fun other hother => ?_⟩
  obtain ⟨channel', hid', heq⟩ := (h other _).mp ⟨hother, rfl⟩
  obtain rfl : channel = channel' := congrArg Subscriber.channel (Listener.mk.inj heq).2
  exact Option.some.inj (hid'.symm.trans hid)

/-- Fewer listeners are still single. -/
theorem of_subset (h : s.Single client) (hsubset : ∀ (id : ListenerId) listener,
    s'.listeners[id]? = some listener → listener.target.client = client →
      s.listeners[id]? = some listener) : s'.Single client := by
  intro id listener hlistener hclient
  obtain ⟨channel, hexact, hunique⟩ := h id listener (hsubset id listener hlistener hclient) hclient
  exact ⟨channel, hexact, fun other hother => hunique other (hsubset other listener hother hclient)⟩

/-- There is only one way for a client to be told about a key. -/
theorem eq_of_tells (h : s.Single client) {first second : ListenerId × Listener Subscriber}
    (hfirst : first ∈ s.listeners.toList) (htells : tells client key first.2 = true)
    (hsecond : second ∈ s.listeners.toList) (htells' : tells client key second.2 = true) :
    first.2 = ⟨.exact key, ⟨client, key⟩⟩ ∧ second.1 = first.1 := by
  have hexact {pair : ListenerId × Listener Subscriber} (hpair : pair ∈ s.listeners.toList)
      (htells : tells client key pair.2 = true) : pair.2 = ⟨.exact key, ⟨client, key⟩⟩ ∧
        ∀ other : ListenerId, s.listeners[other]? = some pair.2 → other = pair.1 := by
    obtain ⟨hclient, haccepts⟩ := tells_iff.mp htells
    obtain ⟨channel, hchannel, hunique⟩ := h pair.1 pair.2
      (Std.ExtTreeMap.mem_toList_iff_getElem?_eq_some.mp hpair) hclient
    rw [hchannel] at haccepts
    obtain rfl : key = channel := eq_of_beq haccepts
    exact ⟨hchannel, hunique⟩
  obtain ⟨hlistener, hunique⟩ := hexact hfirst htells
  refine ⟨hlistener, hunique second.1 ?_⟩
  rw [hlistener, ← (hexact hsecond htells').1]
  exact Std.ExtTreeMap.mem_toList_iff_getElem?_eq_some.mp hsecond

/-- Of the listeners of a client, at most one hears about a key. -/
theorem filter_values (h : s.Single client) (key : Bytes) :
    s.listeners.values.filter (tells client key) =
      if s.hears client key then [⟨.exact key, ⟨client, key⟩⟩] else [] := by
  have hmem {pair : ListenerId × Listener Subscriber}
      (hpair : pair ∈ s.listeners.toList.filter (tells client key ∘ Prod.snd)) :
      pair ∈ s.listeners.toList ∧ tells client key pair.2 = true := List.mem_filter.mp hpair
  have hdistinct : (s.listeners.toList.filter (tells client key ∘ Prod.snd)).Pairwise
      fun first second => ¬compare first.1 second.1 = .eq :=
    Std.ExtTreeMap.distinct_keys_toList.filter _
  rw [values_listeners, List.filter_map]
  cases hpairs : s.listeners.toList.filter (tells client key ∘ Prod.snd) with
  | nil =>
      have hdeaf : s.hears client key ≠ true := by
        intro hhears
        obtain ⟨id, listener, hlistener, htells⟩ := hears_iff.mp hhears
        exact List.filter_eq_nil_iff.mp hpairs (id, listener)
          (Std.ExtTreeMap.mem_toList_iff_getElem?_eq_some.mpr hlistener) htells
      rw [if_neg hdeaf]
      rfl
  | cons first rest =>
      obtain ⟨hfirst, htells⟩ := hmem (hpairs ▸ List.mem_cons_self)
      have hhears : s.hears client key = true := hears_iff.mpr
        ⟨first.1, first.2, Std.ExtTreeMap.mem_toList_iff_getElem?_eq_some.mp hfirst, htells⟩
      have hrest : rest = [] := by
        refine List.eq_nil_iff_forall_not_mem.mpr fun second hsecond => ?_
        obtain ⟨hsecond', htells'⟩ := hmem (hpairs ▸ List.mem_cons_of_mem _ hsecond)
        have heq := (h.eq_of_tells hfirst htells hsecond' htells').2
        rw [hpairs] at hdistinct
        exact (List.pairwise_cons.mp hdistinct).1 second hsecond (heq ▸ Std.compare_self)
      rw [if_pos hhears, hrest, List.map_singleton, (h.eq_of_tells hfirst htells hfirst htells).1]

end Single

/-- Listening depends on the listeners only. -/
theorem hears_of_eq (h : s'.listeners = s.listeners) :
    s'.hears client key = s.hears client key := by
  rw [hears, hears, h]

/-- Being single depends on the listeners only. -/
theorem Single.of_eq (h : s.Single client) (heq : s'.listeners = s.listeners) :
    s'.Single client :=
  h.of_subset fun _ _ hlistener _ => heq ▸ hlistener

end Store

/-! ### What commits send -/

section Sending

variable {s : Store Subscriber} {client : Nat}

/-- Notices that are sent in two parts reach a client part by part. -/
theorem deliveriesFor_append (client : Nat) (notices more : List (Notice Subscriber)) :
    deliveriesFor client (notices ++ more) =
      deliveriesFor client notices ++ deliveriesFor client more := by
  rw [deliveriesFor, List.filter_append, List.filterMap_append]
  rfl

/-- An event reaches a client that hears about its key, once. -/
theorem deliveriesFor_noticesOf (h : s.Single client) (event : Event) :
    deliveriesFor client (s.noticesOf event) =
      if s.hears client event.key then
        (Notice.delivery? ⟨⟨client, event.key⟩, event⟩).toList
      else [] := by
  have hnotices : (s.noticesOf event).filter (fun notice => notice.target.client = client) =
      if s.hears client event.key then [⟨⟨client, event.key⟩, event⟩] else [] := by
    rw [Store.noticesOf, List.filter_map, List.filter_filter]
    refine (congrArg (List.map _) (h.filter_values event.key)).trans ?_
    split
    · rfl
    · rfl
  rw [deliveriesFor, hnotices]
  split
  · exact List.filterMap_cons
  · rfl

/-- What a client hears of a commit is the message that the commit is. -/
theorem deliveriesFor_commit (h : s.Single client) (key : Bytes) (update : Update) :
    deliveriesFor client
        (((s.commit key update).2.map (s.commit key update).1.noticesOf).getD []) =
      (update.message? key).toList.filter fun d => s.hears client d.channel := by
  cases update with
  | keep => rfl
  | remove =>
      rw [Store.commit]
      split
      · have hsent := deliveriesFor_noticesOf (s := s.erase key) (h.of_eq rfl) ⟨key, .removed, none⟩
        refine hsent.trans ?_
        split
        · rfl
        · rfl
      · rfl
  | put value =>
      have hsent {kind : EventKind} (hkind : kind ≠ .removed) :
          deliveriesFor client ((s.put key value).noticesOf ⟨key, kind, some value⟩) =
            ((Update.put value).message? key).toList.filter fun d => s.hears client d.channel := by
        rw [deliveriesFor_noticesOf (s := s.put key value) (h.of_eq rfl),
          delivery?_of_put client key value hkind, Update.filter_message?]
        rfl
      rw [Store.commit]
      refine hsent ?_
      split
      · exact EventKind.noConfusion
      · exact EventKind.noConfusion

/-- A change sends its message to a client that hears about the key. -/
theorem deliveriesFor_apply (h : s.Single client) (change : Change) :
    deliveriesFor client (s.apply change.key change.transform).notices =
      (s.message? change).toList.filter fun d => s.hears client d.channel := by
  cases hdecision : change.transform (s.get change.key) with
  | error e =>
      rw [Store.apply_of_error hdecision, Store.message?, hdecision]
      rfl
  | ok decision =>
      rw [Store.apply_of_ok hdecision, Store.message?, hdecision]
      exact deliveriesFor_commit h change.key decision.update

/-- A replay of changes sends the messages that the client hears about. No change among them touches
the listeners. -/
theorem deliveriesFor_replay (h : s.Single client) (changes : List Change) :
    deliveriesFor client (s.replay changes).2 =
      (s.messages changes).filter fun d => s.hears client d.channel := by
  induction changes generalizing s with
  | nil => rfl
  | cons change changes ih =>
      have heq := (Store.listeners_apply s change.key change.transform).1
      have hsame : (fun d : Delivery => (s.apply change.key change.transform).store.hears client
          d.channel) = fun d => s.hears client d.channel := funext fun d => Store.hears_of_eq heq
      rw [Store.replay, deliveriesFor_append, deliveriesFor_apply h, ih (h.of_eq heq), hsame,
        Store.messages, List.filter_append]

/-- What an apply amid rivals sends to a client: the messages of all changes that take effect, in
their order, as far as the client hears about them. Attempts that are repeated send nothing. -/
theorem deliveriesFor_applyAmid (h : s.Single client) (change : Change) (rivals : Rivals) :
    deliveriesFor client (s.applyAmid change.key change.transform rivals).notices =
      (s.messages ((s.placement change.key change.transform rivals).around change)).filter
        fun d => s.hears client d.channel := by
  have hplace : (s.placement change.key change.transform rivals).Explains change s []
      (s.applyAmid change.key change.transform rivals) :=
    Store.explains_applyFrom rivals (rfl : s.replay [] = (s, []))
  have hnotices := congrArg Prod.snd hplace.replay_around
  rw [← deliveriesFor_replay h, hnotices, List.nil_append]

end Sending

/-! ### Steps of a connection -/

/-- The change that a call makes, if it makes one: it applies a transform, and nothing stands in for
the store. -/
def Call.change? (instead : (q : Call) → Option q.Answer) : Call → Option Change
  | .apply key transform =>
    if (instead (.apply key transform)).isNone then some ⟨key, transform⟩ else none
  | _ => none

/-- The notices of a call are those of the change that it makes. -/
theorem Store.notices_react (s : Store Subscriber) (client : Nat) (q : Call)
    (instead : (q : Call) → Option q.Answer) :
    (s.react client q (instead q)).notices =
      ((q.change? instead).map fun change =>
        (s.apply change.key change.transform).notices).getD [] := by
  cases q with
  | apply key transform =>
      rw [Call.change?]
      cases instead (.apply key transform) with
      | some answer => rfl
      | none => rfl
  | get key =>
      cases instead (.get key) with
      | _ => rfl
  | listen channel =>
      cases instead (.listen channel) with
      | _ => rfl
  | unlisten id =>
      cases instead (.unlisten id) with
      | _ => rfl

namespace Connection

/-- The change that a connection makes in a move, if it makes one. -/
def change? (c : Connection) : Move → Option Change
  | .answer instead => (Phase.call? c.phase).bind (Call.change? instead)
  | _ => none

section Steps

variable {client : Nat} {s : Store Subscriber} {c : Connection} {m : Move} {p : Progress}

/-- The notices of a step are those of the change that it makes. -/
theorem Steps.notices_eq (hstep : Steps client s c m p) :
    p.notices = ((c.change? m).map fun change =>
      (s.apply change.key change.transform).notices).getD [] := by
  cases hstep with
  | answer hphase =>
      rw [change?, hphase]
      exact s.notices_react client _ _
  | answerWaiting hphase =>
      rw [change?, hphase]
      exact s.notices_react client _ _
  | answerLeaving hphase =>
      rw [change?, hphase]
      exact s.notices_react client _ _
  | answerAbandoned hphase =>
      rw [change?, hphase]
      exact s.notices_react client _ _
  | _ => rfl

/-- A connection that makes a change gets as many messages afterwards as before. -/
theorem Steps.mailbox_of_change {change : Change} (hstep : Steps client s c m p)
    (hchange : c.change? m = some change) :
    p.connection.mailbox = c.mailbox ∧ p.connection.isPresent = c.isPresent := by
  cases hstep with
  | answer hphase => exact ⟨rfl, by rw [isPresent, isPresent, hphase]⟩
  | answerWaiting hphase => exact ⟨rfl, by rw [isPresent, isPresent, hphase]⟩
  | answerLeaving hphase => exact ⟨rfl, by rw [isPresent, isPresent, hphase]⟩
  | answerAbandoned hphase => exact ⟨rfl, by rw [isPresent, isPresent, hphase]⟩
  | _ => cases hchange

/-- No step registers a second listener for a channel. -/
theorem Steps.single (hstep : Steps client s c m p) (h : s.Single client)
    (hregistered : Registered s client c) (hregistered' : Registered p.store client p.connection) :
    p.store.Single client := by
  have hremoval {owned : Registry} {q : Call} {next : q.Answer → Task Unit}
      {instead : Option q.Answer} (htask : Phase.removal? c.phase = some (.call owned q next)) :
      (s.react client q instead).store.Single client := by
    obtain ⟨ids, hcall, -⟩ := hregistered.removal _ htask
    cases ids with
    | nil => cases hcall
    | cons id ids =>
        change _ = Task.call ∅ (.unlisten id) fun _ => Handler.unlistenEach ids at hcall
        cases hcall
        cases instead with
        | some answer => exact h
        | none =>
            refine h.of_subset fun other listener hlistener _ => ?_
            change (s.unlisten id).listeners[other]? = _ at hlistener
            rw [Store.getElem?_listeners_unlisten] at hlistener
            split at hlistener
            · cases hlistener
            · exact hlistener
  cases hstep with
  | answer hphase => exact .of_registers (hregistered'.listeners trivial)
  | answerWaiting hphase => exact .of_registers (hregistered'.listeners trivial)
  | answerLeaving hphase => exact hremoval (congrArg Phase.removal? hphase)
  | answerAbandoned hphase => exact hremoval (congrArg Phase.removal? hphase)
  | _ => exact h

end Steps

/-- A single message is accepted if the connection is there and its mailbox has room. -/
theorem accepted_of_toList (c : Connection) (message : Option Delivery)
    (wanted : Delivery → Bool) :
    acceptedOf (c.postEach (message.toList.filter wanted)).2 =
      message.toList.filter fun d => wanted d && (c.isPresent && !c.mailbox.isFull) := by
  cases message with
  | none => rfl
  | some d =>
      rw [Option.toList_some, List.filter_cons, List.filter_cons]
      cases wanted d with
      | false => rfl
      | true =>
          change acceptedOf ((c.post d).2 ++ []) =
            if c.isPresent && !c.mailbox.isFull then [d] else []
          rw [List.append_nil, post]
          split
          · rfl
          · rfl

end Connection

/-! ### Runs -/

namespace Server

/-- Whether all listeners are right, and no connection has two of them for one channel. -/
structure Listening (y : Server) : Prop where
  /-- The listeners are those that connections hold. -/
  registered : y.Registered
  /-- There is one for each channel. -/
  single : ∀ (j : Nat) c, y.connections[j]? = some c → y.store.Single j

/-- Every step keeps the listeners right and single. -/
theorem Listening.step {y y' : Server} {i : Nat} {m : Move} {log : Log} (h : y.Listening)
    (hhonest : m.IsHonest) (hstep : y.step i m = some (y', log)) : y'.Listening := by
  have hregistered := h.registered.step hhonest hstep
  refine ⟨hregistered, fun j c' hc' => ?_⟩
  obtain ⟨c, p, moved, ds, hc, hp, hstore, rfl, -, hmoved⟩ := step_at hstep hc'
  have hsteps := Connection.steps_of_step hp
  rw [hstore]
  rcases hmoved with ⟨rfl, rfl⟩ | ⟨hij, hmoved⟩
  · refine hsteps.single (h.single i c hc) (h.registered i c hc) ?_
    exact (h.registered i c hc).step hsteps hhonest
  · rcases hsteps.store_cases with hsame | ⟨q, instead, -, hreact⟩
    · exact hsame ▸ h.single j moved hmoved
    · rw [hreact]
      refine (h.single j moved hmoved).of_subset fun id listener hlistener hclient => ?_
      rcases Store.getElem?_listeners_react hlistener with hold | ⟨-, hnew⟩
      · exact hold
      · exact absurd (hnew.symm.trans hclient) hij

/-- Every run keeps the listeners right and single, by induction on its moves. -/
theorem Listening.run {y y' : Server} {moves : List (Nat × Move)} {log : Log} (h : y.Listening)
    (hhonest : ∀ move ∈ moves, move.2.IsHonest) (hrun : y.run moves = some (y', log)) :
    y'.Listening :=
  run_induction (R := fun _ m => m.IsHonest) (Q := fun _ y _ => y.Listening)
    (fun h hm hstep => h.step hm hstep) h hhonest hrun

/-- In every run of new connections over a store that has no listeners of theirs, nobody has two
listeners for one channel. -/
theorem listening_of_run {y y' : Server} {moves : List (Nat × Move)} {log : Log}
    (hnew : ∀ c ∈ y.connections, ∃ settings, c = Connection.new settings)
    (hstore : ∀ (id : ListenerId) listener, y.store.listeners[id]? = some listener →
      y.connections.length ≤ listener.target.client)
    (hhonest : ∀ move ∈ moves, move.2.IsHonest) (hrun : y.run moves = some (y', log)) :
    y'.Listening := by
  have hregistered : y.Registered :=
    registered_of_run hnew hstore (List.forall_mem_nil _) (rfl : y.run [] = some (y, []))
  refine Listening.run ⟨hregistered, fun j c hc => ?_⟩ hhonest hrun
  obtain ⟨settings, rfl⟩ := hnew c (List.mem_of_getElem? hc)
  exact .of_registers ((hregistered j _ hc).listeners trivial)

/-- The message that a move brings, if it brings one. -/
def message? (y : Server) (i : Nat) (m : Move) : Option Delivery :=
  y.connections[i]?.bind fun c => (c.change? m).bind y.store.message?

section Step

variable {y y' : Server} {i k : Nat} {m : Move} {log : Log} {c : Connection}

/-- What a step sends to a connection: its message, if the connection hears about the channel. -/
theorem deliveriesFor_of_step {p : Progress} (h : y.Listening) (hc : y.connections[k]? = some c)
    {mover : Connection} (hmover : y.connections[i]? = some mover)
    (hp : mover.step i y.store m = some p) :
    deliveriesFor k p.notices =
      (y.message? i m).toList.filter fun d => y.store.hears k d.channel := by
  rw [message?, hmover, Option.bind_some, (Connection.steps_of_step hp).notices_eq]
  cases mover.change? m with
  | none => rfl
  | some change => exact deliveriesFor_apply (h.single k c hc) change

/-- A step puts its message into the mailbox of each connection that hears about the channel, is
there and has room, and puts nothing else into any mailbox. -/
theorem accepted_of_step (h : y.Listening) (hstep : y.step i m = some (y', log))
    (hc : y.connections[k]? = some c) :
    acceptedOf (notesOf k log) = (y.message? i m).toList.filter fun d =>
      y.store.hears k d.channel && (c.isPresent && !c.mailbox.isFull) := by
  obtain ⟨mover, p, hmover, hp, -, -, hnotes⟩ := step_cases hstep
  have hsteps := Connection.steps_of_step hp
  have hsent := deliveriesFor_of_step h hc hmover hp
  by_cases hki : i = k
  · subst hki
    obtain rfl := Option.some.inj (hc.symm.trans hmover)
    have hown := hsteps.accounts.settles.none_comes.1
    rw [hnotes, if_pos rfl, List.getElem?_set_self (List.getElem?_eq_some_iff.mp hc).1,
      Option.map_some, Option.getD_some, acceptedOf_append, hown, List.nil_append, hsent,
      Connection.accepted_of_toList]
    rw [message?, hc, Option.bind_some]
    cases hchange : c.change? m with
    | none => rfl
    | some change =>
        obtain ⟨hmailbox, hpresent⟩ := hsteps.mailbox_of_change hchange
        rw [hmailbox, hpresent]
  · rw [hnotes, if_neg hki, List.getElem?_set_ne hki, hc, Option.map_some, Option.getD_some,
      List.nil_append, hsent, Connection.accepted_of_toList]

/-- A step of somebody else does nothing to a connection but put messages into its mailbox. -/
theorem connection_of_step (hstep : y.step i m = some (y', log))
    (hc : y.connections[k]? = some c) (hne : k ≠ i) :
    y'.connections[k]? = some { c with mailbox := { c.mailbox with
      queued := c.mailbox.queued ++ acceptedOf (notesOf k log) } } := by
  obtain ⟨mover, p, -, -, -, hconnections, hnotes⟩ := step_cases hstep
  rw [hconnections, hnotes, if_neg hne.symm, List.getElem?_set_ne hne.symm, hc, List.nil_append]
  exact congrArg some (c.postEach_accepted _).1

/-- A step is the same to everybody else, whatever another connection in its place would be. -/
theorem step_of_set (hstep : y.step i m = some (y', log)) (hne : k ≠ i) (other : Connection) :
    ∃ y₂ log₂, (Server.mk y.store (y.connections.set k other)).step i m = some (y₂, log₂) ∧
      y₂.store = y'.store ∧
      ∀ l, l ≠ k → y₂.connections[l]? = y'.connections[l]? ∧ notesOf l log₂ = notesOf l log := by
  obtain ⟨mover, p, hmover, hp, hstore, hconnections, hnotes⟩ := step_cases hstep
  have hmover₂ : (y.connections.set k other)[i]? = some mover := by
    rw [List.getElem?_set_ne hne, hmover]
  obtain ⟨y₂, log₂, hstep₂⟩ :=
    exists_step (y := ⟨y.store, y.connections.set k other⟩) hmover₂ hp
  obtain ⟨mover', p', hmover', hp', hstore₂, hconnections₂, hnotes₂⟩ := step_cases hstep₂
  obtain rfl := Option.some.inj (hmover₂.symm.trans hmover')
  obtain rfl := Option.some.inj (hp.symm.trans hp')
  refine ⟨y₂, log₂, hstep₂, hstore₂.trans hstore.symm, fun l hl => ?_⟩
  have hsame : ((y.connections.set k other).set i p.connection)[l]? =
      (y.connections.set i p.connection)[l]? := by
    rw [List.set_comm _ _ hne, List.getElem?_set_ne hl.symm]
  exact ⟨by rw [hconnections₂, hsame, hconnections], by rw [hnotes₂, hsame, hnotes]⟩

end Step

/-- **A message goes to everybody who listens, once.** New connections over a store that has no
listeners of theirs, and any run of them. A call about listeners may fail at any time, but it never
claims to have done what it has not done. Of each connection this holds then:

* An apply amid rivals sends it the messages of all changes that take effect, in their order, as far
  as it listens on their channels. Attempts that are repeated send nothing.
* Unless it has begun to give its listeners up, it listens on the channels of its registry.
* A step brings at most one message, which is the one of the change that it makes. The connection
  accepts it if it listens on the channel, is there and has room, and accepts nothing else; nothing
  else becomes of it by a step that another connection makes.
* Any other connection could stand in its place, one with a full mailbox or one that is over: the
  step would be the same to the store and to everybody else. -/
theorem fan_out {y y' : Server} {moves : List (Nat × Move)} {log : Log} {k : Nat} {c : Connection}
    (hnew : ∀ c ∈ y.connections, ∃ settings, c = Connection.new settings)
    (hstore : ∀ (id : ListenerId) listener, y.store.listeners[id]? = some listener →
      y.connections.length ≤ listener.target.client)
    (hhonest : ∀ move ∈ moves, move.2.IsHonest) (hrun : y.run moves = some (y', log))
    (hc : y'.connections[k]? = some c) :
    (∀ change rivals,
      deliveriesFor k (y'.store.applyAmid change.key change.transform rivals).notices =
        (y'.store.messages ((y'.store.placement change.key change.transform rivals).around
          change)).filter fun d => y'.store.hears k d.channel) ∧
    (Connection.Phase.Holds c.phase →
      ∀ channel, y'.store.hears k channel = true ↔ channel ∈ c.registry) ∧
    ∀ i m y'' more, y'.step i m = some (y'', more) →
      (acceptedOf (notesOf k more) = (y'.message? i m).toList.filter fun d =>
        y'.store.hears k d.channel && (c.isPresent && !c.mailbox.isFull)) ∧
      (k ≠ i →
        y''.connections[k]? = some { c with mailbox := { c.mailbox with
          queued := c.mailbox.queued ++ acceptedOf (notesOf k more) } } ∧
        ∀ other, ∃ y₂ log₂,
          (Server.mk y'.store (y'.connections.set k other)).step i m = some (y₂, log₂) ∧
          y₂.store = y''.store ∧
          ∀ l, l ≠ k →
            y₂.connections[l]? = y''.connections[l]? ∧ notesOf l log₂ = notesOf l more) := by
  have h := listening_of_run hnew hstore hhonest hrun
  refine ⟨fun change rivals => ?_, fun hholds channel => ?_, fun i m y'' more hstep => ?_⟩
  · exact deliveriesFor_applyAmid (h.single k c hc) change rivals
  · exact ((h.registered k c hc).listeners hholds).hears_iff
  · exact ⟨accepted_of_step h hstep hc, fun hne =>
      ⟨connection_of_step hstep hc hne, step_of_set hstep hne⟩⟩

/-- The hypotheses can be met by two clients of which one publishes what the other hears. -/
theorem fan_out_publishing :
    ∃ y log c y' more, twoClients.run (publishing.take 13) = some (y, log) ∧
      y.connections[0]? = some c ∧ y.step 1 (.answer fun _ => none) = some (y', more) ∧
      acceptedOf (notesOf 0 more) = [⟨[97], [120]⟩] ∧
      y'.connections[0]? = some { c with mailbox := { c.mailbox with
        queued := c.mailbox.queued ++ [⟨[97], [120]⟩] } } := by
  have hfacts : ((twoClients.run (publishing.take 13)).bind fun before =>
      (before.1.step 1 (.answer fun _ => none)).bind fun _ => before.1.connections[0]?.map fun c =>
        (before.1.message? 1 (.answer fun _ => none), before.1.store.hears 0 [97],
          c.isPresent && !c.mailbox.isFull)) = some (some ⟨[97], [120]⟩, true, true) := by
    decide +kernel
  obtain ⟨⟨y, log⟩, hrun, hfacts⟩ := Option.bind_eq_some_iff.mp hfacts
  obtain ⟨⟨y', more⟩, hstep, hfacts⟩ := Option.bind_eq_some_iff.mp hfacts
  obtain ⟨c, hc, hfacts⟩ := Option.map_eq_some_iff.mp hfacts
  obtain ⟨hmessage, hfacts⟩ := Prod.mk.inj hfacts
  obtain ⟨hhears, hroom⟩ := Prod.mk.inj hfacts
  have hhonest : ∀ move ∈ publishing.take 13, move.2.IsHonest := by
    simp [publishing, Move.IsHonest, Honest]
  obtain ⟨-, -, hfan⟩ := fan_out new_of_mem_twoClients (listeners_of_empty rfl) hhonest hrun hc
  obtain ⟨haccepted, hothers⟩ := hfan 1 _ y' more hstep
  have hone : acceptedOf (notesOf 0 more) = [⟨[97], [120]⟩] := by
    simpa [hmessage, hhears, hroom] using haccepted
  exact ⟨y, log, c, y', more, hrun, hc, hstep, hone, hone ▸ (hothers Nat.zero_ne_one).1⟩

end Server

end RespStore
