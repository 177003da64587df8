import RespStore.Proofs.Connection.Handler
import RespStore.Proofs.Handler
import RespStore.Proofs.Server

/-!
# Messages and acknowledgements

A client learns from the acknowledgements it reads which channels it is subscribed to. This
module shows that the connection agrees with its client: a message stands in the stream only
where the last acknowledgement for its channel was that of a subscription.

* `Registry.Agrees` says that a registry holds the channels whose last acknowledgement was that
  of a subscription. Every request leads from an agreeing handler to an agreeing handler, behind
  its reply, whatever its calls are answered (`Handler.keeps_handle`).
* `Connection.Announced` is the invariant of a connection. It covers the time in which the
  handler is away: then it is the task that leads to an agreeing handler.
* `Server.message_acknowledged` is the main result, about every run of any number of
  connections.
-/

namespace RespStore

namespace Reply

/-- What a reply tells about the subscription to a channel: whether the client has it now. -/
def ack? (channel : Bytes) : Reply → Option Bool
  | .subscribed other _ => if other = channel then some true else none
  | .unsubscribed (some other) _ => if other = channel then some false else none
  | _ => none

/-- Whether a reply is a message. -/
def IsMessage : Reply → Prop
  | .message _ _ => True
  | _ => False

/-- Whether a reply is a single one that has nothing to do with subscriptions. -/
def Plain : Reply → Prop
  | .message _ _ => False
  | .subscribed _ _ => False
  | .unsubscribed _ _ => False
  | .many _ => False
  | _ => True

/-- A plain reply is its only part. -/
theorem Plain.parts_eq {reply : Reply} (h : reply.Plain) : reply.parts = [reply] := by
  cases reply with
  | many replies => exact h.elim
  | _ => rfl

/-- A plain reply acknowledges nothing. -/
theorem Plain.ack?_eq {reply : Reply} (h : reply.Plain) (channel : Bytes) :
    reply.ack? channel = none := by
  cases reply with
  | subscribed other count => exact h.elim
  | unsubscribed other count => exact h.elim
  | _ => rfl

/-- A plain reply is no message. -/
theorem Plain.not_isMessage {reply : Reply} (h : reply.Plain) : ¬ reply.IsMessage := by
  cases reply with
  | message channel payload => exact h.elim
  | _ => exact id

/-- A byte string that may be missing is a plain reply. -/
theorem plain_optional (payload : Option Bytes) : (Reply.optional payload).Plain := by
  cases payload with
  | none => trivial
  | some b => trivial

end Reply

/-! ### The client's view -/

/-- What the last acknowledgement for a channel says, if there has been one: whether the client
is subscribed. -/
def lastAck? (channel : Bytes) (units : List Reply) : Option Bool :=
  (units.filterMap (Reply.ack? channel)).getLast?

/-- What stands last decides, if it tells anything about the channel at all. -/
theorem lastAck?_concat (channel : Bytes) (units : List Reply) (reply : Reply) :
    lastAck? channel (units ++ [reply]) = (reply.ack? channel).or (lastAck? channel units) := by
  unfold lastAck?
  rw [List.filterMap_append, List.getLast?_append]
  cases hack : reply.ack? channel with
  | none => rw [List.filterMap_cons_none hack, List.filterMap_nil, List.getLast?_nil]
  | some subscribed =>
      rw [List.filterMap_cons_some hack, List.filterMap_nil, List.getLast?_singleton]

/-- Whether every message stands where its channel is subscribed to. -/
def MessagesAcknowledged (units : List Reply) : Prop :=
  ∀ before channel payload behind, units = before ++ .message channel payload :: behind →
    lastAck? channel before = some true

namespace MessagesAcknowledged

variable {units : List Reply}

/-- Where there are no units, no message lacks its subscription. -/
theorem nil : MessagesAcknowledged [] := by
  intro before channel payload behind h
  exact absurd h.symm (by simp)

/-- A unit may follow, if it is a message only where its channel is subscribed to. -/
theorem concat {reply : Reply} (h : MessagesAcknowledged units)
    (hreply : ∀ channel payload, reply = .message channel payload →
      lastAck? channel units = some true) : MessagesAcknowledged (units ++ [reply]) := by
  intro before channel payload behind heq
  rcases List.eq_nil_or_concat behind with rfl | ⟨front, last, rfl⟩
  · obtain ⟨rfl, hlast⟩ := List.append_inj' heq rfl
    exact hreply channel payload (List.cons.inj hlast).1
  · rw [List.concat_eq_append, ← List.cons_append, ← List.append_assoc] at heq
    exact h before channel payload front (List.append_inj' heq rfl).1

/-- Whatever is no message may follow. -/
theorem append (h : MessagesAcknowledged units) {more : List Reply}
    (hmore : ∀ reply ∈ more, ¬ reply.IsMessage) : MessagesAcknowledged (units ++ more) := by
  induction more generalizing units with
  | nil => exact (List.append_nil units).symm ▸ h
  | cons reply more ih =>
      obtain ⟨hreply, hmore⟩ := List.forall_mem_cons.mp hmore
      have hconcat : MessagesAcknowledged (units ++ [reply]) :=
        h.concat fun channel payload heq => (hreply (heq ▸ trivial)).elim
      have := ih hconcat hmore
      rwa [List.append_assoc] at this

end MessagesAcknowledged

/-! ### Registries -/

namespace Registry

/-- Whether a registry holds the channels that the client takes itself to be subscribed to. -/
def Agrees (registry : Registry) (units : List Reply) : Prop :=
  ∀ channel, channel ∈ registry ↔ lastAck? channel units = some true

namespace Agrees

variable {registry : Registry} {units : List Reply}

/-- A registry without channels agrees with a client that has been told nothing. -/
theorem empty : Agrees ∅ [] := by
  intro channel
  exact iff_of_false Std.ExtTreeMap.not_mem_empty (nomatch ·)

/-- What acknowledges nothing changes nothing. -/
theorem concat {reply : Reply} (h : registry.Agrees units)
    (hreply : ∀ channel, reply.ack? channel = none) : registry.Agrees (units ++ [reply]) := by
  intro channel
  rw [lastAck?_concat, hreply, Option.none_or]
  exact h channel

/-- A registry that changes for one channel agrees behind the reply that acknowledges this
change. -/
theorem ack {registry' : Registry} {channel : Bytes} {reply : Reply} {subscribed : Bool}
    (h : registry.Agrees units)
    (hreply : ∀ other, reply.ack? other = if channel = other then some subscribed else none)
    (hregistry : ∀ other, other ∈ registry' ↔
      if channel = other then subscribed = true else other ∈ registry) :
    registry'.Agrees (units ++ [reply]) := by
  intro other
  rw [lastAck?_concat, hreply, hregistry]
  split
  · rw [Option.some_or, Option.some.injEq]
  · exact h other

/-- A channel that is subscribed to already may be acknowledged once more. -/
theorem subscribed {channel : Bytes} {count : Nat} (h : registry.Agrees units)
    (hmem : channel ∈ registry) : registry.Agrees (units ++ [.subscribed channel count]) := by
  refine h.ack (fun _ => rfl) fun other => ?_
  split
  · rename_i heq
    exact iff_of_true (heq ▸ hmem) rfl
  · exact Iff.rfl

/-- A channel that is new to the registry is acknowledged as a subscription. -/
theorem insert {channel : Bytes} {id : ListenerId} {count : Nat} (h : registry.Agrees units) :
    Agrees (Std.ExtTreeMap.insert registry channel id) (units ++ [.subscribed channel count]) := by
  refine h.ack (fun _ => rfl) fun other => ?_
  rw [Std.ExtTreeMap.mem_insert, Std.compare_eq_iff_eq]
  split
  · rename_i heq
    exact iff_of_true (.inl heq) rfl
  · rename_i hne
    exact or_iff_right hne

/-- A channel that the registry does not have may be acknowledged as left. -/
theorem unsubscribed {channel : Bytes} {count : Nat} (h : registry.Agrees units)
    (hmem : channel ∉ registry) :
    registry.Agrees (units ++ [.unsubscribed (some channel) count]) := by
  refine h.ack (fun _ => rfl) fun other => ?_
  split
  · rename_i heq
    exact iff_of_false (heq ▸ hmem) Bool.false_ne_true
  · exact Iff.rfl

/-- A channel that is taken out of the registry is acknowledged as left. -/
theorem erase {channel : Bytes} {count : Nat} (h : registry.Agrees units) :
    Agrees (Std.ExtTreeMap.erase registry channel)
      (units ++ [.unsubscribed (some channel) count]) := by
  refine h.ack (fun _ => rfl) fun other => ?_
  rw [Std.ExtTreeMap.mem_erase, Ne, Std.compare_eq_iff_eq]
  split
  · rename_i heq
    exact iff_of_false (fun hmem => hmem.1 heq) Bool.false_ne_true
  · rename_i hne
    exact and_iff_right hne

end Agrees

end Registry

/-! ### Requests -/

/-- Whether a completion installs a handler that agrees with the client behind its reply, and
replies with no message. -/
structure Completion.Keeps (units : List Reply) (completion : Completion) : Prop where
  /-- The handler agrees. -/
  agrees : completion.handler.registry.Agrees (units ++ completion.reply.parts)
  /-- Messages are no replies. -/
  not_isMessage : ∀ reply ∈ completion.reply.parts, ¬ reply.IsMessage

/-- A handler that stays, with a reply that has nothing to do with subscriptions. -/
theorem Completion.keeps_of_plain {units : List Reply} {completion : Completion}
    (h : completion.handler.registry.Agrees units) (hreply : completion.reply.Plain) :
    completion.Keeps units := by
  refine ⟨?_, ?_⟩
  · rw [hreply.parts_eq]
    exact h.concat hreply.ack?_eq
  · rw [hreply.parts_eq]
    exact List.forall_mem_singleton.mpr hreply.not_isMessage

namespace Registry

variable {answers : Answers} {registry : Registry} {units acks : List Reply}

/-- The end of a change of subscriptions, with one more acknowledgement or error at its end. -/
theorem keeps_complete (h : registry.Agrees (units ++ acks.reverse))
    (hacks : ∀ ack ∈ acks, ¬ ack.IsMessage) : (registry.complete acks).Keeps units where
  agrees := (Handler.registry_ofRegistry registry).symm ▸ h
  not_isMessage := fun reply hreply => hacks reply (List.mem_reverse.mp hreply)

/-- The end of a change of subscriptions that is cut short by an error. -/
theorem keeps_complete_error {text : String} (h : registry.Agrees (units ++ acks.reverse))
    (hacks : ∀ ack ∈ acks, ¬ ack.IsMessage) :
    (registry.complete (.error text :: acks)).Keeps units := by
  refine keeps_complete ?_ (List.forall_mem_cons.mpr ⟨id, hacks⟩)
  rw [List.reverse_cons, ← List.append_assoc]
  exact h.concat fun _ => rfl

/-- Subscribing, by induction on the channels that are left. A refused listener leaves the
registry as it stands with the acknowledgements so far. -/
theorem keeps_subscribe {channels : List Bytes} (h : registry.Agrees (units ++ acks.reverse))
    (hacks : ∀ ack ∈ acks, ¬ ack.IsMessage) :
    (registry.subscribe acks channels).Always answers (Completion.Keeps units) := by
  induction channels generalizing registry acks with
  | nil => exact keeps_complete h hacks
  | cons channel channels ih =>
      rw [subscribe]
      have hmore : ∀ count, ∀ ack ∈ Reply.subscribed channel count :: acks, ¬ ack.IsMessage :=
        fun _ => List.forall_mem_cons.mpr ⟨id, hacks⟩
      split
      · rename_i hcontains
        refine ih ?_ (hmore _)
        rw [List.reverse_cons, ← List.append_assoc]
        exact h.subscribed hcontains
      · rintro answer -
        cases answer with
        | ok id =>
            refine ih ?_ (hmore _)
            rw [List.reverse_cons, ← List.append_assoc]
            exact h.insert
        | error e => exact keeps_complete_error h hacks

/-- Leaving channels, by induction on those that are left. -/
theorem keeps_leave {channels : List Bytes} (h : registry.Agrees (units ++ acks.reverse))
    (hacks : ∀ ack ∈ acks, ¬ ack.IsMessage) :
    (registry.leave acks channels).Always answers (Completion.Keeps units) := by
  induction channels generalizing registry acks with
  | nil => exact keeps_complete h hacks
  | cons channel channels ih =>
      rw [leave]
      have hmore : ∀ count, ∀ ack ∈ Reply.unsubscribed (some channel) count :: acks,
          ¬ ack.IsMessage := fun _ => List.forall_mem_cons.mpr ⟨id, hacks⟩
      split
      · rename_i hnone
        refine ih ?_ (hmore _)
        rw [List.reverse_cons, ← List.append_assoc]
        refine h.unsubscribed fun hmem => ?_
        rw [← Std.ExtTreeMap.isSome_getElem?_iff_mem, hnone] at hmem
        exact nomatch hmem
      · rintro answer -
        cases answer with
        | ok _ =>
            refine ih ?_ (hmore _)
            rw [List.reverse_cons, ← List.append_assoc]
            exact h.erase
        | error e => exact keeps_complete_error h hacks

/-- Leaving channels, named or not, keeps the agreement with the client. -/
theorem keeps_unsubscribe {channels : List Bytes} (h : registry.Agrees units) :
    (registry.unsubscribe channels).Always answers (Completion.Keeps units) := by
  rw [unsubscribe]
  split
  · refine keeps_complete ?_ (List.forall_mem_singleton.mpr id)
    exact h.concat fun _ => rfl
  · exact keeps_leave ((List.append_nil units).symm ▸ h) (List.forall_mem_nil _)

end Registry

namespace Execution

open RespStore.Task

variable {answers : Answers}

/-- Whether an action replies with something that has nothing to do with subscriptions. -/
abbrev RepliesPlain (answers : Answers) (action : Action Reply) : Prop :=
  Yields answers Reply.Plain action

/-- An action that ends by replying so, whatever it has learned before. -/
theorem plain_bind {α : Type} {work : Action α} {f : α → Action Reply}
    (h : ∀ value, RepliesPlain answers (f value)) : RepliesPlain answers (work >>= f) :=
  yields_bind (yields_true work) fun value _ => h value

/-- `GET` replies with a byte string, which is plain. -/
theorem plain_get (key : Bytes) : RepliesPlain answers (get key) := by
  refine plain_bind fun value => ?_
  cases value with
  | none => exact yields_pure trivial
  | some v =>
      cases v with
      | bytes content => exact yields_pure trivial
      | list items => exact yields_throw _

/-- `INCRBYFLOAT` replies with a number, which is plain. -/
theorem plain_incrByFloat (key : Bytes) (increment : Float) :
    RepliesPlain answers (incrByFloat key increment) := by
  refine plain_bind fun output => ?_
  cases output with
  | float sum => exact yields_pure trivial
  | _ => exact yields_throw _

/-- `LCS` replies with a number, a byte string or ranges, all of them plain. -/
theorem plain_lcs (query : LcsQuery) : RepliesPlain answers (lcs query) := by
  refine plain_bind fun a => plain_bind fun b => plain_bind fun _ => ?_
  cases Lcs.solve a b Lcs.defaultLimit with
  | error e => exact yields_throw _
  | ok alignment =>
      simp only
      split
      · exact yields_pure trivial
      · split
        · exact yields_pure trivial
        · exact yields_pure trivial

/-- A pop replies with one element, several or none, all of them plain. -/
theorem plain_pop (side : ListEnd) (key : Bytes) (count : Option Int64) :
    RepliesPlain answers (pop side key count) := by
  refine plain_bind fun taken => ?_
  generalize taken.map (inOrderOf side) = ordered
  cases count with
  | none => exact yields_pure (Reply.plain_optional _)
  | some n =>
      cases ordered with
      | none => exact yields_pure trivial
      | some items => exact yields_pure trivial

/-- `CONFIG` replies with a setting or an error, both of them plain. -/
theorem plain_config (subcommand parameter : String) :
    RepliesPlain answers (config subcommand parameter) := by
  rw [config]
  split
  · split
    · exact yields_throw _
    · exact yields_pure trivial
  · split
    · exact yields_pure trivial
    · exact yields_throw _

end Execution

namespace Handler

open RespStore.Task

variable {answers : Answers} {units : List Reply}

/-- Whether a request, unless it fails for good, keeps the agreement with the client. -/
abbrev AnswersKeep (units : List Reply) : Except Fatal Completion → Prop :=
  Completes (Completion.Keeps units)

/-- A command that replies with something plain keeps a client without subscriptions in
agreement. -/
theorem keeps_answer {action : Action Reply} (h : Registry.Agrees ∅ units)
    (haction : Execution.RepliesPlain answers action) :
    (answer action).Always answers (AnswersKeep units) :=
  always_answer haction (fun _ hreply => Completion.keeps_of_plain h hreply)
    fun _ => Completion.keeps_of_plain h trivial

/-- In normal mode every command keeps the agreement with a client without subscriptions. -/
theorem keeps_perform (command : Command) (h : Registry.Agrees ∅ units) :
    (perform command).Always answers (AnswersKeep units) := by
  have hcount {α : Type} (work : Action α) (f : α → Nat) :
      Execution.RepliesPlain answers (do return .count (f (← work))) :=
    Execution.plain_bind fun _ => yields_pure trivial
  have hok : Execution.RepliesPlain answers (return .ok) := yields_pure trivial
  cases command with
  | del keys => exact keeps_answer h (hcount _ id)
  | get key => exact keeps_answer h (Execution.plain_get key)
  | incrByFloat key increment => exact keeps_answer h (Execution.plain_incrByFloat key increment)
  | lcs query => exact keeps_answer h (Execution.plain_lcs query)
  | set key value => exact keeps_answer h (Execution.plain_bind fun _ => hok)
  | lindex key index =>
      exact keeps_answer h (Execution.plain_bind fun _ => yields_pure (Reply.plain_optional _))
  | llen key => exact keeps_answer h (hcount _ id)
  | pop side key count => exact keeps_answer h (Execution.plain_pop side key count)
  | push side key values => exact keeps_answer h (hcount _ id)
  | lrange key start stop =>
      exact keeps_answer h (Execution.plain_bind fun _ => yields_pure trivial)
  | publish channel message => exact keeps_answer h (hcount _ fun _ => 0)
  | subscribe channels =>
      exact always_ok_map (Registry.keeps_subscribe ((List.append_nil units).symm ▸ h)
        (List.forall_mem_nil _))
  | unsubscribe channels => exact always_ok_map (Registry.keeps_unsubscribe h)
  | client _ => exact keeps_answer h hok
  | config subcommand parameter =>
      exact keeps_answer h (Execution.plain_config subcommand parameter)
  | echo message => exact keeps_answer h (yields_pure trivial)
  | ping payload => exact keeps_answer h (yields_pure trivial)
  | quit => exact completes_ok (Completion.keeps_of_plain h trivial)
  | readOnly => exact keeps_answer h hok
  | readWrite => exact keeps_answer h hok

/-- In subscriber mode every command keeps the agreement with the client. -/
theorem keeps_performSubscribed (command : Command) {registry : Registry}
    (h : registry.Agrees units) :
    (performSubscribed registry command).Always answers (AnswersKeep units) := by
  cases command with
  | subscribe channels =>
      exact always_ok_map (Registry.keeps_subscribe ((List.append_nil units).symm ▸ h)
        (List.forall_mem_nil _))
  | unsubscribe channels => exact always_ok_map (Registry.keeps_unsubscribe h)
  | _ => exact completes_ok (Completion.keeps_of_plain h trivial)

/-- Every request leads from a handler that agrees with the client to one that agrees behind the
reply, whatever its calls are answered. -/
theorem keeps_handle {handler : Handler} (request : Request)
    (h : handler.registry.Agrees units) :
    (handler.handle request).Always answers (AnswersKeep units) := by
  rw [handle]
  split
  · exact completes_ok (Completion.keeps_of_plain h trivial)
  · rename_i command _
    cases handler with
    | normal => exact keeps_perform command h
    | subscriber registry => exact keeps_performSubscribed command h

end Handler

/-! ### Connections -/

namespace Connection

/-- What the client has been told agrees with the handler of the connection, if it has one. -/
structure Acknowledged (c : Connection) (units : List Reply) : Prop where
  /-- Messages stand where their channels are subscribed to. -/
  messages : MessagesAcknowledged units
  /-- A handler that is there agrees with the client. -/
  handler : ∀ handler, c.handler = some handler → handler.registry.Agrees units

/-- What the client has been told agrees with what the connection knows: with its handler, or
with what becomes of the handler that is away. -/
structure Announced (c : Connection) (units : List Reply) : Prop extends Acknowledged c units where
  /-- A task leads to a handler that agrees. -/
  task : ∀ task, Phase.task? c.phase = some task →
    task.Always (fun _ _ => True) (Handler.AnswersKeep units)

namespace Acknowledged

variable {c c' : Connection} {units : List Reply}

/-- A handler that is kept still agrees, and one that is given up need not. -/
theorem of_handler (h : Acknowledged c units)
    (hhandler : c'.handler = c.handler ∨ c'.handler = none) : Acknowledged c' units := by
  refine ⟨h.messages, fun handler heq => ?_⟩
  rcases hhandler with hsame | hnone
  · exact h.handler handler (hsame ▸ heq)
  · exact nomatch hnone.symm.trans heq

/-- A message is put into the buffer only when the handler has its channel. -/
theorem deliver (h : Acknowledged c units) (d : Delivery) :
    Acknowledged (c.deliver d).1 (units ++ unitsOf (c.deliver d).2) := by
  rw [Connection.deliver]
  split
  · rename_i hsubscribed
    obtain ⟨handler, hhandler, hcontains⟩ : ∃ handler, c.handler = some handler ∧
        handler.isSubscribed d.channel = true := by
      rw [isSubscribed] at hsubscribed
      cases hhandler : c.handler with
      | none =>
          rw [hhandler] at hsubscribed
          cases hsubscribed
      | some handler =>
          rw [hhandler] at hsubscribed
          exact ⟨handler, rfl, hsubscribed⟩
    refine ⟨h.messages.concat ?_, ?_⟩
    · rintro channel payload heq
      obtain ⟨rfl, rfl⟩ := Reply.message.inj heq
      exact (h.handler handler hhandler d.channel).mp hcontains
    · intro handler heq
      exact (h.handler handler heq).concat fun _ => rfl
  · exact (List.append_nil units).symm ▸ h

/-- Messages that are delivered one after the other follow the subscriptions to their channels. -/
theorem deliverEach (h : Acknowledged c units) (ds : List Delivery) :
    Acknowledged (c.deliverEach ds).1 (units ++ unitsOf (c.deliverEach ds).2) := by
  induction ds generalizing c units with
  | nil => exact (List.append_nil units).symm ▸ h
  | cons d ds ih =>
      have := ih (h.deliver d)
      rw [List.append_assoc, ← unitsOf_append] at this
      exact this

/-- A request that is answered leads to the handler that its task has promised. -/
theorem complete {completion : Completion} (h : Acknowledged c units)
    (hkeeps : completion.Keeps units) :
    Acknowledged (c.complete completion).1 (units ++ unitsOf (c.complete completion).2) := by
  rw [unitsOf_complete]
  exact ⟨h.messages.append hkeeps.not_isMessage,
    fun handler heq => Option.some.inj heq ▸ hkeeps.agrees⟩

/-- A request that had to wait leads to the handler that its task has promised, and what was held
follows its reply. -/
theorem resume {completion : Completion} (h : Acknowledged c units)
    (hkeeps : completion.Keeps units) (held : List Delivery) :
    Acknowledged (c.resume held completion).1
      (units ++ unitsOf (c.resume held completion).2) := by
  have heach := (h.complete hkeeps).deliverEach held
  obtain ⟨state, hwake⟩ := wake_eq ((c.complete completion).1.deliverEach held).1
  rw [Connection.resume]
  rw [unitsOf_append, ← List.append_assoc]
  refine heach.of_handler (.inl ?_)
  simp only [hwake]

end Acknowledged

namespace Announced

variable {c c' : Connection} {units : List Reply} {more : List Note}

/-- Where no request is worked on, the handler is all that matters. -/
theorem of_acknowledged (h : Acknowledged c units) (htask : Phase.task? c.phase = none) :
    Announced c units :=
  ⟨h, fun _ heq => nomatch htask.symm.trans heq⟩

/-- A step that tells the client nothing and works on no request behind it. -/
theorem of_quiet (h : Announced c units) (hhandler : c'.handler = c.handler ∨ c'.handler = none)
    (htask : Phase.task? c'.phase = none) (hunits : unitsOf more = []) :
    Announced c' (units ++ unitsOf more) := by
  rw [hunits, List.append_nil]
  exact of_acknowledged (h.of_handler hhandler) htask

/-- A step that leaves the handler alone, works on no request and tells the client nothing. -/
theorem of_rests (h : Announced c units) (hrests : Rests c.handler c')
    (hunits : unitsOf more = []) : Announced c' (units ++ unitsOf more) :=
  h.of_quiet (.inl hrests.handler_eq) hrests.task?_eq hunits

/-- A step that tells the client nothing and works on a request behind it. -/
theorem of_task {task : Task (Except Fatal Completion)} (h : Announced c units)
    (hhandler : c'.handler = c.handler ∨ c'.handler = none)
    (hphase : Phase.task? c'.phase = some task)
    (htask : task.Always (fun _ _ => True) (Handler.AnswersKeep units))
    (hunits : unitsOf more = []) : Announced c' (units ++ unitsOf more) := by
  rw [hunits, List.append_nil]
  refine ⟨h.of_handler hhandler, fun task' heq => ?_⟩
  exact Option.some.inj (hphase.symm.trans heq) ▸ htask

/-- The task at hand has come to its end. -/
theorem keeps {completion : Completion} (h : Announced c units)
    (hphase : Phase.task? c.phase = some (.done (.ok completion))) : completion.Keeps units :=
  h.task _ hphase completion rfl

/-- A new connection, to which nothing has been told. -/
theorem new (settings : Settings) : Announced (Connection.new settings) [] :=
  of_acknowledged ⟨.nil, fun _ heq => Option.some.inj heq ▸ Registry.Agrees.empty⟩ rfl

/-- A message that is put into the mailbox tells the client nothing yet. -/
theorem post (h : Announced c units) (d : Delivery) :
    Announced (c.post d).1 (units ++ unitsOf (c.post d).2) := by
  rw [Connection.post]
  split
  · exact (List.append_nil units).symm ▸ ⟨⟨h.messages, h.handler⟩, h.task⟩
  · exact (List.append_nil units).symm ▸ h

/-- A connection that leaves tells the client nothing more. -/
theorem of_leave {ending : Ending} (h : Announced c units) :
    Announced (c.leave ending).1 (units ++ unitsOf (c.leave ending).2) := by
  rw [leave]
  cases hhandler : c.handler with
  | none => exact h.of_rests ⟨rfl, rfl⟩ rfl
  | some handler => exact h.of_quiet (.inr rfl) rfl rfl

variable {client : Nat} {s : Store Subscriber} {m : Move} {p : Progress}

/-- Every step keeps the agreement with the client. -/
theorem step (h : Announced c units) (hstep : Steps client s c m p) :
    Announced p.connection (units ++ unitsOf p.notes) := by
  cases hstep with
  | finished hphase _ => exact h.of_rests (rests_flush { c with state := .closed } _) rfl
  | turn hphase _ _ => exact h.of_rests ⟨rfl, rfl⟩ rfl
  | turnFlush hphase _ _ => exact h.of_rests (rests_flush c _) rfl
  | @request request _ handler hphase _ hhandler =>
      exact h.of_task (.inr rfl) rfl (Handler.keeps_handle request (h.handler handler hhandler)) rfl
  | @orphan _ reader hphase _ _ => exact h.of_rests (rests_fail { c with reader } _) rfl
  | endOfInput hphase _ => exact h.of_rests ⟨rfl, rfl⟩ rfl
  | @readError _ reader hphase _ => exact h.of_rests (rests_fail { c with reader } _) rfl
  | @nothing reader hphase _ => exact h.of_rests (rests_flush { c with reader } _) rfl
  | more hphase _ _ _ => exact h.of_rests ⟨rfl, hphase ▸ rfl⟩ rfl
  | @message d mailbox hphase _ =>
      have hturn : Acknowledged { c with mailbox, phase := .turn } units := h.of_handler (.inl rfl)
      refine of_acknowledged (hturn.deliver d) ?_
      rw [(puts_deliver _ d).phase_eq]
      rfl
  | overBudget hphase _ => exact h.of_rests (rests_flush { c with autoRead := false } _) rfl
  | settled hphase _ => exact h.of_rests ⟨rfl, rfl⟩ rfl
  | fatal hphase => exact h.of_rests (rests_fail c _) rfl
  | @answered completion hphase =>
      have hcomplete := h.complete (h.keeps (congrArg Phase.task? hphase))
      exact of_acknowledged (hcomplete.of_handler (.inl rfl)) rfl
  | @fatalWaiting _ held hphase => exact h.of_rests (rests_fail c _) (unitsOf_discarded held)
  | @answeredWaiting completion held hphase =>
      have hresume := h.resume (h.keeps (congrArg Phase.task? hphase)) held
      have hrests := rests_flush (c.resume held completion).1 .settle
      exact of_acknowledged (hresume.of_handler (.inl hrests.handler_eq)) hrests.task?_eq
  | left hphase => exact h.of_rests ⟨rfl, rfl⟩ rfl
  | dropped hphase => exact h.of_rests ⟨rfl, rfl⟩ rfl
  | answer hphase =>
      have htask := h.task _ (congrArg Phase.task? hphase)
      exact h.of_task (.inl rfl) rfl (htask _ trivial) rfl
  | answerWaiting hphase =>
      have htask := h.task _ (congrArg Phase.task? hphase)
      exact h.of_task (.inl rfl) rfl (htask _ trivial) rfl
  | answerLeaving hphase => exact h.of_rests ⟨rfl, rfl⟩ rfl
  | answerAbandoned hphase => exact h.of_rests ⟨rfl, rfl⟩ rfl
  | @computed next hphase =>
      have htask := h.task _ (congrArg Phase.task? hphase)
      exact @of_task _ _ _ _ next h (.inl rfl) rfl htask rfl
  | @computedWaiting next held hphase =>
      have htask := h.task _ (congrArg Phase.task? hphase)
      exact @of_task _ _ _ _ next h (.inl rfl) rfl htask rfl
  | suspend hphase _ =>
      exact h.of_task (.inl rfl) rfl (h.task _ (congrArg Phase.task? hphase)) rfl
  | hold hphase _ _ =>
      exact h.of_task (.inl rfl) rfl (h.task _ (congrArg Phase.task? hphase)) rfl
  | @accept n chunk behind next hphase _ =>
      refine h.of_rests ⟨rfl, ?_⟩ rfl
      have hflushes := Stream.flushes_rest (chunk.drop n) behind next
      generalize rest (chunk.drop n) behind next = phase at hflushes
      cases hflushes with
      | writing => rfl
      | syncing => rfl
  | acceptNothing hphase => exact h.of_rests (rests_flushFailed c _ _) rfl
  | sync hphase => exact h.of_rests (rests_afterFlush c _) rfl
  | refuseWriting hphase => exact h.of_rests (rests_flushFailed c _ _) rfl
  | refuseSyncing hphase => exact h.of_rests (rests_flushFailed c _ _) rfl
  | refuseShutDown hphase => exact h.of_leave
  | shutDown hphase => exact h.of_leave
  | arrive a => exact (List.append_nil units).symm ▸ ⟨⟨h.messages, h.handler⟩, h.task⟩
  | abandon _ => exact h.of_quiet (.inr rfl) rfl rfl

end Announced

/-! ### The mode of a connection that puts a message into its buffer -/

section Delivered

variable {c : Connection} {d : Delivery}

/-- Whether the connection is a subscriber that has a channel. -/
def HasChannel (c : Connection) (channel : Bytes) : Prop :=
  ∃ registry : Registry, c.handler = some (.subscriber registry) ∧ channel ∈ registry

/-- A connection that is subscribed to a channel is a subscriber that has it. -/
theorem hasChannel_of_isSubscribed {channel : Bytes} (h : c.isSubscribed channel = true) :
    c.HasChannel channel := by
  rw [isSubscribed] at h
  cases hhandler : c.handler with
  | none =>
      rw [hhandler] at h
      exact nomatch h
  | some handler =>
      rw [hhandler] at h
      cases handler with
      | normal =>
          have hnone : channel ∉ (∅ : Registry) := Std.ExtTreeMap.not_mem_empty
          exact absurd h hnone
      | subscriber registry => exact ⟨registry, hhandler, h⟩

/-- A message that is put into the buffer finds a subscriber that has its channel. -/
theorem hasChannel_of_deliver {other : Delivery} (h : .delivered d ∈ (c.deliver other).2) :
    (c.deliver other).1.HasChannel d.channel := by
  rw [deliver] at h ⊢
  split at h
  · rename_i hsubscribed
    rw [if_pos hsubscribed]
    obtain rfl := Note.delivered.inj (List.mem_singleton.mp h)
    exact hasChannel_of_isSubscribed hsubscribed
  · cases List.mem_singleton.mp h

/-- Messages that are put into the buffer find a subscriber that has their channels. -/
theorem hasChannel_of_deliverEach {ds : List Delivery}
    (h : .delivered d ∈ (c.deliverEach ds).2) : (c.deliverEach ds).1.HasChannel d.channel := by
  induction ds generalizing c with
  | nil => exact nomatch h
  | cons other ds ih =>
      rcases List.mem_append.mp h with hfirst | hrest
      · obtain ⟨registry, hhandler, hmem⟩ := hasChannel_of_deliver hfirst
        exact ⟨registry, (handler_deliverEach _ ds).trans hhandler, hmem⟩
      · exact ih hrest

/-- What is noted about messages that are given up is no delivery. -/
theorem not_delivered_of_discarded {ds : List Delivery} :
    Note.delivered d ∉ ds.map .discarded := by
  intro h
  obtain ⟨other, -, heq⟩ := List.mem_map.mp h
  exact nomatch heq

/-- A completion delivers no message. -/
theorem not_delivered_complete {completion : Completion} :
    Note.delivered d ∉ (c.complete completion).2 := by
  intro h
  rw [complete] at h
  rcases List.mem_cons.mp h with heq | h
  · cases heq
  · split at h
    · cases h
    · exact not_delivered_of_discarded h

/-- A connection that leaves delivers no message. -/
theorem not_delivered_leave {ending : Ending} : Note.delivered d ∉ (c.leave ending).2 := by
  intro h
  rw [leave] at h
  cases hhandler : c.handler with
  | none =>
      rw [hhandler] at h
      rcases List.mem_cons.mp h with heq | h
      · cases heq
      · cases List.mem_singleton.mp h
  | some handler =>
      rw [hhandler] at h
      cases List.mem_singleton.mp h

/-- A message that was held is delivered to a subscriber that has its channel. -/
theorem hasChannel_of_resume {held : List Delivery} {completion : Completion}
    (h : .delivered d ∈ (c.resume held completion).2) :
    (c.resume held completion).1.HasChannel d.channel := by
  obtain ⟨state, hwake⟩ := wake_eq ((c.complete completion).1.deliverEach held).1
  rcases List.mem_append.mp h with hfirst | hrest
  · exact absurd hfirst not_delivered_complete
  · obtain ⟨registry, hhandler, hmem⟩ := hasChannel_of_deliverEach hrest
    refine ⟨registry, ?_, hmem⟩
    rw [resume]
    simp only [hwake]
    exact hhandler

/-- A step that puts a message into the buffer leaves a subscriber that has its channel. -/
theorem Steps.hasChannel {client : Nat} {s : Store Subscriber} {m : Move} {p : Progress}
    (hstep : Steps client s c m p) (h : .delivered d ∈ p.notes) :
    p.connection.HasChannel d.channel := by
  cases hstep with
  | message _ _ => exact hasChannel_of_deliver h
  | answered _ => exact absurd h not_delivered_complete
  | @answeredWaiting completion held _ =>
      obtain ⟨registry, hhandler, hmem⟩ := hasChannel_of_resume h
      have hrests := rests_flush (c.resume held completion).1 .settle
      exact ⟨registry, hrests.handler_eq.trans hhandler, hmem⟩
  | fatalWaiting _ => exact absurd h not_delivered_of_discarded
  | refuseShutDown _ => exact absurd h not_delivered_leave
  | shutDown _ => exact absurd h not_delivered_leave
  | request _ _ _ => exact nomatch List.mem_singleton.mp h
  | orphan _ _ _ => exact nomatch List.mem_singleton.mp h
  | left _ => exact nomatch List.mem_singleton.mp h
  | dropped _ => exact nomatch List.mem_singleton.mp h
  | hold _ _ _ => exact nomatch List.mem_singleton.mp h
  | accept _ _ => exact nomatch List.mem_singleton.mp h
  | acceptNothing _ => exact nomatch List.mem_singleton.mp h
  | sync _ => exact nomatch List.mem_singleton.mp h
  | _ => exact nomatch h

/-- A message that is posted is not delivered by that. -/
theorem not_delivered_postEach {ds : List Delivery} : Note.delivered d ∉ (c.postEach ds).2 := by
  intro h
  obtain ⟨other, heq | heq⟩ := note_of_mem_postEach c h
  · exact nomatch heq
  · exact nomatch heq

end Delivered

end Connection

/-! ### Runs -/

namespace Server

/-- A step of a server that puts a message into a connection's buffer leaves that connection a
subscriber that has its channel. -/
theorem hasChannel_of_step {y y' : Server} {i j : Nat} {m : Move} {log : Log} {d : Delivery}
    (h : y.step i m = some (y', log)) (hmem : .delivered d ∈ notesOf j log) :
    ∃ c, y'.connections[j]? = some c ∧ c.HasChannel d.channel := by
  obtain ⟨c, p, hc, hp, -, hconnections, hnotes⟩ := step_cases h
  rw [hnotes] at hmem
  rcases List.mem_append.mp hmem with hown | hposted
  · by_cases hij : i = j
    · subst hij
      rw [if_pos rfl] at hown
      obtain ⟨registry, hhandler, hchannel⟩ := (Connection.steps_of_step hp).hasChannel hown
      have hlength : i < y.connections.length := (List.getElem?_eq_some_iff.mp hc).1
      obtain ⟨mailbox, hposted⟩ := p.connection.postEach_eq (deliveriesFor i p.notices)
      refine ⟨(p.connection.postEach (deliveriesFor i p.notices)).1, ?_, registry, ?_, hchannel⟩
      · rw [hconnections, List.getElem?_set_self hlength, Option.map_some]
      · rw [hposted]
        exact hhandler
    · rw [if_neg hij] at hown
      exact nomatch hown
  · cases hmoved : (y.connections.set i p.connection)[j]? with
    | none =>
        rw [hmoved] at hposted
        exact nomatch hposted
    | some moved =>
        rw [hmoved] at hposted
        exact absurd hposted Connection.not_delivered_postEach

/-- What connections write in a run is what was put into their buffers. -/
theorem stream_of_run {y y' : Server} {moves : List (Nat × Move)} {log : Log} {j : Nat}
    {c : Connection} (hnew : ∀ c ∈ y.connections, ∃ settings, c = Connection.new settings)
    (hrun : y.run moves = some (y', log)) (hc : y'.connections[j]? = some c) :
    c.Stream False (notesOf j log) :=
  run_invariant_new (fun h hstep => (h.step (Connection.steps_of_step hstep)).mono False.elim)
    (fun _ _ d h => h.post d) hnew (fun settings => .new settings) hrun j c hc

/-- **Messages only where they are subscribed to.** New connections over one store, and any run of
them, whatever their calls are answered and whatever their writers do. Of each connection this
holds:

* What is written is a front of what was put into its buffer, with nothing behind it but the line
  that reports a failure.
* Every message in there has an acknowledgement for its channel in front of it, the last of which
  is that of a subscription.
* A handler that is there has exactly the channels whose last acknowledgement is that of a
  subscription.
* Whatever step comes next, it puts a message into the buffer only for a subscriber that has its
  channel. -/
theorem message_acknowledged {y y' : Server} {moves : List (Nat × Move)} {log : Log} {j : Nat}
    {c : Connection} (hnew : ∀ c ∈ y.connections, ∃ settings, c = Connection.new settings)
    (hrun : y.run moves = some (y', log)) (hc : y'.connections[j]? = some c) :
    (∃ sent reason, sent <+: encodedOf (notesOf j log) ∧
      writtenOf (notesOf j log) <+: sent ++ (lastError reason).encode) ∧
    (∀ before channel payload behind,
      unitsOf (notesOf j log) = before ++ .message channel payload :: behind →
        lastAck? channel before = some true) ∧
    (∀ handler, c.handler = some handler → ∀ channel,
      handler.isSubscribed channel = true ↔
        lastAck? channel (unitsOf (notesOf j log)) = some true) ∧
    ∀ i m y'' more, y'.step i m = some (y'', more) → ∀ d, .delivered d ∈ notesOf j more →
      ∃ c', y''.connections[j]? = some c' ∧ c'.HasChannel d.channel := by
  have hstart : ∀ (j : Nat) c, y.connections[j]? = some c →
      ∃ settings, c = Connection.new settings := fun _ c hc => hnew c (List.mem_of_getElem? hc)
  have hannounced : c.Announced (unitsOf (notesOf j log)) := by
    refine run_invariant (P := fun c notes => c.Announced (unitsOf notes)) ?_ ?_ ?_ hrun j c hc
    · intro client s c m p notes h hstep
      rw [unitsOf_append]
      exact h.step (Connection.steps_of_step hstep)
    · intro c notes d h
      rw [unitsOf_append]
      exact h.post d
    · intro j c hc
      obtain ⟨settings, rfl⟩ := hstart j c hc
      exact .new settings
  have hstream : c.Stream False (notesOf j log) := by
    refine run_invariant (P := Connection.Stream False) ?_ ?_ ?_ hrun j c hc
    · exact fun h hstep => (h.step (Connection.steps_of_step hstep)).mono False.elim
    · exact fun c notes d h => h.post d
    · intro j c hc
      obtain ⟨settings, rfl⟩ := hstart j c hc
      exact .new settings
  obtain ⟨sent, reason, hsent, hprefix⟩ := hstream.exists_prefix
  exact ⟨⟨sent, reason, hsent, (List.prefix_append _ _).trans hprefix⟩, hannounced.messages,
    hannounced.handler, fun i m y'' more h d hmem => hasChannel_of_step h hmem⟩

/-- Two clients of an empty store. -/
def twoClients : Server := { connections := [Connection.new {}, Connection.new {}] }

/-- Both clients are new. -/
theorem new_of_mem_twoClients :
    ∀ c ∈ twoClients.connections, ∃ settings, c = Connection.new settings :=
  List.forall_mem_cons.mpr ⟨⟨{}, rfl⟩, List.forall_mem_singleton.mpr ⟨{}, rfl⟩⟩

/-- One client subscribes to a channel and reads what the other one publishes on it. -/
def publishing : List (Nat × Move) :=
  [(0, .arrive (.chunk (Bytes.ofString "*2\r\n$9\r\nSUBSCRIBE\r\n$1\r\na\r\n"))),
    (0, .proceed), (0, .proceed), (0, .answer fun _ => none), (0, .proceed), (0, .proceed),
    (0, .proceed), (0, .proceed), (0, .accept 512), (0, .sync),
    (1, .arrive (.chunk (Bytes.ofString "*3\r\n$7\r\nPUBLISH\r\n$1\r\na\r\n$1\r\nx\r\n"))),
    (1, .proceed), (1, .proceed), (1, .answer fun _ => none),
    (0, .proceed), (0, .proceed), (0, .proceed), (0, .accept 512)]

/-- The subscriber is told of its subscription before it is sent the message. -/
theorem message_acknowledged_publishing :
    ∃ y log c,
      twoClients.run publishing = some (y, log) ∧ y.connections[0]? = some c ∧
        writtenOf (notesOf 0 log) = Reply.encode (.subscribed [97] 1) ++
          Reply.encode (.message [97] [120]) ∧
        ∀ before payload behind,
          unitsOf (notesOf 0 log) = before ++ .message [97] payload :: behind →
            lastAck? [97] before = some true := by
  have hwritten : (twoClients.run publishing).map
      (fun result => (result.1.connections.length, writtenOf (notesOf 0 result.2))) =
        some (2, Reply.encode (.subscribed [97] 1) ++ Reply.encode (.message [97] [120])) := by
    decide +kernel
  obtain ⟨⟨y, log⟩, hrun, heq⟩ := Option.map_eq_some_iff.mp hwritten
  obtain ⟨hlength, hbytes⟩ := Prod.mk.inj heq
  have hzero : 0 < y.connections.length := hlength ▸ Nat.zero_lt_two
  obtain ⟨c, hc⟩ : ∃ c, y.connections[0]? = some c := ⟨_, List.getElem?_eq_getElem hzero⟩
  have hnew : ∀ c ∈ [Connection.new {}, Connection.new {}],
      ∃ settings, c = Connection.new settings :=
    List.forall_mem_cons.mpr ⟨⟨{}, rfl⟩, List.forall_mem_singleton.mpr ⟨{}, rfl⟩⟩
  exact ⟨y, log, c, hrun, hc, hbytes, fun before payload behind =>
    (message_acknowledged hnew hrun hc).2.1 before [97] payload behind⟩

end Server

end RespStore
