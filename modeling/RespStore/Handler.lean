import RespStore.Command.Execution
import RespStore.Command.Parser

/-!
# Request handlers

A connection answers requests in one of two modes. In normal mode every command is carried
out. Once a connection has subscribed to a channel it is a *subscriber*: it accepts only
commands about subscriptions, `PING` and `QUIT`, until it has left its last channel.

`Handler.handle` turns a request into a task that ends with the reply and with the handler
for the next request.
-/

namespace RespStore

/-- The mode in which a connection answers requests. -/
inductive Handler where
  /-- Every command is carried out. -/
  | normal
  /-- Only commands about subscriptions are; the registry holds the listeners. -/
  | subscriber (registry : Registry)

/-- What a request leaves behind. -/
structure Completion where
  /-- The handler for the next request. -/
  handler : Handler
  /-- The reply to the request. -/
  reply : Reply
  /-- Whether the connection ends once the reply is written. -/
  close : Bool := false

/-- A text that tells why a connection cannot go on. -/
abbrev Fatal := String

namespace Handler

/-- Whether the connection has subscriptions. -/
def isSubscriber : Handler → Bool
  | .normal => false
  | .subscriber _ => true

/-- The listeners of the connection. -/
def registry : Handler → Registry
  | .normal => ∅
  | .subscriber registry => registry

/-- Whether the connection is subscribed to a channel. -/
def isSubscribed (h : Handler) (channel : Bytes) : Bool := h.registry.contains channel

/-- The handler that goes with a registry: a subscriber while there are listeners. -/
def ofRegistry (registry : Registry) : Handler :=
  if registry.isEmpty then .normal else .subscriber registry

end Handler

namespace Registry

/-- Ends a change of subscriptions. The acknowledgements stand in reverse. -/
def complete (registry : Registry) (acks : List Reply) : Completion :=
  { handler := .ofRegistry registry, reply := .many acks.reverse }

/-- Subscribes to channels, one after the other. A channel that is new gets a listener; each
is acknowledged with the number of subscriptions then held. A refused listener is reported
and ends the request; the channels behind it are not tried. -/
def subscribe (registry : Registry) (acks : List Reply) : List Bytes → Task Completion
  | [] => .done (registry.complete acks)
  | channel :: channels =>
    if registry.contains channel then
      subscribe registry (.subscribed channel registry.size :: acks) channels
    else
      .call registry (.listen channel) fun
        | .ok id =>
          let registry := registry.insert channel id
          subscribe registry (.subscribed channel registry.size :: acks) channels
        | .error e =>
          .done (registry.complete
            (.error ("ERR Failed to subscribe to channel: " ++ e.message) :: acks))

/-- Leaves channels, one after the other. A channel that has a listener loses it; each is
acknowledged with the number of subscriptions left, also when it was not subscribed. A
listener that cannot be taken off is reported and ends the request. -/
def leave (registry : Registry) (acks : List Reply) : List Bytes → Task Completion
  | [] => .done (registry.complete acks)
  | channel :: channels =>
    match registry[channel]? with
    | none => leave registry (.unsubscribed (some channel) registry.size :: acks) channels
    | some id =>
      .call registry (.unlisten id) fun
        | .ok () =>
          let registry := registry.erase channel
          leave registry (.unsubscribed (some channel) registry.size :: acks) channels
        | .error e =>
          .done (registry.complete
            (.error ("ERR Failed to unsubscribe from channel: " ++ e.message) :: acks))

/-- Leaves the named channels, or every channel when none is named. When there is none to
leave, that alone is acknowledged. -/
def unsubscribe (registry : Registry) (channels : List Bytes) : Task Completion :=
  match if channels.isEmpty then registry.channels else channels with
  | [] => .done (registry.complete [.unsubscribed none 0])
  | channels => leave registry [] channels

end Registry

namespace Handler

/-- Replies with what an action answers, or with its error, and stays in normal mode. -/
def answer (action : Action Reply) : Task (Except Fatal Completion) := do
  match ← action.run with
  | .ok reply => return .ok { handler := .normal, reply }
  | .error (.reply text) => return .ok { handler := .normal, reply := .error text }
  | .error (.fatal text) => return .error text

/-- Carries out a command in normal mode. -/
def perform : Command → Task (Except Fatal Completion)
  | .del keys => answer (Execution.del keys)
  | .get key => answer (Execution.get key)
  | .incrByFloat key increment => answer (Execution.incrByFloat key increment)
  | .lcs query => answer (Execution.lcs query)
  | .set key value => answer (Execution.set key value)
  | .lindex key index => answer (Execution.lindex key index)
  | .llen key => answer (Execution.llen key)
  | .pop side key count => answer (Execution.pop side key count)
  | .push side key values => answer (Execution.push side key values)
  | .lrange key start stop => answer (Execution.lrange key start stop)
  | .publish channel message => answer (Execution.publish channel message)
  | .subscribe channels => Except.ok <$> Registry.subscribe ∅ [] channels
  | .unsubscribe channels => Except.ok <$> Registry.unsubscribe ∅ channels
  | .client _ => answer (return .ok)
  | .config subcommand parameter => answer (Execution.config subcommand parameter)
  | .echo message => answer (return .bulk message)
  | .ping payload => answer (return Execution.pong payload)
  | .quit => return .ok { handler := .normal, reply := .ok, close := true }
  | .readOnly => answer (return .ok)
  | .readWrite => answer (return .ok)

/-- The text that refuses a command to a subscriber. -/
def refusal (command : Command) : String :=
  "ERR Can't execute '" ++ command.name ++
    "': only (P|S)SUBSCRIBE / (P|S)UNSUBSCRIBE / PING / QUIT / RESET are allowed in this context"

/-- Carries out a command for a subscriber, as far as it is accepted. -/
def performSubscribed (registry : Registry) : Command → Task (Except Fatal Completion)
  | .subscribe channels => Except.ok <$> registry.subscribe [] channels
  | .unsubscribe channels => Except.ok <$> registry.unsubscribe channels
  | .ping payload =>
    return .ok { handler := .subscriber registry, reply := Execution.pong payload }
  | .quit => return .ok { handler := .subscriber registry, reply := .ok, close := true }
  | command => return .ok { handler := .subscriber registry, reply := .error (refusal command) }

/-- What is to be done for a request. -/
def handle (h : Handler) (request : Request) : Task (Except Fatal Completion) :=
  match Command.ofRequest request with
  | .error e => return .ok { handler := h, reply := .error e.message }
  | .ok command =>
    match h with
    | .normal => perform command
    | .subscriber registry => performSubscribed registry command

/-- Takes the listeners off in the order given. Refusals are ignored. -/
def unlistenEach : List ListenerId → Task Unit
  | [] => .done ()
  | id :: ids => .call ∅ (.unlisten id) fun _ => unlistenEach ids

/-- Gives up every subscription, because the connection ends. -/
def disconnect (h : Handler) : Task Unit := unlistenEach h.registry.ids

end Handler

end RespStore
