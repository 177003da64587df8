import RespStore.Backend
import RespStore.Connection.Reader
import RespStore.Handler
import RespStore.Outbound
import RespStore.Settings

/-!
# Connections

A connection answers requests strictly in the order in which they arrive. Replies gather in
the outbound buffer, which is written out when there is nothing more to read at the moment,
when a request had to be waited for, and when it holds more bytes than the write budget.
Messages on subscribed channels are written whenever the connection is about to wait for
input, and before that input is read; those that come while a request is waited for are held
until its reply is known.

A connection is a machine that makes small steps. `Phase` says where it stands, `Move` says
what happens next, and `Connection.step` makes the move, if it is possible. What is decided
outside the connection is part of the move: what arrives, whether and how the store answers
a call, how many bytes a write takes, and whether the writer fails. A connection that has to
wait is one for which the moves it waits for have not happened yet. Each step also notes what
it did.
-/

namespace RespStore

/-- What a connection is doing, as far as it matters for taking requests. -/
inductive State where
  /-- It reads and answers requests. -/
  | idle
  /-- It waits for the store, and reads nothing meanwhile. -/
  | awaiting
  /-- It takes no further request. -/
  | closed
  deriving Repr, DecidableEq

/-- How a connection ended. -/
inductive Ending where
  /-- The client left, or asked to quit. -/
  | completed
  /-- Something failed for good. -/
  | failed (reason : String)
  /-- The connection was dropped before its end. -/
  | dropped
  deriving Repr, DecidableEq

/-- What comes after a flush. -/
inductive AfterFlush where
  /-- Looking at the reader. -/
  | look
  /-- Waiting for a message or for input. -/
  | select
  /-- Checking the write budget, behind a request that was waited for. -/
  | settle
  /-- The next turn of the main loop. -/
  | turn
  /-- Shutting the writer down, since the connection is over. -/
  | shutDown (ending : Ending)
  deriving Repr, DecidableEq

/-- Where a connection stands. -/
inductive Phase where
  /-- At the start of a turn of the main loop. -/
  | turn
  /-- About to see whether a request has arrived. -/
  | look
  /-- Waiting for a message or for input. -/
  | select
  /-- About to check the write budget. -/
  | settle
  /-- Working on a request that has not had to wait yet. -/
  | running (task : Task (Except Fatal Completion))
  /-- Waiting for a call that a request makes; messages that come meanwhile are held. -/
  | waiting (task : Task (Except Fatal Completion)) (held : List Delivery)
  /-- Writing a chunk, with more chunks behind it. -/
  | writing (chunk : Bytes) (more : List Bytes) (next : AfterFlush)
  /-- Waiting for the writer to pass on what it took. -/
  | syncing (next : AfterFlush)
  /-- Waiting for the writer to shut down. -/
  | shuttingDown (ending : Ending)
  /-- Taking off the listeners that are left. -/
  | leaving (task : Task Unit) (ending : Ending)
  /-- Dropped; the listeners that were left are taken off aside. -/
  | abandoned (task : Task Unit)
  /-- Over. -/
  | ended (ending : Ending)

/-- Something that a step did. -/
inductive Note where
  /-- A request was taken from the reader. -/
  | took (request : Request)
  /-- A reply was put into the outbound buffer. -/
  | replied (reply : Reply)
  /-- A message was put into the outbound buffer. -/
  | delivered (delivery : Delivery)
  /-- A message was given up, because the connection is not subscribed to its channel. -/
  | discarded (delivery : Delivery)
  /-- A message was taken from the mailbox while a request was waited for. -/
  | held (delivery : Delivery)
  /-- A message was put into the mailbox. -/
  | accepted (delivery : Delivery)
  /-- A message found the mailbox full, or the connection gone. -/
  | lost (delivery : Delivery)
  /-- The writer took some bytes. -/
  | wrote (bytes : Bytes)
  /-- The writer passed on what it took. -/
  | synced
  /-- The writer was told to shut down. -/
  | shutDown
  /-- The connection ended. -/
  | ended (ending : Ending)

/-- What happens next to a connection. -/
inductive Move where
  /-- It does what it can do on its own. -/
  | proceed
  /-- The call it waits for is answered: by what stands in for the store, or else by the
  store. -/
  | answer (instead : (c : Call) → Option c.Answer)
  /-- The computation it waits for is finished. -/
  | computed
  /-- The request it works on has to wait. -/
  | suspend
  /-- A message is taken from the mailbox while a request is waited for. -/
  | hold
  /-- The writer takes the first `n` bytes of what is being written, or all of it. -/
  | accept (n : Nat)
  /-- The writer passes on what it took. -/
  | sync
  /-- The writer shuts down. -/
  | shutDown
  /-- The writer fails. -/
  | refuse (reason : String)
  /-- Something arrives from the client. -/
  | arrive (arrival : Arrival)
  /-- The connection is dropped. -/
  | abandon

/-- One client's connection. -/
structure Connection where
  /-- The sizes it works with. -/
  settings : Settings
  /-- Its input. -/
  reader : Reader := {}
  /-- Replies and messages that are not written yet. -/
  outbound : Outbound
  /-- The handler for the next request. It is away while a request is worked on. -/
  handler : Option Handler := some .normal
  /-- What it is doing. -/
  state : State := .idle
  /-- Whether requests are being read. -/
  autoRead : Bool := true
  /-- The messages that wait for it. -/
  mailbox : Mailbox
  /-- Where it stands. -/
  phase : Phase := .turn

/-- What a step leaves behind. -/
structure Progress where
  /-- The connection afterwards. -/
  connection : Connection
  /-- The shared store afterwards. -/
  store : Store Subscriber
  /-- The notices that go out. -/
  notices : List (Notice Subscriber) := []
  /-- What was done, in order. -/
  notes : List Note := []

namespace Connection

/-- A new connection. Its mailbox has room for at least one message. -/
def new (settings : Settings) : Connection :=
  { settings
    outbound := .empty settings.minimumBuffer
    mailbox := ⟨max settings.queueCapacity 1, []⟩ }

/-- A connection after a step, with what the step did. -/
abbrev Stepped := Connection × List Note

/-- Whether the connection is subscribed to a channel. It is to none while its handler is
away. -/
def isSubscribed (c : Connection) (channel : Bytes) : Bool :=
  (c.handler.map fun handler => handler.isSubscribed channel).getD false

/-- Reading goes on once everything has been written. -/
def writable (c : Connection) : Connection :=
  if !c.autoRead && c.outbound.isEmpty then { c with autoRead := true } else c

/-- Goes on after a flush. -/
def afterFlush (c : Connection) : AfterFlush → Connection
  | .look => { c.writable with phase := .look }
  | .select => { c with phase := .select }
  | .settle => { c with autoRead := true, phase := .settle }
  | .turn => { c.writable with phase := .turn }
  | .shutDown ending => { c with phase := .shuttingDown ending }

/-- Starts to write out everything that is buffered. The writer is not touched when that is
nothing. -/
def flush (c : Connection) (next : AfterFlush) : Connection :=
  let c' := { c with outbound := c.outbound.cleared }
  match c.outbound.chunks with
  | [] => c'.afterFlush next
  | chunk :: more => { c' with phase := .writing chunk more next }

/-- Starts to close: what is buffered is written out, and no request is taken any more. -/
def close (c : Connection) (ending : Ending) : Connection :=
  { c with state := .closed }.flush (.shutDown ending)

/-- Gives up, because something failed for good. The client is told. -/
def fail (c : Connection) (reason : String) : Connection :=
  { c with outbound := c.outbound.push (.error ("ERR Server Error Encountered: " ++ reason)) }.close
    (.failed reason)

/-- Puts a message into the outbound buffer, unless the connection is not subscribed to its
channel. -/
def deliver (c : Connection) (d : Delivery) : Stepped :=
  if c.isSubscribed d.channel then
    ({ c with outbound := c.outbound.push (.message d.channel d.payload) }, [.delivered d])
  else (c, [.discarded d])

/-- Puts several messages into the outbound buffer, in order. -/
def deliverEach (c : Connection) : List Delivery → Stepped
  | [] => (c, [])
  | d :: ds =>
    let (c, notes) := c.deliver d
    let (c, more) := c.deliverEach ds
    (c, notes ++ more)

/-- Puts the reply to a request into the outbound buffer and installs the next handler. The
messages that wait are given up when that handler has no subscriptions. -/
def complete (c : Connection) (completion : Completion) : Stepped :=
  let stays := completion.handler.isSubscriber
  ({ c with
      outbound := c.outbound.push completion.reply
      mailbox := if stays then c.mailbox else c.mailbox.cleared
      handler := some completion.handler
      state := if completion.close then .closed else c.state },
    .replied completion.reply :: if stays then [] else c.mailbox.queued.map .discarded)

/-- Starts to work on a request, which takes the handler away. -/
def dispatch (c : Connection) (request : Request) : Stepped :=
  match c.handler with
  | none => (c.fail "connection has no request handler", [.took request])
  | some handler =>
    ({ c with handler := none, phase := .running (handler.handle request) }, [.took request])

/-- Acts on what the reader found. -/
def receive (c : Connection) : Reader.Found → Stepped
  | .request request => c.dispatch request
  | .finished => ({ c with state := .closed, phase := .turn }, [])
  | .failed cause => (c.fail cause.message, [])

/-- Sees whether a request has arrived. When none has, everything is written out before the
connection waits. -/
def look (c : Connection) : Stepped :=
  match c.reader.poll c.settings.maxFrame with
  | (some found, reader) => { c with reader }.receive found
  | (none, reader) => ({ c with reader }.flush .select, [])

/-- Takes a message, or else reads what has arrived. With neither there is nothing to do. -/
def select (c : Connection) : Option Stepped :=
  match c.mailbox.take? with
  | some (d, mailbox) => some ({ c with mailbox, phase := .turn }.deliver d)
  | none =>
    if c.reader.arrivals.isEmpty then none
    else
      match c.reader.poll c.settings.maxFrame with
      | (some found, reader) => some ({ c with reader }.receive found)
      | (none, reader) => some ({ c with reader }, [])

/-- Starts a turn of the main loop. -/
def turn (c : Connection) : Connection :=
  if c.state = .closed then c.close .completed
  else if c.autoRead then { c with phase := .look }
  else c.flush .look

/-- Checks the write budget behind a request. -/
def settle (c : Connection) : Connection :=
  if c.settings.writeBudget < c.outbound.readable then { c with autoRead := false }.flush .turn
  else { c with phase := .turn }

/-- Ends a request that did not have to wait. -/
def finish (c : Connection) : Except Fatal Completion → Stepped
  | .error reason => (c.fail reason, [])
  | .ok completion =>
    let (c, notes) := c.complete completion
    ({ c with phase := .settle }, notes)

/-- Ends a request that had to wait. The messages held meanwhile follow its reply, as far as
they are still wanted. -/
def finishWaiting (c : Connection) (held : List Delivery) : Except Fatal Completion → Stepped
  | .error reason => (c.fail reason, held.map .discarded)
  | .ok completion =>
    let (c, notes) := c.complete completion
    let (c, more) := c.deliverEach held
    let c := if c.state = .awaiting then { c with state := .idle } else c
    (c.flush .settle, notes ++ more)

/-- Ends the connection. -/
def finishLeaving (c : Connection) (ending : Ending) : Stepped :=
  ({ c with phase := .ended ending }, [.ended ending])

/-- Gives up the subscriptions that are left, once the writer was told to shut down, whether
it did or failed. -/
def leave (c : Connection) (ending : Ending) : Stepped :=
  match c.handler with
  | none =>
    let (c, notes) := c.finishLeaving ending
    (c, .shutDown :: notes)
  | some handler =>
    ({ c with handler := none, phase := .leaving handler.disconnect ending }, [.shutDown])

/-- What a connection can do on its own. -/
def proceed (c : Connection) : Option Stepped :=
  match c.phase with
  | .turn => some (c.turn, [])
  | .look => some c.look
  | .select => c.select
  | .settle => some (c.settle, [])
  | .running (.done result) => some (c.finish result)
  | .waiting (.done result) held => some (c.finishWaiting held result)
  | .leaving (.done ()) ending => some (c.finishLeaving ending)
  | .abandoned (.done ()) => some (c.finishLeaving .dropped)
  | _ => none

/-- The listeners that the connection holds: those of its handler, or those that the task owns
which its handler is away with. Listeners that are already being given up are not held any
more. -/
def registry (c : Connection) : Registry :=
  match c.phase with
  | .running (.done (.ok completion)) => completion.handler.registry
  | .waiting (.done (.ok completion)) _ => completion.handler.registry
  | .running task => task.owned
  | .waiting task _ => task.owned
  | _ => (c.handler.map Handler.registry).getD ∅

/-- Drops the connection. The listeners that it holds are taken off aside. -/
def abandon (c : Connection) : Option Connection :=
  match c.phase with
  | .abandoned _ => none
  | .ended _ => none
  | _ => some { c with handler := none, phase := .abandoned (Handler.unlistenEach c.registry.ids) }

/-- A request that has to wait, which pauses reading. -/
def suspend (c : Connection) : Option Connection :=
  match c.phase with
  | .running (.done _) => none
  | .running task =>
    some { c with state := .awaiting, autoRead := false, phase := .waiting task [] }
  | _ => none

/-- Takes a message from the mailbox while a request is waited for. -/
def hold (c : Connection) : Option Stepped :=
  match c.phase with
  | .waiting (.done _) _ => none
  | .waiting task held =>
    c.mailbox.take?.map fun (d, mailbox) =>
      ({ c with mailbox, phase := .waiting task (held ++ [d]) }, [.held d])
  | _ => none

/-- Goes on behind a computation. -/
def computed (c : Connection) : Option Connection :=
  match c.phase with
  | .running (.aside next) => some { c with phase := .running next }
  | .waiting (.aside next) held => some { c with phase := .waiting next held }
  | _ => none

/-- A flush fails. That ends the connection, unless it is ending anyway. -/
def flushFailed (c : Connection) (reason : String) : AfterFlush → Connection
  | .shutDown ending => { c with phase := .shuttingDown ending }
  | _ => c.fail reason

/-- The reason with which a flush fails when a write takes nothing. -/
def writeZero : String := "write zero"

/-- The writer takes the first `n` bytes of what is left of the chunk that is being written,
or all of it when that is less. Taking nothing is a failure. -/
def accept (c : Connection) (n : Nat) : Option Stepped :=
  match c.phase with
  | .writing chunk more next =>
    if n = 0 then some (c.flushFailed writeZero next, [.wrote []])
    else
      let phase := match chunk.drop n, more with
        | [], [] => .syncing next
        | [], chunk :: more => .writing chunk more next
        | chunk, more => .writing chunk more next
      some ({ c with phase }, [.wrote (chunk.take n)])
  | _ => none

/-- The writer fails. -/
def refuse (c : Connection) (reason : String) : Option Stepped :=
  match c.phase with
  | .writing _ _ next => some (c.flushFailed reason next, [])
  | .syncing next => some (c.flushFailed reason next, [])
  | .shuttingDown ending => some (c.leave ending)
  | _ => none

/-- The writer passes on what it took. -/
def sync (c : Connection) : Option Stepped :=
  match c.phase with
  | .syncing next => some (c.afterFlush next, [.synced])
  | _ => none

/-- The writer shuts down. -/
def shutDown (c : Connection) : Option Stepped :=
  match c.phase with
  | .shuttingDown ending => some (c.leave ending)
  | _ => none

/-- The call that the connection waits for is answered. -/
def answer (c : Connection) (client : Nat) (s : Store Subscriber)
    (instead : (q : Call) → Option q.Answer) : Option Progress :=
  match c.phase with
  | .running (.call _ q next) =>
    let reaction := s.react client q (instead q)
    some ⟨{ c with phase := .running (next reaction.answer) }, reaction.store, reaction.notices, []⟩
  | .waiting (.call _ q next) held =>
    let reaction := s.react client q (instead q)
    some ⟨{ c with phase := .waiting (next reaction.answer) held }, reaction.store,
      reaction.notices, []⟩
  | .leaving (.call _ q next) ending =>
    let reaction := s.react client q (instead q)
    some ⟨{ c with phase := .leaving (next reaction.answer) ending }, reaction.store,
      reaction.notices, []⟩
  | .abandoned (.call _ q next) =>
    let reaction := s.react client q (instead q)
    some ⟨{ c with phase := .abandoned (next reaction.answer) }, reaction.store,
      reaction.notices, []⟩
  | _ => none

/-- Makes a move, if it is possible. The connection has the number `client` and shares the
store `s` with others. -/
def step (client : Nat) (s : Store Subscriber) (c : Connection) : Move → Option Progress
  | .proceed => c.proceed.map fun (c, notes) => ⟨c, s, [], notes⟩
  | .answer instead => c.answer client s instead
  | .computed => c.computed.map fun c => ⟨c, s, [], []⟩
  | .suspend => c.suspend.map fun c => ⟨c, s, [], []⟩
  | .hold => c.hold.map fun (c, notes) => ⟨c, s, [], notes⟩
  | .accept n => (c.accept n).map fun (c, notes) => ⟨c, s, [], notes⟩
  | .sync => c.sync.map fun (c, notes) => ⟨c, s, [], notes⟩
  | .shutDown => c.shutDown.map fun (c, notes) => ⟨c, s, [], notes⟩
  | .refuse reason => (c.refuse reason).map fun (c, notes) => ⟨c, s, [], notes⟩
  | .arrive a => some ⟨{ c with reader := c.reader.arrive a }, s, [], []⟩
  | .abandon => c.abandon.map fun c => ⟨c, s, [], []⟩

end Connection

end RespStore
