import RespStore.Backend
import RespStore.Handler

/-!
# Several handlers over one store

An exchange is what handlers do to each other when their requests are run one at a time, each
to its end: they share one store, and every commit may put messages into any mailbox. A
participant keeps its mailbox when its handler is gone.
-/

namespace RespStore

/-- A handler with its mailbox, and with the backing store that its calls go through. -/
structure Participant where
  /-- How its calls are answered. -/
  backend : Backend
  /-- The messages that wait for it. -/
  mailbox : Mailbox
  /-- The handler, unless it is gone. -/
  handler : Option Handler := some .normal

/-- Several handlers over one store. -/
structure Exchange where
  /-- The shared store. -/
  store : Store Subscriber := .empty
  /-- The participants, by number. -/
  participants : List Participant

namespace Exchange

/-- Puts the messages that notices bring into the mailboxes, in the order of the notices. -/
def post (notices : List (Notice Subscriber)) (participants : List Participant) :
    List Participant :=
  participants.mapIdx fun i p =>
    { p with mailbox := (deliveriesFor i notices).foldl Mailbox.offer p.mailbox }

/-- Gives a participant another handler, or none. -/
def setHandler (x : Exchange) (i : Nat) (handler : Option Handler) : Exchange :=
  { x with participants := x.participants.modify i fun p => { p with handler } }

/-- Runs a task of a participant to its end. -/
def run {α : Type} (x : Exchange) (i : Nat) (backend : Backend) (task : Task α) : α × Exchange :=
  let finished := task.run backend i x.store
  (finished.value,
    { store := finished.store, participants := post finished.notices x.participants })

/-- Runs a request of a participant. Answers nothing when its handler is gone. A failure for
good takes the handler away. -/
def request (x : Exchange) (i : Nat) (r : Request) :
    Option (Except Fatal Completion) × Exchange :=
  match x.participants[i]? with
  | some { backend, handler := some handler, .. } =>
    match x.run i backend (handler.handle r) with
    | (.ok completion, x) => (some (.ok completion), x.setHandler i (some completion.handler))
    | (.error fatal, x) => (some (.error fatal), x.setHandler i none)
  | _ => (none, x)

/-- Takes the handler of a participant away, and its listeners off. Answers whether there was
a handler. -/
def leave (x : Exchange) (i : Nat) : Bool × Exchange :=
  match x.participants[i]? with
  | some { backend, handler := some handler, .. } =>
    let (_, x) := x.run i backend handler.disconnect
    (true, x.setHandler i none)
  | _ => (false, x)

/-- Takes all messages that wait for a participant. -/
def collect (x : Exchange) (i : Nat) : List Delivery × Exchange :=
  ((x.participants[i]?.map fun p => p.mailbox.queued).getD [],
    { x with participants := x.participants.modify i fun p =>
        { p with mailbox := p.mailbox.cleared } })

end Exchange

end RespStore
