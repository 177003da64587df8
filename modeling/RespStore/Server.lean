import RespStore.Connection

/-!
# Several connections over one store

Connections take steps in any order. Each step works on the shared store, and a commit puts
messages into the mailboxes of the connections that listen. A connection that is over, or has
been dropped, receives nothing more.
-/

namespace RespStore

/-- Whether messages still reach the connection. -/
def Connection.isPresent (c : Connection) : Bool :=
  match c.phase with
  | .abandoned _ => false
  | .ended _ => false
  | _ => true

/-- Puts a message into the mailbox, or notes that it is lost. -/
def Connection.post (c : Connection) (d : Delivery) : Connection.Stepped :=
  if c.isPresent && !c.mailbox.isFull then
    ({ c with mailbox := c.mailbox.offer d }, [.accepted d])
  else (c, [.lost d])

/-- Puts several messages into the mailbox, in order. -/
def Connection.postEach (c : Connection) : List Delivery → Connection.Stepped
  | [] => (c, [])
  | d :: ds =>
    let (c, notes) := c.post d
    let (c, more) := c.postEach ds
    (c, notes ++ more)

/-- Connections over one store. Connections are known by their number. -/
structure Server where
  /-- The shared store. -/
  store : Store Subscriber := .empty
  /-- The connections, by number. -/
  connections : List Connection

namespace Server

/-- Puts the messages that notices bring into the mailboxes. Answers the connections and what
was noted for each of them. -/
def postAll (notices : List (Notice Subscriber)) (connections : List Connection) :
    List Connection.Stepped :=
  connections.mapIdx fun i c => c.postEach (deliveriesFor i notices)

/-- What a step of one connection did, and what it did to the mailboxes, by the number of the
connection it happened to. -/
abbrev Log := List (Nat × Note)

/-- Makes a move of connection `i`, if it is possible. -/
def step (y : Server) (i : Nat) (m : Move) : Option (Server × Log) := do
  let c ← y.connections[i]?
  let p ← c.step i y.store m
  let posted := postAll p.notices (y.connections.set i p.connection)
  return (⟨p.store, posted.map Prod.fst⟩,
    p.notes.map (fun note => (i, note)) ++
      (posted.mapIdx fun j stepped => stepped.2.map fun note => (j, note)).flatten)

/-- Makes moves one after the other, as long as they are possible. -/
def run (y : Server) : List (Nat × Move) → Option (Server × Log)
  | [] => some (y, [])
  | (i, m) :: moves => do
    let (y, log) ← y.step i m
    let (y, more) ← y.run moves
    return (y, log ++ more)

end Server

end RespStore
