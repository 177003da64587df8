import RespStore.Server

/-!
# Connections in one thread

A simulation runs connections one at a time over in-memory pipes. Running a connection makes
every move that is possible under its circumstances until it waits: for input, for a writer
that is stalled, or for a permit of a gated store. The circumstances decide what the moves
leave open: how calls are answered and after how much time, and what the writer does.

* A *prompt* store answers every call at once.
* A *delayed* store answers every call the second time it is looked at. While a request
  waits, one message can be taken from the mailbox each time.
* A *gated* store answers a call once it has taken a permit.
-/

namespace RespStore

/-- When calls are answered. -/
inductive Pace where
  /-- At once. -/
  | prompt
  /-- The second time they are looked at. The flag tells whether the call that is waited for
  has been looked at only once, so that the mailbox comes first. -/
  | delayed (lookedAtOnce : Bool)
  /-- Once they have taken a permit, of which there are so many. -/
  | gated (permits : Nat)
  deriving Repr, DecidableEq

/-- What the writer of a connection does. -/
structure Line where
  /-- The most bytes that one write takes. -/
  limit : Option Nat := none
  /-- Whether writes do not complete. -/
  stalled : Bool := false
  /-- Whether writes fail. -/
  broken : Bool := false
  deriving Repr, DecidableEq

/-- What decides the moves that a connection cannot make on its own. -/
structure Circumstances where
  /-- How its calls are answered. -/
  backend : Backend := .plain
  /-- When they are answered. -/
  pace : Pace := .prompt
  /-- What its writer does. -/
  line : Line := {}

namespace Circumstances

/-- Gives the gate more permits, if there is one. -/
def release (k : Circumstances) (n : Nat) : Circumstances :=
  match k.pace with
  | .gated permits => { k with pace := .gated (permits + n) }
  | _ => k

/-- The answer to a call. -/
def answering (k : Circumstances) (s : Store Subscriber) : Move := .answer (k.backend.instead s)

/-- The next move while a request is worked on that has not had to wait. -/
def nextRunning (k : Circumstances) (s : Store Subscriber) {α : Type} :
    Task α → Move × Circumstances
  | .done _ => (.proceed, k)
  | .aside _ => (.suspend, k)
  | .call _ _ _ =>
    match k.pace with
    | .prompt => (k.answering s, k)
    | .delayed _ => (.suspend, { k with pace := .delayed false })
    | .gated 0 => (.suspend, k)
    | .gated (permits + 1) => (k.answering s, { k with pace := .gated permits })

/-- The next move while a request waits. -/
def nextWaiting (k : Circumstances) (s : Store Subscriber) (mailbox : Mailbox) {α : Type} :
    Task α → Option (Move × Circumstances)
  | .done _ => some (.proceed, k)
  | .aside _ => some (.computed, k)
  | .call _ _ _ =>
    match k.pace with
    | .prompt => some (k.answering s, k)
    | .delayed lookedAtOnce =>
      if lookedAtOnce && !mailbox.queued.isEmpty then
        some (.hold, { k with pace := .delayed false })
      else some (k.answering s, { k with pace := .delayed true })
    | .gated 0 => if mailbox.queued.isEmpty then none else some (.hold, k)
    | .gated (permits + 1) => some (k.answering s, { k with pace := .gated permits })

/-- The next move while listeners are taken off in the end. -/
def nextLeaving (k : Circumstances) (s : Store Subscriber) {α : Type} :
    Task α → Option (Move × Circumstances)
  | .done _ => some (.proceed, k)
  | .aside _ => some (.computed, k)
  | .call _ _ _ =>
    match k.pace with
    | .gated 0 => none
    | .gated (permits + 1) => some (k.answering s, { k with pace := .gated permits })
    | _ => some (k.answering s, k)

/-- The reason with which a broken writer fails. -/
def brokenPipe : String := "broken pipe"

/-- What the writer does with a chunk. -/
def nextWriting (k : Circumstances) (chunk : Bytes) : Option Move :=
  if k.line.broken then some (.refuse brokenPipe)
  else if k.line.stalled then none
  else some (.accept (k.line.limit.getD chunk.length))

/-- The next move of a connection, unless it waits. -/
def next (k : Circumstances) (s : Store Subscriber) (c : Connection) :
    Option (Move × Circumstances) :=
  match c.phase with
  | .running task => some (k.nextRunning s task)
  | .waiting task _ => k.nextWaiting s c.mailbox task
  | .writing chunk _ _ => (k.nextWriting chunk).map fun m => (m, k)
  | .syncing _ => some (.sync, k)
  | .shuttingDown _ => some (if k.line.broken then .refuse brokenPipe else .shutDown, k)
  | .leaving task _ => k.nextLeaving s task
  | .abandoned task => k.nextLeaving s task
  | _ => some (.proceed, k)

end Circumstances

/-- Connections over one store, with their circumstances. -/
structure Simulation where
  /-- The connections and the store. -/
  server : Server
  /-- The circumstances of the connections, by number. -/
  circumstances : List Circumstances

namespace Simulation

/-- Makes the next move of connection `i`, unless it waits. -/
def step (x : Simulation) (i : Nat) : Option (Simulation × Server.Log) := do
  let c ← x.server.connections[i]?
  let k ← x.circumstances[i]?
  let (m, k) ← k.next x.server.store c
  let (server, log) ← x.server.step i m
  return (⟨server, x.circumstances.set i k⟩, log)

/-- Runs connection `i` until it waits, but makes no more than so many moves. What has been
noted before stands in `earlier`, latest first. -/
def runOn (x : Simulation) (i : Nat) (earlier : List Server.Log) : Nat → Simulation × Server.Log
  | 0 => (x, earlier.reverse.flatten)
  | fuel + 1 =>
    match x.step i with
    | none => (x, earlier.reverse.flatten)
    | some (x, log) => x.runOn i (log :: earlier) fuel

/-- Runs connection `i` until it waits, but makes no more than `fuel` moves. -/
def run (x : Simulation) (i : Nat) (fuel : Nat) : Simulation × Server.Log := x.runOn i [] fuel

/-- Runs several connections, one after the other. -/
def runEach (x : Simulation) (fuel : Nat) : List Nat → Simulation × Server.Log
  | [] => (x, [])
  | i :: is =>
    let (x, log) := x.run i fuel
    let (x, more) := x.runEach fuel is
    (x, log ++ more)

/-- Changes the circumstances of connection `i`. -/
def change (x : Simulation) (i : Nat) (f : Circumstances → Circumstances) : Simulation :=
  { x with circumstances := x.circumstances.modify i f }

/-- Something arrives for connection `i`. -/
def arrive (x : Simulation) (i : Nat) (a : Arrival) : Simulation :=
  match x.server.step i (.arrive a) with
  | none => x
  | some (server, _) => { x with server }

/-- Drops connection `i`. -/
def abandon (x : Simulation) (i : Nat) : Simulation :=
  match x.server.step i .abandon with
  | none => x
  | some (server, _) => { x with server }

end Simulation

end RespStore
