import RespStore.CommandLine.Usage
import RespStore.Simulation
import Std.Async.TCP
import Std.Sync.Channel

/-!
# The server program

`main` reads the settings, listens, and serves every client that connects until accepting
fails. One thread makes the moves of all connections over their common store. Each client has
a thread that waits for its input, and each write has one that waits for it to be taken; what
they see reaches the connections as moves.

A connection keeps its number until it has ended and its input has, too. Then the next client
gets the number.
-/

namespace RespStore

open Std.Async.TCP

/-- Something that happens outside the connections. -/
inductive Happening where
  /-- A client connects. -/
  | joined (socket : Socket.Client)
  /-- A move of a connection that was waited for. -/
  | moved (client : Nat) (move : Move)

instance : Inhabited Happening := ⟨.moved 0 .proceed⟩

/-- What has happened and is not dealt with yet. -/
abbrev Happenings := Std.Channel Happening

/-- The other end of a connection. -/
structure Peer where
  /-- The client's socket. -/
  socket : Socket.Client
  /-- Whether its input is waited for. -/
  reading : Bool := true
  /-- Whether a write is under way. -/
  writing : Bool := false

/-- What a move that was waited for says about the other end. -/
def Peer.after (p : Peer) : Move → Peer
  | .arrive (.chunk _) => p
  | .arrive _ => { p with reading := false }
  | _ => { p with writing := false }

/-- Everything that is served. -/
structure Service where
  /-- The sizes that connections work with. -/
  settings : Settings
  /-- Where clients and threads say what happened. -/
  happenings : Happenings
  /-- The connections. A write waits until its socket has taken it. -/
  simulation : Simulation := ⟨{ connections := [] }, []⟩
  /-- Their other ends, by number. -/
  peers : Array Peer := #[]

/-- The address of a port. -/
def Address.atPort (a : Address) (port : UInt16) : Std.Net.SocketAddress :=
  match a with
  | .v4 a b c d => .v4 ⟨⟨#v[a, b, c, d]⟩, port⟩
  | .v6 groups => .v6 ⟨⟨groups⟩, port⟩

namespace Service

/-- The circumstances of a connection whose writes are taken elsewhere. -/
def circumstances : Circumstances := { line := { stalled := true } }

/-- Waits for the input of a client, up to its end. -/
partial def receive (happenings : Happenings) (i : Nat) (socket : Socket.Client) : IO Unit := do
  let arrival : Arrival ←
    try
      match ← (socket.recv? 65536).block with
      | some bytes => pure (.chunk bytes.data.toList)
      | none => pure .finish
    catch _ => pure .reset
  happenings.sync.send (.moved i (.arrive arrival))
  match arrival with
  | .chunk _ => receive happenings i socket
  | _ => return

/-- Writes a chunk to a client. -/
def transmit (happenings : Happenings) (i : Nat) (socket : Socket.Client) (chunk : Bytes) :
    IO Unit := do
  let move : Move ←
    try
      (socket.send ⟨chunk.toArray⟩).block
      pure (.accept chunk.length)
    catch e => pure (.refuse (toString e))
  happenings.sync.send (.moved i move)

/-- Takes up a new client. -/
def welcome (v : Service) (socket : Socket.Client) : IO Service := do
  let connections := v.simulation.server.connections
  let free := (List.range v.peers.size).find? fun i =>
    !(v.peers[i]?.any Peer.reading) && !(connections[i]?.any Connection.isPresent)
  let i := free.getD v.peers.size
  discard <| IO.asTask (receive v.happenings i socket) .dedicated
  let c := Connection.new v.settings
  let ⟨server, others⟩ := v.simulation
  return if i < v.peers.size then
    { v with
      simulation := ⟨{ server with connections := connections.set i c }, others⟩
      peers := v.peers.setIfInBounds i { socket } }
  else
    { v with
      simulation :=
        ⟨{ server with connections := connections ++ [c] }, others ++ [circumstances]⟩
      peers := v.peers.push { socket } }

/-- Makes every move that can be made. -/
partial def settle (v : Service) : IO Service := do
  match (List.range v.peers.size).findSome? v.simulation.step with
  | none => return v
  | some (simulation, log) =>
    for (i, note) in log do
      if let (.shutDown, some peer) := (note, v.peers[i]?) then
        discard <| peer.socket.shutdown.toIO
    settle { v with simulation }

/-- Starts to write what connections want to write. -/
def write (v : Service) : IO Service := do
  let mut peers := v.peers
  for (c, i) in v.simulation.server.connections.zipIdx do
    if let (.writing chunk _ _, some peer) := (c.phase, peers[i]?) then
      unless peer.writing do
        discard <| IO.asTask (transmit v.happenings i peer.socket chunk) .dedicated
        peers := peers.setIfInBounds i { peer with writing := true }
  return { v with peers }

/-- Makes a move that was waited for. -/
def move (v : Service) (i : Nat) (m : Move) : Service :=
  let v := { v with peers := v.peers.modify i (·.after m) }
  match v.simulation.server.step i m with
  | none => v
  | some (server, _) => { v with simulation := { v.simulation with server } }

/-- Deals with what happens, one thing after the other. -/
partial def serve (v : Service) : IO Unit := do
  let v ←
    match ← v.happenings.sync.recv with
    | .joined socket => v.welcome socket
    | .moved i m => pure (v.move i m)
  serve (← (← v.settle).write)

/-- Accepts clients, as long as that succeeds. -/
partial def accept (happenings : Happenings) (listener : Socket.Server) : IO Unit := do
  happenings.sync.send (.joined (← listener.accept.block))
  accept happenings listener

/-- Listens, and serves every client. -/
def run (config : Config) : IO Unit := do
  let listener ← Socket.Server.mk
  listener.bind (config.bind.atPort config.port)
  listener.listen 1024
  listener.noDelay
  let happenings ← Std.Channel.new
  discard <| IO.asTask (serve { settings := config.sizes, happenings }) .dedicated
  accept happenings listener

end Service

end RespStore

open RespStore in
/-- Reads the settings and runs the server. -/
def main (arguments : List String) : IO UInt32 := do
  let environment ← CommandLine.Setting.all.mapM fun s =>
    return (s.envName, ← IO.getEnv (CommandLine.environmentStart ++ s.envName))
  match CommandLine.parse arguments fun name => (environment.lookup name).join with
  | .ok config =>
    Service.run config
    return 0
  | .error stop =>
    if stop.isWish then
      IO.print stop.message
      return 0
    else
      IO.eprint stop.message
      return 2
