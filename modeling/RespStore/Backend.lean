import RespStore.Subscription

/-!
# How calls are answered

A call is carried out on the shared store, unless the backing store answers it itself without
touching the store. `Backend` collects the ways in which a backing store does that: some of
its operations are unavailable, every transform has the same output, or listeners are limited.
-/

namespace RespStore

/-- A call that has been answered. -/
structure Reaction (c : Call) where
  /-- The answer. -/
  answer : c.Answer
  /-- The shared store afterwards. -/
  store : Store Subscriber
  /-- The notices that go out. -/
  notices : List (Notice Subscriber) := []

namespace Store

/-- Carries out a call of a connection on the shared store. -/
def serve (s : Store Subscriber) (client : Nat) : (c : Call) → Reaction c
  | .get key => ⟨.ok (s.get key), s, []⟩
  | .apply key transform =>
    let outcome := s.apply key transform
    ⟨outcome.result, outcome.store, outcome.notices⟩
  | .listen channel =>
    let (id, s') := s.listen (.exact channel) ⟨client, channel⟩
    ⟨.ok id, s', []⟩
  | .unlisten id => ⟨.ok (), s.unlisten id, []⟩

/-- Answers a call of a connection: with the answer that stands in for it, or else by carrying
it out. -/
def react (s : Store Subscriber) (client : Nat) (c : Call) (instead : Option c.Answer) :
    Reaction c :=
  match instead with
  | some answer => ⟨answer, s, []⟩
  | none => s.serve client c

end Store

/-- How a backing store treats the calls it receives. -/
inductive Backend where
  /-- Every call is carried out. -/
  | plain
  /-- Nothing can be read, written or listened to. -/
  | broken
  /-- Nothing can be written. -/
  | readOnly
  /-- Every transform is answered with this output, without being run. -/
  | fixed (output : Output)
  /-- Listeners are refused once there are `maxListeners` of them, and their removal is
  refused always or never. -/
  | limited (maxListeners : Nat) (removalsFail : Bool)
  deriving Repr, DecidableEq

/-- The answer that the backing store gives a call itself, if it does. -/
def Backend.instead (b : Backend) (s : Store Subscriber) : (c : Call) → Option c.Answer
  | .get _ =>
    match b with
    | .broken => some (.error (.unavailable "boom"))
    | _ => none
  | .apply _ _ =>
    match b with
    | .broken => some (.error (.unavailable "boom"))
    | .readOnly => some (.error (.unavailable "boom"))
    | .fixed output => some (.ok output)
    | _ => none
  | .listen _ =>
    match b with
    | .broken => some (.error (.unavailable "boom"))
    | .limited maxListeners _ =>
      if maxListeners ≤ s.listenerCount then some (.error (.unavailable "full")) else none
    | _ => none
  | .unlisten _ =>
    match b with
    | .limited _ true => some (.error (.unavailable "removal refused"))
    | _ => none

/-- A task that ran to its end. -/
structure Finished (α : Type) where
  /-- The value of the task. -/
  value : α
  /-- The shared store afterwards. -/
  store : Store Subscriber
  /-- The notices that went out meanwhile. -/
  notices : List (Notice Subscriber)

/-- Runs a task of a connection to its end, while nobody else uses the store. -/
def Task.run {α : Type} (b : Backend) (client : Nat) (s : Store Subscriber) :
    Task α → Finished α
  | .done value => ⟨value, s, []⟩
  | .call _ request next =>
    let reaction := s.react client request (b.instead s request)
    let finished := run b client reaction.store (next reaction.answer)
    { finished with notices := reaction.notices ++ finished.notices }
  | .aside next => run b client s next

end RespStore
