import RespStore.Store

/-!
# Tasks

Answering a request takes a number of calls to the store, one after the other, and each of
them may have to be waited for. A *task* is what is left to do: it is done, or it waits for
one call and goes on with the answer, or it waits for a computation that runs aside.

A task that changes subscriptions owns listeners while it waits; every waiting task says
which. They are what has to be deregistered when the task is dropped halfway.
-/

namespace RespStore

/-- A call to the store. -/
inductive Call where
  /-- Reads a key. -/
  | get (key : Bytes)
  /-- Applies a transform to a key. -/
  | apply (key : Bytes) (transform : Transform)
  /-- Registers a listener for a channel, which is a key of the same name. -/
  | listen (channel : Bytes)
  /-- Takes a listener off. -/
  | unlisten (id : ListenerId)

/-- The answer to a call. -/
abbrev Call.Answer : Call → Type
  | .get _ => Except StoreError (Option Value)
  | .apply _ _ => Except StoreError Output
  | .listen _ => Except StoreError ListenerId
  | .unlisten _ => Except StoreError Unit

/-- The listeners of one connection, by channel. -/
abbrev Registry := Std.ExtTreeMap Bytes ListenerId

namespace Registry

/-- The channels with a listener, in ascending order. -/
def channels (r : Registry) : List Bytes := r.keys

/-- The listeners, in the order of their channels. -/
def ids (r : Registry) : List ListenerId := r.toList.map Prod.snd

end Registry

/-- What is left to do for a request. -/
inductive Task (α : Type) where
  /-- Nothing; the value is known. -/
  | done (value : α)
  /-- Waits for the answer to a call, and goes on with it. -/
  | call (owned : Registry) (request : Call) (next : request.Answer → Task α)
  /-- Waits for a computation that runs aside, and goes on. -/
  | aside (next : Task α)

namespace Task

variable {α β : Type}

/-- Goes on with another task once a task is done. -/
def bind (task : Task α) (f : α → Task β) : Task β :=
  match task with
  | .done value => f value
  | .call owned request next => .call owned request fun answer => (next answer).bind f
  | .aside next => .aside (next.bind f)

instance : Monad Task where
  pure := .done
  bind := bind

/-- Makes one call, owning nothing while it waits. -/
def ask (request : Call) : Task request.Answer := .call ∅ request .done

/-- The listeners that a waiting task owns. -/
def owned : Task α → Registry
  | .call owned _ _ => owned
  | _ => ∅

end Task

end RespStore
