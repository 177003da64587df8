import RespStore.Handler
import RespStore.Proofs.Task

/-!
# What requests end with

A request ends with a completion, unless it fails for good. What all its completions have in
common is found along the way the request is carried out: through the calls and list
operations of a command to its reply, and from the reply to the completion.
-/

namespace RespStore

open RespStore.Task

variable {answers : Answers}

namespace Action

variable {α : Type}

/-- A call succeeds with the value that it is answered with, unless the answer is an error. -/
theorem yields_call {post : α → Prop} {request : Task (Except StoreError α)}
    (h : request.Always answers fun answer => ∀ value, answer = .ok value → post value) :
    Yields answers post (Action.call request) := by
  refine yields_bind (yields_lift h) fun answer hanswer => ?_
  cases answer with
  | error e => exact yields_throw _
  | ok value => exact yields_pure (hanswer value rfl)

/-- A list operation succeeds as an action with what it succeeds with. -/
theorem yields_ofList {post : α → Prop} {operation : ListMap.Operation α}
    (h : Yields answers post operation) : Yields answers post (Action.ofList operation) := by
  refine yields_bind (yields_lift h) fun answer hanswer => ?_
  cases answer with
  | error e => exact yields_throw _
  | ok value => exact yields_pure (hanswer value rfl)

end Action

namespace Handler

/-- In normal mode a command is carried out. -/
theorem handle_normal {request : Request} {command : Command}
    (h : Command.ofRequest request = .ok command) : normal.handle request = perform command := by
  rw [handle, h]

/-- A change of subscriptions ends with a handler that has the registry it has come to. -/
theorem registry_ofRegistry (registry : Registry) : (ofRegistry registry).registry = registry := by
  rw [ofRegistry]
  split
  · rename_i hempty
    exact (Std.ExtTreeMap.isEmpty_iff.mp hempty).symm
  · rfl

variable {post : Completion → Prop}

/-- Whether a request that does not fail for good ends with a completion of this kind. -/
def Completes (post : Completion → Prop) (result : Except Fatal Completion) : Prop :=
  ∀ completion, result = .ok completion → post completion

/-- A request that ends with a completion of this kind is one that completes. -/
theorem completes_ok {completion : Completion} (h : post completion) :
    Completes post (.ok completion) :=
  fun _ heq => Except.ok.inj heq ▸ h

/-- A request that fails for good ends with no completion at all. -/
theorem completes_error (reason : Fatal) : Completes post (.error reason) :=
  fun _ heq => nomatch heq

/-- A command is answered by the reply of its action, or by the error that it comes to. -/
theorem always_answer {action : Action Reply} {replies : Reply → Prop}
    (h : Yields answers replies action)
    (hreply : ∀ reply, replies reply → post { handler := .normal, reply })
    (herror : ∀ text, post { handler := .normal, reply := .error text }) :
    (answer action).Always answers (Completes post) := by
  refine always_bind.mpr (h.imp fun result hresult => ?_)
  cases result with
  | ok reply => exact completes_ok (hreply reply (hresult reply rfl))
  | error failure =>
      cases failure with
      | reply text => exact completes_ok (herror text)
      | fatal text => exact completes_error text

/-- Whatever a task ends with, a request that does nothing else completes with it. -/
theorem always_ok_map {task : Task Completion} (h : task.Always answers post) :
    (Except.ok <$> task : Task (Except Fatal Completion)).Always answers (Completes post) :=
  always_map.mpr (h.imp fun _ hvalue => completes_ok hvalue)

end Handler

end RespStore
