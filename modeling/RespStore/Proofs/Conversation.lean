import RespStore.Proofs.Connection.Reader
import RespStore.Proofs.Connection.Stream
import RespStore.Proofs.Handler

/-!
# Conversations without a connection

What a client should get for its input can be said without chunks, buffers and waiting: its
requests are taken off the input one after the other, each is carried out to its end, and the
next one goes to the handler that the last one has left. `Handler.converse` does that. It is
what a connection is measured by.

The second part looks at what tasks do to the store besides answering. A task that is `Silent`
never changes a key, so it causes no message; `Handler.silent_or_normal` says that every request
either is silent or leaves normal mode behind.
-/

namespace RespStore

/-- What a client gets for its input, and what that does to the keys. -/
structure Transcript where
  /-- The replies, in the order of the requests. -/
  replies : List Reply
  /-- How it ends. -/
  ending : Ending
  /-- The keys in the end. -/
  entries : Std.ExtTreeMap Bytes Entry

namespace Transcript

/-- A transcript that starts with a reply. -/
def after (reply : Reply) (t : Transcript) : Transcript := { t with replies := reply :: t.replies }

/-- The encodings of the replies. -/
def encoded (t : Transcript) : Bytes := t.replies.flatMap Reply.encode

/-- Everything that is written: the encodings of the replies, and the line that reports a failure
if there was one. -/
def written (t : Transcript) : Bytes := t.encoded ++ t.ending.lastWords

/-- A transcript that a reply stands in front of has the encoding of that reply at its front. -/
theorem encoded_after (reply : Reply) (t : Transcript) :
    (t.after reply).encoded = reply.encode ++ t.encoded :=
  List.flatMap_cons

end Transcript

/-- Goes on behind a request that was carried out: not at all when it has failed for good, or when
its completion says so. -/
def Finished.conclude (finished : Finished (Except Fatal Completion))
    (more : Handler → Store Subscriber → Transcript) : Transcript :=
  match finished.value with
  | .error reason => ⟨[], .failed reason, finished.store.entries⟩
  | .ok completion =>
    if completion.close then ⟨[completion.reply], .completed, finished.store.entries⟩
    else (more completion.handler finished.store).after completion.reply

namespace Handler

/-- Carries out the requests of some input one after the other. -/
def converse (client : Nat) (h : Handler) (s : Store Subscriber) (input : Bytes) : Transcript :=
  match _hdecode : Request.decode input.length ⟨input, input.length, rfl⟩ with
  | (.error cause, _) => ⟨[], .failed cause.message, s.entries⟩
  | (.ok none, _) =>
    ⟨[], if input = [] then .completed else .failed ReadError.leftover.message, s.entries⟩
  | (.ok (some request), left) =>
    ((h.handle request).run .plain client s).conclude fun h s => converse client h s left.bytes
termination_by input.length
decreasing_by
  rw [left.length_bytes]
  exact Request.size_decode_lt _hdecode

section Converse

variable {client : Nat} {h : Handler} {s : Store Subscriber} {input : Bytes}

/-- A request at the front of the input is carried out, and the conversation goes on behind it. -/
theorem converse_of_request {request : Request} {rest : Bytes}
    (hfront : Request.front input = .request request rest) :
    h.converse client s input =
      ((h.handle request).run .plain client s).conclude fun h s => h.converse client s rest := by
  rw [converse]
  rcases Request.decode_cases ⟨input, input.length, rfl⟩ (Nat.le_refl _) with
    ⟨heq, hdecode⟩ | ⟨_, _, heq, hdecode⟩ | ⟨request', left, heq, hdecode⟩
  · exact nomatch hfront.symm.trans heq
  · exact nomatch hfront.symm.trans heq
  · obtain ⟨rfl, rfl⟩ := Request.Front.request.inj (hfront.symm.trans heq)
    rw [hdecode]

/-- A conversation ends at what is no request, with the text that says why. -/
theorem converse_of_broken {cause : Request.DecodeError}
    (hfront : Request.front input = .broken cause) :
    h.converse client s input = ⟨[], .failed cause.message, s.entries⟩ := by
  rw [converse]
  rcases Request.decode_cases ⟨input, input.length, rfl⟩ (Nat.le_refl _) with
    ⟨heq, hdecode⟩ | ⟨_, _, heq, hdecode⟩ | ⟨_, _, heq, hdecode⟩
  · exact nomatch hfront.symm.trans heq
  · obtain rfl := Request.Front.broken.inj (hfront.symm.trans heq)
    rw [hdecode]
  · exact nomatch hfront.symm.trans heq

/-- A conversation ends where the input does, and fails if something is left that is no request
yet. -/
theorem converse_of_incomplete (hfront : Request.front input = .incomplete) :
    h.converse client s input =
      ⟨[], if input = [] then .completed else .failed ReadError.leftover.message, s.entries⟩ := by
  rw [converse]
  rcases Request.decode_cases ⟨input, input.length, rfl⟩ (Nat.le_refl _) with
    ⟨heq, hdecode⟩ | ⟨_, _, heq, hdecode⟩ | ⟨_, _, heq, hdecode⟩
  · rw [hdecode]
  · exact nomatch hfront.symm.trans heq
  · exact nomatch hfront.symm.trans heq

end Converse

end Handler

/-! ### Tasks that run to their end -/

/-- A backing store that carries out every call never stands in for the store. -/
theorem Backend.instead_plain (s : Store Subscriber) (q : Call) :
    Backend.instead .plain s q = none := by
  cases q with
  | _ => rfl

namespace Task

section Bind

variable {α β : Type}

/-- A task that goes on with another one runs before it. -/
theorem run_bind (b : Backend) (client : Nat) (s : Store Subscriber) (task : Task α)
    (f : α → Task β) :
    (task.bind f).run b client s =
      let finished := task.run b client s
      let more := (f finished.value).run b client finished.store
      { more with notices := finished.notices ++ more.notices } := by
  induction task generalizing s with
  | done value => rfl
  | call owned q next ih =>
      rw [bind, run, ih, run]
      simp only [List.append_assoc]
  | aside next ih => exact ih s

/-- What a task ends with may be made into something else. -/
theorem run_bind_done {b : Backend} {client : Nat} {s s' : Store Subscriber} {task : Task α}
    {f : α → Task β} {value : α} {result : β} {notices : List (Notice Subscriber)}
    (h : task.run b client s = ⟨value, s', notices⟩) (hf : f value = .done result) :
    (task.bind f).run b client s = ⟨result, s', notices⟩ := by
  rw [run_bind, h]
  simp only [hf, run, List.append_nil]

end Bind

variable {client : Nat} {s : Store Subscriber} {more : Handler → Store Subscriber → Transcript}

/-- A call that the store has answered is behind the task. -/
theorem conclude_call (owned : Registry) (q : Call)
    (next : q.Answer → Task (Except Fatal Completion)) :
    ((Task.call owned q next).run .plain client s).conclude more =
      ((next (s.react client q none).answer).run .plain client
        (s.react client q none).store).conclude more := by
  rw [Task.run, Backend.instead_plain]
  rfl

end Task

/-! ### What tasks do to keys -/

/-- Whether a call never changes a key. -/
def Call.IsSilent : Call → Prop
  | .apply _ _ => False
  | _ => True

/-- A silent call changes no key and causes no notices. -/
theorem Store.react_of_isSilent {q : Call} (h : q.IsSilent) (s : Store Subscriber) (client : Nat) :
    (s.react client q none).store.entries = s.entries ∧ (s.react client q none).notices = [] := by
  cases q with
  | get key => exact ⟨rfl, rfl⟩
  | apply key transform => exact h.elim
  | listen channel => exact ⟨rfl, rfl⟩
  | unlisten id => exact ⟨rfl, rfl⟩

namespace Task

variable {α β : Type}

/-- Whether a task never changes a key, whatever its calls are answered. -/
def Silent : Task α → Prop
  | .done _ => True
  | .call _ request next => request.IsSilent ∧ ∀ answer, (next answer).Silent
  | .aside next => next.Silent

/-- A task whose value is made into another one is as silent as before. -/
theorem Silent.map {task : Task α} (h : task.Silent) (f : α → β) : (f <$> task).Silent := by
  change (task.bind fun value => .done (f value)).Silent
  induction task with
  | done value => exact trivial
  | call owned request next ih => exact ⟨h.1, fun answer => ih answer (h.2 answer)⟩
  | aside next ih => exact ih h

end Task

namespace Registry

/-- Subscribing is silent, by induction on the channels. -/
theorem silent_subscribe (registry : Registry) (acks : List Reply) (channels : List Bytes) :
    (registry.subscribe acks channels).Silent := by
  induction channels generalizing registry acks with
  | nil => exact trivial
  | cons channel channels ih =>
      rw [subscribe]
      split
      · exact ih _ _
      · refine ⟨trivial, fun answer => ?_⟩
        cases answer with
        | ok id => exact ih _ _
        | error e => exact trivial

/-- Leaving channels is silent, by induction on the channels. -/
theorem silent_leave (registry : Registry) (acks : List Reply) (channels : List Bytes) :
    (registry.leave acks channels).Silent := by
  induction channels generalizing registry acks with
  | nil => exact trivial
  | cons channel channels ih =>
      rw [leave]
      split
      · exact ih _ _
      · refine ⟨trivial, fun answer => ?_⟩
        cases answer with
        | ok _ => exact ih _ _
        | error e => exact trivial

/-- Leaving channels, named or not, is silent. -/
theorem silent_unsubscribe (registry : Registry) (channels : List Bytes) :
    (registry.unsubscribe channels).Silent := by
  rw [unsubscribe]
  split
  · exact trivial
  · exact silent_leave _ _ _

end Registry

namespace Handler

/-- Whether a task ends in normal mode, unless it fails for good. -/
def StaysNormal (task : Task (Except Fatal Completion)) : Prop :=
  task.Always (fun _ _ => True) (Completes fun completion => completion.handler = .normal)

/-- A client whose command is answered by an action of its own stays in normal mode. -/
theorem staysNormal_answer (action : Action Reply) : StaysNormal (answer action) :=
  always_answer (Task.yields_true action) (fun _ _ => rfl) fun _ => rfl

/-- A subscriber never changes a key. -/
theorem silent_performSubscribed (registry : Registry) (command : Command) :
    (performSubscribed registry command).Silent := by
  cases command with
  | subscribe channels => exact (Registry.silent_subscribe registry [] channels).map _
  | unsubscribe channels => exact (Registry.silent_unsubscribe registry channels).map _
  | _ => exact trivial

/-- A request that may change a key leaves normal mode behind. -/
theorem silent_or_normal (h : Handler) (request : Request) :
    (h.handle request).Silent ∨ StaysNormal (h.handle request) := by
  rw [handle]
  split
  · exact .inl trivial
  · rename_i command _
    cases h with
    | normal =>
        cases command with
        | subscribe channels => exact .inl ((Registry.silent_subscribe ∅ [] channels).map _)
        | unsubscribe channels => exact .inl ((Registry.silent_unsubscribe ∅ channels).map _)
        | quit => exact .inl trivial
        | _ => exact .inr (staysNormal_answer _)
    | subscriber registry => exact .inl (silent_performSubscribed registry command)

end Handler

end RespStore
