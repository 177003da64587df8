import RespStore.Proofs.NoEmptyLists

/-!
# Errors of the store

A store answers a call as it likes: with a success, or with an error of whichever kind. Only one of
them ends a connection. This module says which one, and what becomes of the others, for every
request and everything that a store may answer to its calls.

* `Task.Unfolds` is the course that a task takes with a store: its calls with their answers, and
  what it ends with.
* `Task.Heeds` says that a task makes no call behind an error of the store, and what it ends with
  then. There is one rule for each way in which tasks are put together.
* `Handler.perform_of_transform?` tells the course of the commands that apply one transform.
* `Handler.heeds_handle` is what all requests have in common, `Handler.fatal_iff_unavailable` the
  main result.
-/

namespace RespStore

/-! ### Answers -/

/-- The form of an output. -/
inductive Output.Shape where
  /-- Nothing. -/
  | unit
  /-- Whether something was the case. -/
  | flag
  /-- A double. -/
  | float
  /-- A length. -/
  | size
  /-- One element, or none. -/
  | element
  /-- Elements, or none. -/
  | elements
  deriving Repr, DecidableEq

/-- The form that an output has. -/
def Output.shape : Output → Shape
  | .unit => .unit
  | .flag _ => .flag
  | .float _ => .float
  | .size _ => .size
  | .element _ => .element
  | .elements _ => .elements

/-- The form of the outputs that a command gets for its applies, if it makes any. -/
def Command.shape? : Command → Option Output.Shape
  | .del _ => some .flag
  | .incrByFloat _ _ => some .float
  | .set _ _ => some .unit
  | .lindex _ _ => some .element
  | .pop _ _ _ => some .elements
  | .push _ _ _ => some .size
  | .lrange _ _ _ => some .elements
  | .publish _ _ => some .unit
  | _ => none

/-- Whether a command expects an answer: every error, and every success that has the right form. -/
def Command.Expects (command : Command) : Answers
  | .apply _ _ => fun answer => ∀ output, answer = .ok output → command.shape? = some output.shape
  | _ => fun _ => True

/-- Whether a request expects an answer. One that is no command makes no calls. -/
def Request.Expects (request : Request) : Answers := fun q answer =>
  ∀ command, Command.ofRequest request = .ok command → command.Expects q answer

/-- What is wrong with an answer. -/
inductive Alarm where
  /-- A call about a key has failed. -/
  | fault (e : StoreError)
  /-- A call about a listener has failed; these listeners are left, and this is told. -/
  | complaint (owned : Registry) (reply : Reply)

/-- What is wrong with the answer to a call that was made while these listeners were owned, if
anything is. -/
def Call.alarm? (owned : Registry) : (q : Call) → q.Answer → Option Alarm
  | .get _ => fun
    | .ok _ => none
    | .error e => some (.fault e)
  | .apply _ _ => fun
    | .ok _ => none
    | .error e => some (.fault e)
  | .listen _ => fun
    | .ok _ => none
    | .error e => some (.complaint owned
        (.error ("ERR Failed to subscribe to channel: " ++ e.message)))
  | .unlisten _ => fun
    | .ok _ => none
    | .error e => some (.complaint owned
        (.error ("ERR Failed to unsubscribe from channel: " ++ e.message)))

/-- Whether a reply tells of an error, or holds one that does. -/
def Reply.Complains : Reply → Prop
  | .error _ => True
  | .many replies => ∃ text, .error text ∈ replies
  | _ => False

/-- A call with its answer, and with the listeners that the task owned meanwhile. -/
structure Asked where
  /-- The listeners. -/
  owned : Registry
  /-- The call. -/
  call : Call
  /-- Its answer. -/
  answer : call.Answer

/-- What is wrong with the answer, if anything is. -/
def Asked.alarm? (asked : Asked) : Option Alarm := asked.call.alarm? asked.owned asked.answer

/-! ### Tasks that heed alarms -/

namespace Task

variable {α β : Type} {answers : Answers} {stop : Alarm → α → Prop} {fine : α → Prop}
  {stop' : Alarm → β → Prop} {fine' : β → Prop}

/-- The course of a task: the calls that it makes, with their answers, and its value. -/
inductive Unfolds : Task α → List Asked → α → Prop where
  /-- Nothing is left to do. -/
  | done (value : α) : Unfolds (.done value) [] value
  /-- A call is answered. -/
  | call {owned : Registry} {q : Call} {next : q.Answer → Task α} (answer : q.Answer)
      {dialogue : List Asked} {value : α} (hnext : Unfolds (next answer) dialogue value) :
      Unfolds (.call owned q next) (⟨owned, q, answer⟩ :: dialogue) value
  /-- A computation is finished. -/
  | aside {next : Task α} {dialogue : List Asked} {value : α}
      (hnext : Unfolds next dialogue value) : Unfolds (.aside next) dialogue value

/-- Whether a task is over behind an alarm, with what goes with the alarm, and without alarms ends
with something fine. -/
def Heeds (answers : Answers) (stop : Alarm → α → Prop) (fine : α → Prop) : Task α → Prop
  | .done value => fine value
  | .call owned q next => ∀ answer, answers q answer →
    match q.alarm? owned answer with
    | some a => ∃ value, next answer = .done value ∧ stop a value
    | none => (next answer).Heeds answers stop fine
  | .aside next => next.Heeds answers stop fine

/-- Fewer answers may be admitted, and what is fine may be weakened. -/
theorem Heeds.mono {answers' : Answers} {fine' : α → Prop} {task : Task α}
    (h : task.Heeds answers stop fine)
    (hanswers : ∀ q answer, answers' q answer → answers q answer)
    (hfine : ∀ value, fine value → fine' value) : task.Heeds answers' stop fine' := by
  induction task with
  | done value => exact hfine value h
  | call owned q next ih =>
      intro answer hanswer
      have hnext := h answer (hanswers q answer hanswer)
      cases halarm : q.alarm? owned answer with
      | some a =>
          rw [halarm] at hnext
          exact hnext
      | none =>
          rw [halarm] at hnext
          exact ih answer hnext
  | aside next ih => exact ih h

/-- Two tasks, one behind the other, heed alarms: what the first one ends with behind an alarm must
end the second one at once. -/
theorem heeds_bind {task : Task α} {f : α → Task β} (h : task.Heeds answers stop fine)
    (hstop : ∀ a value, stop a value → ∃ value', f value = .done value' ∧ stop' a value')
    (hfine : ∀ value, fine value → (f value).Heeds answers stop' fine') :
    (task >>= f).Heeds answers stop' fine' := by
  change (task.bind f).Heeds answers stop' fine'
  induction task with
  | done value => exact hfine value h
  | call owned q next ih =>
      intro answer hanswer
      have hnext := h answer hanswer
      cases halarm : q.alarm? owned answer with
      | some a =>
          rw [halarm] at hnext
          obtain ⟨value, hdone, hvalue⟩ := hnext
          obtain ⟨value', hf, hvalue'⟩ := hstop a value hvalue
          refine ⟨value', ?_, hvalue'⟩
          change (next answer).bind f = .done value'
          rw [hdone]
          exact hf
      | none =>
          rw [halarm] at hnext
          exact ih answer hnext
  | aside next ih => exact ih h

/-- What a task comes to that heeds alarms: the first alarm is the last thing that it hears, or
there is none. -/
theorem Heeds.cases {task : Task α} {dialogue : List Asked} {value : α}
    (h : task.Heeds answers stop fine) (hunfolds : task.Unfolds dialogue value)
    (hanswers : ∀ asked ∈ dialogue, answers asked.call asked.answer) :
    (∃ front asked a, dialogue = front ++ [asked] ∧ (∀ other ∈ front, other.alarm? = none) ∧
      asked.alarm? = some a ∧ stop a value) ∨
    (∀ asked ∈ dialogue, asked.alarm? = none) ∧ fine value := by
  induction hunfolds with
  | done value => exact .inr ⟨List.forall_mem_nil _, h⟩
  | @call owned q next answer dialogue value hnext ih =>
      obtain ⟨hanswer, hanswers⟩ := List.forall_mem_cons.mp hanswers
      have hheeds := h answer hanswer
      cases halarm : q.alarm? owned answer with
      | some a =>
          -- Nothing is left to do behind an alarm, so this was the last call of the dialogue.
          rw [halarm] at hheeds
          obtain ⟨value', hdone, hvalue⟩ := hheeds
          rw [hdone] at hnext
          cases hnext with
          | done => exact .inl ⟨[], _, a, rfl, List.forall_mem_nil _, halarm, hvalue⟩
      | none =>
          rw [halarm] at hheeds
          rcases ih hheeds hanswers with ⟨front, asked, a, rfl, hfront, ha, hvalue⟩ |
            ⟨hnone, hfine⟩
          · exact .inl ⟨⟨owned, q, answer⟩ :: front, asked, a, rfl,
              List.forall_mem_cons.mpr ⟨halarm, hfront⟩, ha, hvalue⟩
          · exact .inr ⟨List.forall_mem_cons.mpr ⟨halarm, hnone⟩, hfine⟩
  | aside _ ih => exact ih h hanswers

/-- An alarm is the last thing that a task hears, and tells what it ends with. -/
theorem Heeds.of_alarm {task : Task α} {front behind : List Asked} {asked : Asked} {a : Alarm}
    {value : α} (h : task.Heeds answers stop fine)
    (hunfolds : task.Unfolds (front ++ asked :: behind) value)
    (hanswers : ∀ other ∈ front ++ asked :: behind, answers other.call other.answer)
    (halarm : asked.alarm? = some a) : behind = [] ∧ stop a value := by
  rcases h.cases hunfolds hanswers with ⟨before, last, a', hsplit, hbefore, ha', hvalue⟩ |
    ⟨hnone, -⟩
  · -- No call before the last is answered with an alarm, so this is the last one.
    rcases split_concat hsplit.symm with ⟨rest, rfl⟩ | ⟨rfl, rfl⟩
    · have hmem : asked ∈ front ++ asked :: rest := List.mem_append_right _ List.mem_cons_self
      exact nomatch (hbefore asked hmem).symm.trans halarm
    · obtain rfl := Option.some.inj (ha'.symm.trans halarm)
      have hbehind := List.append_cancel_left hsplit
      exact ⟨(List.cons.inj hbehind).2, hvalue⟩
  · have hmem : asked ∈ front ++ asked :: behind := List.mem_append_right _ List.mem_cons_self
    exact nomatch (hnone asked hmem).symm.trans halarm

/-- A key is read, and something is made of the answer. -/
theorem heeds_get {owned : Registry} {key : Bytes}
    {next : Except StoreError (Option Value) → Task α}
    (hfault : ∀ e, ∃ value, next (.error e) = .done value ∧ stop (.fault e) value)
    (hfine : ∀ held, ∃ value, next (.ok held) = .done value ∧ fine value) :
    (Task.call owned (.get key) next).Heeds answers stop fine := by
  intro answer _
  cases answer with
  | error e => exact hfault e
  | ok held =>
      obtain ⟨value, hdone, hvalue⟩ := hfine held
      change (next (.ok held)).Heeds answers stop fine
      rw [hdone]
      exact hvalue

/-- A transform is applied, and something is made of the answer. -/
theorem heeds_apply {owned : Registry} {key : Bytes} {transform : Transform}
    {next : Except StoreError Output → Task α}
    (hfault : ∀ e, ∃ value, next (.error e) = .done value ∧ stop (.fault e) value)
    (hfine : ∀ output, answers (.apply key transform) (.ok output) →
      ∃ value, next (.ok output) = .done value ∧ fine value) :
    (Task.call owned (.apply key transform) next).Heeds answers stop fine := by
  intro answer hanswer
  cases answer with
  | error e => exact hfault e
  | ok output =>
      obtain ⟨value, hdone, hvalue⟩ := hfine output hanswer
      change (next (.ok output)).Heeds answers stop fine
      rw [hdone]
      exact hvalue

end Task

/-! ### Actions -/

open RespStore.Task

/-- Whether a failure leaves the connection alone. -/
def Failure.IsMild : Failure → Prop
  | .reply _ => True
  | .fatal _ => False

namespace Action

variable {α β : Type} {answers : Answers} {mild : Failure → Prop} {fine : α → Prop} {key : Bytes}

/-- Whether an action has failed with the error that it was told of. -/
def Fails (a : Alarm) (result : Except Failure α) : Prop :=
  ∃ e, a = .fault e ∧ result = .error (.ofStore e)

/-- Whether an action has come to something fine, or to a mild failure. -/
def Settles (mild : Failure → Prop) (fine : α → Prop) : Except Failure α → Prop
  | .ok value => fine value
  | .error failure => mild failure

/-- Whether an action fails with an error of the store as soon as it hears of one, and otherwise
comes to something fine or to a mild failure. -/
def Heeds (answers : Answers) (mild : Failure → Prop) (fine : α → Prop)
    (action : Action α) : Prop :=
  action.run.Heeds answers Fails (Settles mild fine)

theorem heeds_pure {value : α} (h : fine value) :
    Heeds answers mild fine (pure value : Action α) := h

theorem heeds_throw {failure : Failure} (h : mild failure) :
    Heeds answers mild fine (throw failure : Action α) := h

/-- Two actions, one behind the other, heed the errors of the store: behind an error the second one
is not begun. -/
theorem heeds_bind {fine' : β → Prop} {action : Action α} {f : α → Action β}
    (h : Heeds answers mild fine action)
    (hf : ∀ value, fine value → Heeds answers mild fine' (f value)) :
    Heeds answers mild fine' (action >>= f) := by
  refine Task.heeds_bind h (fun a result hresult => ?_) fun result hresult => ?_
  · obtain ⟨e, rfl, rfl⟩ := hresult
    exact ⟨_, rfl, e, rfl, rfl⟩
  · cases result with
    | error failure => exact hresult
    | ok value => exact hf value hresult

/-- Reading a key fails with an error of the store, or comes to what the key holds. -/
theorem heeds_get {fine : Option Value → Prop} (h : ∀ held, fine held) :
    Heeds answers mild fine (Action.get key) :=
  Task.heeds_get (fun e => ⟨_, rfl, e, rfl, rfl⟩) fun held => ⟨.ok held, rfl, h held⟩

/-- A key is read, and the action goes on with what it holds. -/
theorem heeds_get_bind {f : Option Value → Action α}
    (h : ∀ held, Heeds answers mild fine (f held)) :
    Heeds answers mild fine (Action.get key >>= f) := by
  have hget : Heeds answers mild (fun _ => True) (Action.get key) := heeds_get fun _ => trivial
  exact heeds_bind hget fun held _ => h held

/-- Applying a transform fails with an error of the store, or comes to an output. -/
theorem heeds_apply {transform : Transform} {fine : Output → Prop} (h : ∀ output, fine output) :
    Heeds answers mild fine (Action.apply key transform) :=
  Task.heeds_apply (fun e => ⟨_, rfl, e, rfl, rfl⟩) fun output _ => ⟨.ok output, rfl, h output⟩

end Action

namespace Execution

variable {answers : Answers} {mild : Failure → Prop}

/-- Removing keys ends with the first error, by induction on the keys that are left. -/
theorem heeds_removeEach (count : Nat) (keys : List Bytes) :
    Action.Heeds answers mild (fun _ => True) (removeEach count keys) := by
  induction keys generalizing count with
  | nil => exact Action.heeds_pure trivial
  | cons key keys ih =>
      have hremove : Action.Heeds answers mild (fun _ => True) (Action.apply key .remove) :=
        Action.heeds_apply fun _ => trivial
      exact Action.heeds_bind hremove fun _ _ => ih _

/-- `GET` fails with an error of the store, or mildly for a list. -/
theorem heeds_get (key : Bytes) :
    Action.Heeds answers Failure.IsMild (fun _ => True) (get key) := by
  refine Action.heeds_get_bind ?_
  rintro (_ | (content | items))
  · exact Action.heeds_pure trivial
  · exact Action.heeds_pure trivial
  · exact Action.heeds_throw trivial

/-- An operand is read with an error of the store, or mildly refused for a list. -/
theorem heeds_operand (key : Bytes) :
    Action.Heeds answers Failure.IsMild (fun _ => True) (operand key) := by
  refine Action.heeds_get_bind ?_
  rintro (_ | (content | items))
  · exact Action.heeds_pure trivial
  · exact Action.heeds_pure trivial
  · exact Action.heeds_throw trivial

/-- `LCS` fails with the first error of the two reads, or mildly when its table is too large. -/
theorem heeds_lcs (query : LcsQuery) :
    Action.Heeds answers Failure.IsMild (fun _ => True) (lcs query) := by
  have haside : Action.Heeds answers Failure.IsMild (fun _ => True)
      (ExceptT.lift (Task.aside (.done ()))) := trivial
  refine Action.heeds_bind (heeds_operand query.key₁) fun a _ => ?_
  refine Action.heeds_bind (heeds_operand query.key₂) fun b _ => ?_
  refine Action.heeds_bind haside fun _ _ => ?_
  split
  · exact Action.heeds_throw trivial
  · dsimp only
    split
    · exact Action.heeds_pure trivial
    · split
      · exact Action.heeds_pure trivial
      · exact Action.heeds_pure trivial

/-- `CONFIG` asks the store for nothing, and fails mildly if at all. -/
theorem heeds_config (subcommand parameter : String) :
    Action.Heeds answers Failure.IsMild (fun _ => True) (config subcommand parameter) := by
  rw [config]
  split
  · split
    · exact Action.heeds_throw trivial
    · exact Action.heeds_pure trivial
  · split
    · exact Action.heeds_pure trivial
    · exact Action.heeds_throw trivial

end Execution

/-! ### What requests come to -/

/-- The text that tells of an error of the store, whoever asked. -/
def StoreError.report : StoreError → String
  | .wrongType _ => "WRONGTYPE Operation against a key holding the wrong kind of value"
  | .invalidValue reason => "ERR " ++ reason
  | .unavailable reason => "store unavailable: " ++ reason

namespace Handler

variable {answers : Answers}

/-- What a request comes to when the store answers a call about a key with an error. -/
def verdict (h : Handler) (e : StoreError) : Except Fatal Completion :=
  match e with
  | .unavailable _ => .error e.report
  | _ => .ok { handler := h, reply := .error e.report }

/-- Whether this is what an alarm leads to: the verdict on an error of the store, or the listeners
that are left, with the complaint behind the acknowledgements. -/
def ComesTo (h : Handler) : Alarm → Except Fatal Completion → Prop
  | .fault e, result => result = h.verdict e
  | .complaint owned reply, result => ∃ acks,
      result = .ok { handler := .ofRegistry owned, reply := .many (acks ++ [reply]) }

/-- Whether a request is answered without a complaint. -/
def Succeeds (result : Except Fatal Completion) : Prop :=
  ∃ completion, result = .ok completion ∧ ¬ completion.reply.Complains

/-- Whether a request has not failed for good, and keeps its handler if the reply complains. -/
def Survives (h : Handler) (result : Except Fatal Completion) : Prop :=
  ∃ completion, result = .ok completion ∧
    (completion.reply.Complains → completion.handler = h ∧ completion.close = false)

/-- A request that is answered without a complaint survives. -/
theorem Succeeds.survives {h : Handler} {result : Except Fatal Completion}
    (hresult : Succeeds result) : h.Survives result := by
  obtain ⟨completion, hok, hreply⟩ := hresult
  exact ⟨completion, hok, fun hcomplains => absurd hcomplains hreply⟩

/-- An error of the store ends a request in normal mode with the verdict on it. -/
theorem answer_ofStore (e : StoreError) :
    answer (throw (.ofStore e)) = .done (normal.verdict e) := by
  cases e with
  | _ => rfl

/-- An error of the store that was passed on as a list error ends a request in normal mode with the
verdict on it. -/
theorem answer_ofList (e : StoreError) :
    answer (throw (.ofList (.ofStore e))) = .done (normal.verdict e) := by
  rw [Failure.ofList_ofStore]
  exact answer_ofStore e

/-- An action that heeds the errors of the store is answered with what they mean. -/
theorem heeds_answer {action : Action Reply} {mild : Failure → Prop} {fine : Reply → Prop}
    {post : Except Fatal Completion → Prop} (h : Action.Heeds answers mild fine action)
    (hfine : ∀ reply, fine reply → post (.ok { handler := .normal, reply }))
    (hmild : ∀ failure, mild failure →
      ∃ result, answer (throw failure) = .done result ∧ post result) :
    (answer action).Heeds answers normal.ComesTo post := by
  refine heeds_bind h (fun a result hresult => ?_) fun result hresult => ?_
  · obtain ⟨e, rfl, rfl⟩ := hresult
    exact ⟨_, answer_ofStore e, rfl⟩
  · cases result with
    | ok reply => exact hfine reply hresult
    | error failure =>
        obtain ⟨result, hdone, hpost⟩ := hmild failure hresult
        change (answer (throw failure)).Heeds answers normal.ComesTo post
        rw [hdone]
        exact hpost

/-- Whatever an action replies, the handler is kept and the connection goes on. -/
theorem heeds_answer_mild {action : Action Reply}
    (h : Action.Heeds answers Failure.IsMild (fun _ => True) action) :
    (answer action).Heeds answers normal.ComesTo normal.Survives := by
  refine heeds_answer h (fun reply _ => ⟨_, rfl, fun _ => ⟨rfl, rfl⟩⟩) fun failure hmild => ?_
  cases failure with
  | reply text => exact ⟨_, rfl, _, rfl, fun _ => ⟨rfl, rfl⟩⟩
  | fatal text => exact hmild.elim

end Handler

/-! ### Commands that apply one transform -/

/-- The one apply of a command that makes just this call. A pop with a negative count makes none. -/
def Command.transform? : Command → Option (Bytes × Transform)
  | .incrByFloat key increment => some (key, .increment increment)
  | .set key value => some (key, .put value)
  | .lindex key index => some (key, .index index)
  | .pop side key count =>
    if count.getD 1 < 0 then none else some (key, .poll side (count.getD 1).toNatClampNeg)
  | .push side key values => some (key, .offer values side)
  | .lrange key start stop => some (key, .sublist start stop)
  | .publish channel message => some (channel, .put message)
  | _ => none

namespace Output

variable {output : Output}

/-- An output in the form of a sum is one. -/
theorem exists_float (h : some Shape.float = some output.shape) : ∃ sum, output = .float sum := by
  cases output with
  | float sum => exact ⟨sum, rfl⟩
  | _ => cases h

/-- An output in the form of a length is one. -/
theorem exists_size (h : some Shape.size = some output.shape) :
    ∃ length, output = .size length := by
  cases output with
  | size length => exact ⟨length, rfl⟩
  | _ => cases h

/-- An output in the form of an element is one, or none. -/
theorem exists_element (h : some Shape.element = some output.shape) :
    ∃ value, output = .element value := by
  cases output with
  | element value => exact ⟨value, rfl⟩
  | _ => cases h

/-- An output in the form of a list of elements is one, or none. -/
theorem exists_elements (h : some Shape.elements = some output.shape) :
    ∃ values, output = .elements values := by
  cases output with
  | elements values => exact ⟨values, rfl⟩
  | _ => cases h

end Output

/-- What a pop replies to what it has taken is no complaint. -/
theorem ListCommand.not_complains_replyTo (side : ListEnd) (count : Option Int64)
    (taken : Option (List Bytes)) : ¬ (replyTo side count taken).Complains := by
  cases count with
  | none =>
      change ¬ (Reply.optional ((taken.map (Execution.inOrderOf side)).bind List.head?)).Complains
      cases (taken.map (Execution.inOrderOf side)).bind List.head? with
      | _ => exact id
  | some n =>
      cases taken with
      | _ => exact id

namespace Handler

/-- A command that applies one transform fails with the error that it is answered with, and an
output of the expected form gives it something to reply. -/
theorem perform_of_transform? {command : Command} {key : Bytes} {transform : Transform}
    (h : command.transform? = some (key, transform)) :
    ∃ next : Except StoreError Output → Task (Except Fatal Completion),
      perform command = .call ∅ (.apply key transform) next ∧
      (∀ e, next (.error e) = .done (normal.verdict e)) ∧
      ∀ output, command.shape? = some output.shape →
        ∃ result, next (.ok output) = .done result ∧ Succeeds result := by
  cases command with
  | incrByFloat key increment =>
      cases h
      refine ⟨_, rfl, answer_ofStore, fun output houtput => ?_⟩
      obtain ⟨sum, rfl⟩ := Output.exists_float houtput
      exact ⟨_, rfl, _, rfl, id⟩
  | set key value =>
      cases h
      exact ⟨_, rfl, answer_ofStore, fun output _ => ⟨_, rfl, _, rfl, id⟩⟩
  | publish channel message =>
      cases h
      exact ⟨_, rfl, answer_ofStore, fun output _ => ⟨_, rfl, _, rfl, id⟩⟩
  | lindex key index =>
      cases h
      refine ⟨_, rfl, answer_ofList, fun output houtput => ?_⟩
      obtain ⟨value, rfl⟩ := Output.exists_element houtput
      cases value with
      | _ => exact ⟨_, rfl, _, rfl, id⟩
  | push side key values =>
      cases h
      refine ⟨_, rfl, answer_ofList, fun output houtput => ?_⟩
      obtain ⟨length, rfl⟩ := Output.exists_size houtput
      exact ⟨_, rfl, _, rfl, id⟩
  | lrange key start stop =>
      cases h
      refine ⟨_, rfl, answer_ofList, fun output houtput => ?_⟩
      obtain ⟨values, rfl⟩ := Output.exists_elements houtput
      exact ⟨_, rfl, _, rfl, id⟩
  | pop side key count =>
      rw [Command.transform?] at h
      split at h
      · cases h
      · rename_i hcount
        cases h
        rw [ListCommand.perform_pop side key hcount]
        refine ⟨_, rfl, answer_ofList, fun output houtput => ?_⟩
        obtain ⟨values, rfl⟩ := Output.exists_elements houtput
        exact ⟨_, rfl, _, rfl, ListCommand.not_complains_replyTo side count values⟩
  | _ => cases h

/-- A negative count is refused before the store is asked. -/
theorem perform_pop_of_neg (side : ListEnd) (key : Bytes) {count : Option Int64}
    (h : count.getD 1 < 0) :
    perform (.pop side key count) = .done (.ok
      { handler := .normal, reply := .error "ERR value is out of range, must be positive" }) := by
  rw [perform, Execution.pop, ListMap.poll, if_pos h]
  rfl

end Handler

/-! ### Subscriptions -/

namespace Registry

variable {answers : Answers}

/-- Whether this is what an alarm leads to while subscriptions are changed. -/
def ComesTo : Alarm → Completion → Prop
  | .fault _, _ => False
  | .complaint owned reply, completion => ∃ acks,
      completion = { handler := .ofRegistry owned, reply := .many (acks ++ [reply]) }

/-- Whether a completion replies without a complaint. -/
def Acknowledges (completion : Completion) : Prop := ¬ completion.reply.Complains

/-- A change of subscriptions that ends with a complaint leaves the listeners that are owned
then. -/
theorem comesTo_complete (registry : Registry) (complaint : Reply) (acks : List Reply) :
    ComesTo (.complaint registry complaint) (registry.complete (complaint :: acks)) :=
  ⟨acks.reverse, by rw [complete, List.reverse_cons]⟩

variable {acks : List Reply}

/-- A change of subscriptions ends without a complaint if none was gathered. -/
theorem acknowledges_complete (h : ∀ text, .error text ∉ acks) (registry : Registry) :
    Acknowledges (registry.complete acks) := by
  rintro ⟨text, htext⟩
  exact h text (List.mem_reverse.mp htext)

/-- An acknowledgement that is no complaint adds none to those before it. -/
theorem error_not_mem_cons {ack : Reply} (hack : ¬ ack.Complains) (h : ∀ text, .error text ∉ acks)
    (text : String) : .error text ∉ ack :: acks := by
  intro htext
  rcases List.mem_cons.mp htext with rfl | htext
  · exact hack trivial
  · exact h text htext

/-- Subscribing ends with the first listener that is refused, by induction on the channels that are
left. -/
theorem heeds_subscribe (registry : Registry) (channels : List Bytes)
    (h : ∀ text, .error text ∉ acks) :
    (registry.subscribe acks channels).Heeds answers ComesTo Acknowledges := by
  induction channels generalizing registry acks with
  | nil => exact acknowledges_complete h registry
  | cons channel channels ih =>
      rw [subscribe]
      split
      · exact ih registry (error_not_mem_cons id h)
      · intro answer _
        cases answer with
        | ok listener => exact ih _ (error_not_mem_cons id h)
        | error e => exact ⟨_, rfl, comesTo_complete registry _ acks⟩

/-- Leaving channels ends with the first listener that cannot be taken off, by induction on the
channels that are left. -/
theorem heeds_leave (registry : Registry) (channels : List Bytes)
    (h : ∀ text, .error text ∉ acks) :
    (registry.leave acks channels).Heeds answers ComesTo Acknowledges := by
  induction channels generalizing registry acks with
  | nil => exact acknowledges_complete h registry
  | cons channel channels ih =>
      rw [leave]
      split
      · exact ih registry (error_not_mem_cons id h)
      · intro answer _
        cases answer with
        | ok _ => exact ih _ (error_not_mem_cons id h)
        | error e => exact ⟨_, rfl, comesTo_complete registry _ acks⟩

/-- Leaving channels, named or not, heeds the alarms that it hears. -/
theorem heeds_unsubscribe (registry : Registry) (channels : List Bytes) :
    (registry.unsubscribe channels).Heeds answers ComesTo Acknowledges := by
  rw [unsubscribe]
  split
  · exact acknowledges_complete (error_not_mem_cons id fun _ => List.not_mem_nil) registry
  · exact heeds_leave registry _ fun _ => List.not_mem_nil

end Registry

/-! ### Requests -/

namespace Handler

variable {answers : Answers}

/-- A task that ends in success without alarms survives without alarms. -/
theorem heeds_survives {h : Handler} {task : Task (Except Fatal Completion)}
    (htask : task.Heeds answers h.ComesTo Succeeds) : task.Heeds answers h.ComesTo h.Survives :=
  htask.mono (fun _ _ hanswer => hanswer) fun _ hresult => hresult.survives

/-- A change of subscriptions heeds, as a request, the alarms that it heeds by itself. -/
theorem heeds_ok_map {task : Task Completion} (h : Handler)
    (htask : task.Heeds answers Registry.ComesTo Registry.Acknowledges) :
    (Except.ok <$> task : Task (Except Fatal Completion)).Heeds answers h.ComesTo Succeeds := by
  refine heeds_bind htask (fun a completion hcompletion => ?_) fun completion hcompletion => ?_
  · cases a with
    | fault e => exact hcompletion.elim
    | complaint owned reply =>
        obtain ⟨acks, rfl⟩ := hcompletion
        exact ⟨_, rfl, acks, rfl⟩
  · exact ⟨completion, rfl, hcompletion⟩

/-- `DEL` heeds the first error that it hears, and succeeds without one. -/
theorem heeds_del (keys : List Bytes) :
    (perform (.del keys)).Heeds answers normal.ComesTo Succeeds := by
  have hdel : Action.Heeds answers (fun _ => False) (fun reply => ¬ reply.Complains)
      (Execution.del keys) :=
    Action.heeds_bind (Execution.heeds_removeEach 0 keys) fun _ _ => Action.heeds_pure id
  exact heeds_answer hdel (fun reply hreply => ⟨_, rfl, hreply⟩) nofun

/-- A command that applies one transform heeds the error that it hears. -/
theorem heeds_of_transform? {command : Command} {key : Bytes} {transform : Transform}
    (h : command.transform? = some (key, transform)) :
    (perform command).Heeds command.Expects normal.ComesTo Succeeds := by
  obtain ⟨next, hperform, hfault, hfine⟩ := perform_of_transform? h
  rw [hperform]
  exact heeds_apply (fun e => ⟨_, hfault e, rfl⟩) fun output houtput =>
    hfine output (houtput output rfl)

/-- A command heeds the alarms that it hears. -/
theorem heeds_perform (command : Command) :
    (perform command).Heeds command.Expects normal.ComesTo normal.Survives := by
  cases happly : command.transform? with
  | some p => exact heeds_survives (heeds_of_transform? happly)
  | none =>
      cases command with
      | del keys => exact heeds_survives (heeds_del keys)
      | subscribe channels =>
          exact heeds_survives (heeds_ok_map normal
            (Registry.heeds_subscribe ∅ channels fun _ => List.not_mem_nil))
      | unsubscribe channels =>
          exact heeds_survives (heeds_ok_map normal (Registry.heeds_unsubscribe ∅ channels))
      | get key => exact heeds_answer_mild (Execution.heeds_get key)
      | lcs query => exact heeds_answer_mild (Execution.heeds_lcs query)
      | llen key =>
          refine heeds_get (fun e => ⟨_, answer_ofList e, rfl⟩) fun held => ?_
          rcases held with _ | (content | items)
          · exact ⟨_, rfl, _, rfl, fun _ => ⟨rfl, rfl⟩⟩
          · exact ⟨_, rfl, _, rfl, fun _ => ⟨rfl, rfl⟩⟩
          · exact ⟨_, rfl, _, rfl, fun _ => ⟨rfl, rfl⟩⟩
      | pop side key count =>
          rw [Command.transform?] at happly
          split at happly
          · rename_i hcount
            rw [perform_pop_of_neg side key hcount]
            exact ⟨_, rfl, fun _ => ⟨rfl, rfl⟩⟩
          · cases happly
      | config subcommand parameter =>
          exact heeds_answer_mild (Execution.heeds_config subcommand parameter)
      | client _ | echo _ | ping _ | readOnly | readWrite =>
          exact heeds_answer_mild (Action.heeds_pure trivial)
      | quit => exact ⟨_, rfl, fun hreply => hreply.elim⟩
      | _ => cases happly

/-- In subscriber mode a command heeds the alarms that it hears. -/
theorem heeds_performSubscribed (registry : Registry) (command : Command) :
    (performSubscribed registry command).Heeds answers (subscriber registry).ComesTo
      (subscriber registry).Survives := by
  cases command with
  | subscribe channels =>
      exact heeds_survives (heeds_ok_map _
        (Registry.heeds_subscribe registry channels fun _ => List.not_mem_nil))
  | unsubscribe channels =>
      exact heeds_survives (heeds_ok_map _ (Registry.heeds_unsubscribe registry channels))
  | quit => exact ⟨_, rfl, fun hreply => hreply.elim⟩
  | _ => exact ⟨_, rfl, fun _ => ⟨rfl, rfl⟩⟩

/-- Every request heeds the alarms that it hears. -/
theorem heeds_handle (h : Handler) (request : Request) :
    (h.handle request).Heeds request.Expects h.ComesTo h.Survives := by
  rw [handle]
  split
  · exact ⟨_, rfl, fun _ => ⟨rfl, rfl⟩⟩
  · rename_i command hcommand
    cases h with
    | normal =>
        exact (heeds_perform command).mono (fun _ _ hexpects => hexpects command hcommand)
          fun _ hresult => hresult
    | subscriber registry => exact heeds_performSubscribed registry command

/-- The verdict on an error is failing for good just when the store is unavailable, and then with
the text of that error. -/
theorem verdict_eq_error_iff (h : Handler) (e : StoreError) (text : Fatal) :
    h.verdict e = .error text ↔
      ∃ reason, e = .unavailable reason ∧ text = (StoreError.unavailable reason).message := by
  cases e with
  | wrongType actual => exact ⟨nofun, nofun⟩
  | invalidValue reason => exact ⟨nofun, nofun⟩
  | unavailable reason =>
      constructor
      · intro heq
        exact ⟨reason, rfl, (Except.error.inj heq).symm⟩
      · rintro ⟨_, heq, rfl⟩
        obtain rfl := StoreError.unavailable.inj heq
        rfl

/-- The verdict on any other error is its report, as a reply. -/
theorem verdict_of_available {e : StoreError} (he : ∀ reason, e ≠ .unavailable reason)
    (h : Handler) : h.verdict e = .ok { handler := h, reply := .error e.report } := by
  cases e with
  | unavailable reason => exact absurd rfl (he reason)
  | _ => rfl

/-- A verdict that is a reply keeps the handler and the connection. -/
theorem kept_of_verdict {h : Handler} {e : StoreError} {completion : Completion}
    (hverdict : h.verdict e = .ok completion) :
    completion.handler = h ∧ completion.close = false := by
  cases e with
  | unavailable reason => exact nomatch hverdict
  | _ =>
      obtain rfl := Except.ok.inj hverdict
      exact ⟨rfl, rfl⟩

/-- **Fatal just when the store is unavailable.** A request in whichever mode, and any course that
it can take with a store: whatever its calls are answered, the outputs having the form that the
command expects. Then this holds:

* The request fails for good just when one of its calls about a key was answered that the store is
  unavailable, and with the text of that error.
* Any other error of the store becomes an error reply, the handler is kept and the connection goes
  on. Which command it was, and whether it works on a list or on a key, makes no difference to the
  text.
* When a call about a listener fails, the listeners that are left are kept, and the error is the
  last reply, behind the acknowledgements of what was done before.
* No further call is made behind an error.
* What is no command, and a negative count, are refused without a call.
* Whenever the reply is an error, the handler is kept and the connection goes on. -/
theorem fatal_iff_unavailable {h : Handler} {request : Request} {dialogue : List Asked}
    {result : Except Fatal Completion} (hunfolds : (h.handle request).Unfolds dialogue result)
    (hexpects : ∀ asked ∈ dialogue, request.Expects asked.call asked.answer) :
    (∀ text, result = .error text ↔ ∃ asked ∈ dialogue, ∃ reason,
      asked.alarm? = some (.fault (.unavailable reason)) ∧
      text = (StoreError.unavailable reason).message) ∧
    (∀ asked ∈ dialogue, ∀ e, asked.alarm? = some (.fault e) →
      (∀ reason, e ≠ .unavailable reason) →
      result = .ok { handler := h, reply := .error e.report }) ∧
    (∀ asked ∈ dialogue, ∀ owned complaint, asked.alarm? = some (.complaint owned complaint) →
      ∃ acks, result =
        .ok { handler := .ofRegistry owned, reply := .many (acks ++ [complaint]) }) ∧
    (∀ front asked behind, dialogue = front ++ asked :: behind → asked.alarm? ≠ none →
      behind = []) ∧
    (∀ e, Command.ofRequest request = .error e →
      dialogue = [] ∧ result = .ok { handler := h, reply := .error e.message }) ∧
    (∀ side key count, Command.ofRequest request = .ok (.pop side key (some count)) →
      count < 0 → h = .normal → dialogue = [] ∧ result = .ok
        { handler := h, reply := .error "ERR value is out of range, must be positive" }) ∧
    ∀ completion text, result = .ok completion → completion.reply = .error text →
      completion.handler = h ∧ completion.close = false := by
  have hheeds := heeds_handle h request
  have hleads : ∀ asked ∈ dialogue, ∀ a, asked.alarm? = some a → h.ComesTo a result := by
    intro asked hmem a ha
    obtain ⟨front, behind, rfl⟩ := List.append_of_mem hmem
    exact (hheeds.of_alarm hunfolds hexpects ha).2
  refine ⟨fun text => ⟨fun hfatal => ?_, ?_⟩, fun asked hmem e ha he => ?_,
    fun asked hmem owned complaint ha => hleads asked hmem _ ha, ?_, fun e he => ?_, ?_, ?_⟩
  · rcases hheeds.cases hunfolds hexpects with ⟨front, asked, a, rfl, -, ha, hleads⟩ |
      ⟨-, completion, hok, -⟩
    · cases a with
      | fault e =>
          obtain ⟨reason, rfl, htext⟩ :=
            (verdict_eq_error_iff h e text).mp (hleads.symm.trans hfatal)
          exact ⟨asked, List.mem_append_right _ (List.mem_singleton_self _), reason, ha, htext⟩
      | complaint owned reply =>
          obtain ⟨acks, rfl⟩ := hleads
          cases hfatal
    · subst hok
      cases hfatal
  · rintro ⟨asked, hmem, reason, ha, rfl⟩
    exact hleads asked hmem _ ha
  · exact (hleads asked hmem _ ha).trans (verdict_of_available he h)
  · rintro front asked behind rfl ha
    obtain ⟨a, ha⟩ := Option.ne_none_iff_exists'.mp ha
    exact (hheeds.of_alarm hunfolds hexpects ha).1
  · rw [handle, he] at hunfolds
    cases hunfolds with
    | done => exact ⟨rfl, rfl⟩
  · rintro side key count hpop hcount rfl
    have hneg : (some count).getD 1 < 0 := hcount
    rw [handle_normal hpop, perform_pop_of_neg side key hneg] at hunfolds
    cases hunfolds with
    | done => exact ⟨rfl, rfl⟩
  · rintro completion text rfl htext
    rcases hheeds.cases hunfolds hexpects with ⟨-, -, a, -, -, -, hleads⟩ |
      ⟨-, completion', hok, hkept⟩
    · cases a with
      | fault e => exact kept_of_verdict hleads.symm
      | complaint owned reply =>
          obtain ⟨acks, hok⟩ := hleads
          obtain rfl := Except.ok.inj hok
          cases htext
    · obtain rfl := Except.ok.inj hok
      exact hkept (htext ▸ trivial)

/-- Two keys are removed, and the store goes away between them. -/
theorem fatal_iff_unavailable_del :
    ∃ request dialogue result, (normal.handle request).Unfolds dialogue result ∧
      (∀ asked ∈ dialogue, request.Expects asked.call asked.answer) ∧ dialogue.length = 2 ∧
      result = .error "store unavailable: boom" := by
  have hcommand : Command.ofRequest ⟨Bytes.ofString "DEL", [[97], [98]]⟩ =
      .ok (.del [[97], [98]]) := by decide +kernel
  have hunfolds : (perform (.del [[97], [98]])).Unfolds
      [⟨∅, .apply [97] .remove, .ok (.flag true)⟩,
        ⟨∅, .apply [98] .remove, .error (.unavailable "boom")⟩]
      (.error "store unavailable: boom") := .call _ (.call _ (.done _))
  rw [← handle_normal hcommand] at hunfolds
  have hexpects : ∀ asked ∈ ([⟨∅, .apply [97] .remove, .ok (.flag true)⟩,
      ⟨∅, .apply [98] .remove, .error (.unavailable "boom")⟩] : List Asked),
      Request.Expects ⟨Bytes.ofString "DEL", [[97], [98]]⟩ asked.call asked.answer := by
    intro asked hmem command hok
    obtain rfl := Except.ok.inj (hcommand.symm.trans hok)
    rcases List.mem_cons.mp hmem with rfl | hmem
    · exact fun output houtput => Except.ok.inj houtput ▸ rfl
    · obtain rfl := List.mem_singleton.mp hmem
      exact nofun
  refine ⟨_, _, _, hunfolds, hexpects, rfl, ?_⟩
  exact ((fatal_iff_unavailable hunfolds hexpects).1 _).mpr
    ⟨_, List.mem_cons_of_mem _ (List.mem_singleton_self _), "boom", rfl, by decide +kernel⟩

end Handler

end RespStore
