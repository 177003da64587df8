import RespStore.Proofs.Deed
import RespStore.Proofs.Fanout
import RespStore.Proofs.Precedence

/-!
# Pushes and pops of a connection

A connection works on one request at a time. This module compares what was done to the list of a key
for a connection with what the connection has replied.

* `dealings` are the pushes to the list of a key and the pops from it that a connection has replied
  to, with their replies.
* `Connection.Deals` is the invariant of a connection: what was done for it is what it has replied,
  and perhaps one deed more, for the request that it works on.
* `Connection.Deals.step` says what a step does to the list, and keeps the invariant.
-/

namespace RespStore

/-- Whether a call that is answered in this move is answered by the store. -/
def Move.IsServed (m : Move) : Prop := ∀ instead, m = .answer instead → ∀ q, instead q = none

/-- Whether a note tells of no request that may overwrite a key. -/
def Note.keeps (key : Bytes) (note : Note) : Bool :=
  match note.request?.map Command.ofRequest with
  | some (.ok command) => !command.overwrites key
  | _ => true

/-- A note that keeps a key may tell of a request, but of none that overwrites it. -/
theorem Note.overwrites_of_keeps {key : Bytes} {request : Request} {command : Command}
    (h : (Note.took request).keeps key = true)
    (hcommand : Command.ofRequest request = .ok command) :
    command.overwrites key = false := by
  rw [Note.keeps, Note.request?, Option.map_some, hcommand] at h
  exact Bool.not_eq_true' _ ▸ h

/-! ### Requests and their replies -/

/-- The requests that were taken, in order. -/
def requestsOf (notes : List Note) : List Request := notes.filterMap Note.request?

/-- The replies that were put into the buffer, in order. -/
def repliesOf (notes : List Note) : List Reply := notes.filterMap Note.reply?

/-- The push or pop on the list of a key that was asked for, with the reply, unless it was
refused. -/
def dealing? (key : Bytes) (request : Request) (reply : Reply) : Option (Command × Reply) :=
  match Command.ofRequest request with
  | .error _ => none
  | .ok command =>
    if command.deals key && !reply.refuses command then some (command, reply) else none

/-- The pushes to the list of a key and the pops from it that were answered, with their replies.
Replies come in the order of the requests, so the first reply is to the first request, and so on. -/
def dealings (key : Bytes) (notes : List Note) : List (Command × Reply) :=
  ((requestsOf notes).zip (repliesOf notes)).filterMap fun p => dealing? key p.1 p.2

section Dealings

variable {key : Bytes} {notes more : List Note} {request : Request} {reply : Reply}

/-- A request that is no command deals with no list. -/
theorem dealing?_of_error {e : CommandError} (h : Command.ofRequest request = .error e)
    (reply : Reply) : dealing? key request reply = none := by
  rw [dealing?, h]

/-- A command deals with the list of a key if it pushes to it or pops from it, and is not
refused. -/
theorem dealing?_of_ok {command : Command} (h : Command.ofRequest request = .ok command)
    (reply : Reply) : dealing? key request reply =
      if command.deals key && !reply.refuses command then some (command, reply) else none := by
  rw [dealing?, h]

theorem requestsOf_append (notes more : List Note) :
    requestsOf (notes ++ more) = requestsOf notes ++ requestsOf more := List.filterMap_append

theorem repliesOf_append (notes more : List Note) :
    repliesOf (notes ++ more) = repliesOf notes ++ repliesOf more := List.filterMap_append

/-- Notes that tell of no request and of no reply. -/
structure Quiet (notes : List Note) : Prop where
  /-- No request was taken. -/
  requests : requestsOf notes = []
  /-- No reply was put into the buffer. -/
  replies : repliesOf notes = []

theorem Quiet.nil : Quiet [] := ⟨rfl, rfl⟩

/-- Notes are quiet if each of them is. -/
theorem Quiet.of_forall (h : ∀ note ∈ notes, note.request? = none ∧ note.reply? = none) :
    Quiet notes where
  requests := List.filterMap_eq_nil_iff.mpr fun note hnote => (h note hnote).1
  replies := List.filterMap_eq_nil_iff.mpr fun note hnote => (h note hnote).2

/-- What a connection notes while it idles is quiet. -/
theorem Quiet.of_idles (h : Connection.Idles notes) : Quiet notes :=
  .of_forall fun note hnote => by
    cases note with
    | took request => exact absurd trivial (h _ hnote).2
    | replied reply => exact absurd trivial (h _ hnote).1
    | _ => exact ⟨rfl, rfl⟩

/-- A message that is delivered or given up is quiet. -/
theorem quiet_deliver (c : Connection) (d : Delivery) : Quiet (c.deliver d).2 :=
  .of_forall fun note hnote => by
    rcases Connection.note_of_mem_deliver hnote with rfl | rfl
    · exact ⟨rfl, rfl⟩
    · exact ⟨rfl, rfl⟩

/-- Messages that are delivered or given up are quiet. -/
theorem quiet_deliverEach (c : Connection) (ds : List Delivery) : Quiet (c.deliverEach ds).2 :=
  .of_forall fun note hnote => by
    obtain ⟨d, rfl | rfl⟩ := Connection.note_of_mem_deliverEach hnote
    · exact ⟨rfl, rfl⟩
    · exact ⟨rfl, rfl⟩

/-- Messages that are posted are quiet. -/
theorem quiet_postEach (c : Connection) (ds : List Delivery) : Quiet (c.postEach ds).2 :=
  .of_forall fun note hnote => by
    obtain ⟨d, rfl | rfl⟩ := c.note_of_mem_postEach hnote
    · exact ⟨rfl, rfl⟩
    · exact ⟨rfl, rfl⟩

/-- Quiet notes add no request. -/
theorem Quiet.requestsOf_append (h : Quiet more) (notes : List Note) :
    requestsOf (notes ++ more) = requestsOf notes := by
  rw [RespStore.requestsOf_append, h.requests, List.append_nil]

/-- Quiet notes add no reply. -/
theorem Quiet.repliesOf_append (h : Quiet more) (notes : List Note) :
    repliesOf (notes ++ more) = repliesOf notes := by
  rw [RespStore.repliesOf_append, h.replies, List.append_nil]

/-- Quiet notes add no push and no pop. -/
theorem Quiet.dealings_append (h : Quiet more) (notes : List Note) :
    dealings key (notes ++ more) = dealings key notes := by
  rw [dealings, h.requestsOf_append, h.repliesOf_append, dealings]

/-- A request that is taken stands behind the others. -/
theorem requestsOf_took (notes : List Note) (request : Request) :
    requestsOf (notes ++ [.took request]) = requestsOf notes ++ [request] :=
  requestsOf_append notes _

/-- A request that is taken is not replied to by that. -/
theorem repliesOf_took (notes : List Note) (request : Request) :
    repliesOf (notes ++ [.took request]) = repliesOf notes :=
  (repliesOf_append notes _).trans (List.append_nil _)

/-- A request that was only taken adds nothing. -/
theorem dealings_took (h : (requestsOf notes).length = (repliesOf notes).length) (key : Bytes)
    (request : Request) : dealings key (notes ++ [.took request]) = dealings key notes := by
  rw [dealings, requestsOf_took, repliesOf_took, ← List.append_nil (repliesOf notes),
    List.zip_append h, List.zip_nil_right, List.append_nil, dealings]

/-- The reply to the last request. -/
theorem dealings_replied {earlier : List Request}
    (hrequests : requestsOf notes = earlier ++ [request])
    (hlength : (repliesOf notes).length = earlier.length) (hmore : requestsOf more = [])
    (hreplies : repliesOf more = [reply]) :
    dealings key (notes ++ more) = dealings key notes ++ (dealing? key request reply).toList := by
  have hbefore : (earlier ++ [request]).zip (repliesOf notes) = earlier.zip (repliesOf notes) := by
    rw [← List.append_nil (repliesOf notes), List.zip_append hlength.symm, List.zip_nil_right,
      List.append_nil, List.append_nil]
  rw [dealings, requestsOf_append, repliesOf_append, hmore, hreplies, hrequests, List.append_nil,
    List.zip_append hlength.symm, List.filterMap_append, dealings, hrequests, hbefore]
  rfl

/-- What is noted when a request is replied to. -/
theorem notes_complete (c : Connection) (completion : Completion) :
    ∃ more, (c.complete completion).2 = .replied completion.reply :: more ∧ Quiet more := by
  rw [Connection.complete]
  cases completion.handler.isSubscriber with
  | true => exact ⟨[], rfl, .nil⟩
  | false => exact ⟨_, rfl, .of_idles (Connection.idles_discarded _)⟩

/-- A request that had to wait is replied to first, and the messages behind the reply are quiet. -/
theorem notes_resume (c : Connection) (held : List Delivery) (completion : Completion) :
    ∃ more, (c.resume held completion).2 = .replied completion.reply :: more ∧ Quiet more := by
  obtain ⟨more, hnotes, hquiet⟩ := notes_complete c completion
  have hheld := quiet_deliverEach (c.complete completion).1 held
  refine ⟨more ++ ((c.complete completion).1.deliverEach held).2, ?_, ?_, ?_⟩
  · rw [Connection.resume, hnotes, List.cons_append]
  · rw [hheld.requestsOf_append, hquiet.requests]
  · rw [hheld.repliesOf_append, hquiet.replies]

end Dealings

namespace Connection

/-! ### Listeners that are taken off -/

/-- Whether a connection that takes its listeners off changes no key on the way. -/
def Removes (c : Connection) : Prop := ∀ task, Phase.removal? c.phase = some task → task.Silent

/-- Taking listeners off is silent. -/
theorem silent_unlistenEach (ids : List ListenerId) : (Handler.unlistenEach ids).Silent := by
  induction ids with
  | nil => exact trivial
  | cons id ids ih => exact ⟨trivial, fun _ => ih⟩

/-- A connection that still holds its listeners takes none of them off aside. -/
theorem Removes.of_holds {c : Connection} (h : Phase.Holds c.phase) : c.Removes :=
  fun _ htask => nomatch (removal?_of_holds h).symm.trans htask

/-- A connection that leaves takes its listeners off, and nothing else. -/
theorem removes_leave (c : Connection) (ending : Ending) : (c.leave ending).1.Removes := by
  rw [leave]
  cases c.handler with
  | none =>
      intro _ htask
      cases htask
  | some handler =>
      intro task htask
      obtain rfl := Option.some.inj htask
      exact silent_unlistenEach _

section Steps

variable {client : Nat} {s : Store Subscriber} {c : Connection} {m : Move} {p : Progress}

/-- Every step leaves a connection that changes no key while it takes its listeners off. -/
theorem Removes.step (h : c.Removes) (hstep : Steps client s c m p) : p.connection.Removes := by
  cases hstep with
  | finished _ _ | turnFlush _ _ _ | orphan _ _ _ | readError _ _ | nothing _ _ | overBudget _ _
  | fatal _ | fatalWaiting _ | answeredWaiting _ => exact .of_holds (holds_flush _ _)
  | @message d mailbox _ _ =>
      have hturn := (puts_deliver { c with mailbox, phase := .turn } d).phase_eq
      exact .of_holds (hturn ▸ trivial)
  | left _ | dropped _ => exact fun _ htask => nomatch htask
  | answerLeaving hphase | answerAbandoned hphase =>
      intro task htask
      obtain rfl := Option.some.inj htask
      exact (h _ (congrArg Phase.removal? hphase)).2 _
  | @accept n chunk behind next _ _ =>
      exact .of_holds (holds_of_flushes (Stream.flushes_rest (chunk.drop n) behind next))
  | sync _ => exact .of_holds (holds_afterFlush c _)
  | acceptNothing _ | refuseWriting _ | refuseSyncing _ =>
      exact .of_holds (holds_flushFailed c _ _)
  | refuseShutDown _ | shutDown _ => exact removes_leave c _
  | arrive a => exact h
  | abandon _ =>
      intro task htask
      obtain rfl := Option.some.inj htask
      exact silent_unlistenEach _
  | more hphase _ _ _ => exact .of_holds (hphase ▸ trivial)
  | _ => exact .of_holds trivial

end Steps

/-! ### From a request to its reply -/

/-- How far a push or a pop on the list of a key has got: the task that is left, and what has been
done for the request but not replied to yet. A request that does neither leaves the list alone. -/
inductive AtWork (key : Bytes) (request : Request) :
    Task (Except Fatal Completion) → List (Command × Reply) → Prop where
  /-- It neither pushes nor pops. -/
  | spares {task : Task (Except Fatal Completion)}
      (hnone : ∀ reply, dealing? key request reply = none) (hspares : task.Spares key) :
      AtWork key request task []
  /-- The store has not been asked yet. -/
  | asks {command : Command} (hcommand : Command.ofRequest request = .ok command)
      (hdeals : command.deals key = true) : AtWork key request (Handler.perform command) []
  /-- All that is left is to reply. -/
  | replies (completion : Completion) :
      AtWork key request (.done (.ok completion)) (dealing? key request completion.reply).toList

section AtWork

variable {key : Bytes} {request : Request}

/-- Where a request begins. -/
theorem atWork_handle (handler : Handler)
    (hkeeps : (Note.took request).keeps key = true) :
    AtWork key request (handler.handle request) [] := by
  cases hcommand : Command.ofRequest request with
  | error e =>
      rw [Handler.handle, hcommand]
      exact .spares (dealing?_of_error hcommand) trivial
  | ok command =>
      rw [Handler.handle, hcommand]
      cases hdeals : command.deals key with
      | false =>
          refine .spares (fun reply => ?_) ?_
          · rw [dealing?_of_ok hcommand, hdeals]
            rfl
          · cases handler with
            | normal =>
                exact Handler.spares_perform hdeals (Note.overwrites_of_keeps hkeeps hcommand)
            | subscriber registry =>
                exact (Handler.silent_performSubscribed registry command).spares
      | true =>
          cases handler with
          | normal => exact .asks hcommand hdeals
          | subscriber registry =>
              have hrefused : dealing? key request (.error (Handler.refusal command)) = none := by
                rw [dealing?_of_ok hcommand, Reply.refuses, decide_eq_true rfl, hdeals]
                rfl
              have hreplies : AtWork key request _ _ :=
                .replies { handler := .subscriber registry,
                           reply := .error (Handler.refusal command) }
              rw [hrefused] at hreplies
              cases command with
              | push side key' values => exact hreplies
              | pop side key' count => exact hreplies
              | _ => cases hdeals

end AtWork

/-- What was done so far to the list of a key for the requests of a connection, with the replies
that belong to it: that is what the connection has replied, apart from the request it works on. -/
inductive Deals (key : Bytes) (c : Connection) (notes : List Note) (done : List (Command × Reply)) :
    Prop where
  /-- It works on no request. -/
  | rests (htask : Phase.task? c.phase = none) (hopen : Phase.closing? c.phase = none)
      (hlength : (requestsOf notes).length = (repliesOf notes).length)
      (hdone : done = dealings key notes)
  /-- It works on its last request. -/
  | works {earlier : List Request} {request : Request} {task : Task (Except Fatal Completion)}
      {pending : List (Command × Reply)} (htask : Phase.task? c.phase = some task)
      (hrequests : requestsOf notes = earlier ++ [request])
      (hlength : (repliesOf notes).length = earlier.length)
      (hdone : done = dealings key notes ++ pending) (hworks : AtWork key request task pending)
  /-- It is about to end, and may never reply to its last request. -/
  | ends (hclosing : Phase.closing? c.phase ≠ none) {pending : List (Command × Reply)}
      (hdone : done = dealings key notes ++ pending)
      (hpending : pending.length + (repliesOf notes).length ≤ (requestsOf notes).length)
      (hlength : (requestsOf notes).length ≤ (repliesOf notes).length + 1)

/-- What a connection does in a move to the list of a key, if it does anything: its last request is
a push or a pop, and the store carries out the apply that it makes on the key. -/
def deed? (key : Bytes) (notes : List Note) (s : Store Subscriber) (c : Connection) (m : Move) :
    Option Deed := do
  let request ← (requestsOf notes).getLast?
  let command ← (Command.ofRequest request).toOption
  let change ← c.change? m
  if command.deals key && change.key == key then
    command.deed? key (s.apply change.key change.transform)
  else none

section Deed

variable {key : Bytes} {notes : List Note} {s : Store Subscriber} {c : Connection} {m : Move}

/-- A move that makes no change does nothing to a list. -/
theorem deed?_of_change (h : c.change? m = none) : c.deed? key notes s m = none := by
  rw [deed?, h]
  cases (requestsOf notes).getLast? with
  | none => rfl
  | some request =>
      cases hcommand : (Command.ofRequest request).toOption with
      | none => simp only [Option.bind_eq_bind, Option.bind_some, hcommand, Option.bind_none]
      | some command =>
          simp only [Option.bind_eq_bind, Option.bind_some, hcommand, Option.bind_none]

/-- A request that neither pushes nor pops does nothing to the list. -/
theorem deed?_of_spares {earlier : List Request} {request : Request}
    (hrequests : requestsOf notes = earlier ++ [request])
    (hnone : ∀ reply, dealing? key request reply = none) : c.deed? key notes s m = none := by
  rw [deed?, hrequests, List.getLast?_concat, Option.bind_eq_bind, Option.bind_some]
  cases hcommand : Command.ofRequest request with
  | error e => rfl
  | ok command =>
      have hdeals : command.deals key = false := by
        have hdealing := hnone .null
        rw [dealing?_of_ok hcommand] at hdealing
        cases hdeals : command.deals key with
        | false => rfl
        | true =>
            rw [hdeals] at hdealing
            exact nomatch hdealing
      simp only [Except.toOption, Option.bind_eq_bind, Option.bind_some, hdeals, Bool.false_and]
      cases c.change? m with
      | none => rfl
      | some change => rfl

/-- A request that pushes or pops does what its apply does. -/
theorem deed?_of_deals {earlier : List Request} {request : Request} {command : Command}
    {transform : Transform} (hrequests : requestsOf notes = earlier ++ [request])
    (hcommand : Command.ofRequest request = .ok command) (hdeals : command.deals key = true)
    (hchange : c.change? m = some ⟨key, transform⟩) :
    c.deed? key notes s m = command.deed? key (s.apply key transform) := by
  rw [deed?, hrequests, List.getLast?_concat, hchange]
  simp only [hcommand, Except.toOption, Option.bind_eq_bind, Option.bind_some, hdeals,
    beq_self_eq_true, Bool.and_true, if_true]

end Deed

/-- At most one deed of a request waits for its reply. -/
theorem AtWork.length_le {key : Bytes} {request : Request} {task : Task (Except Fatal Completion)}
    {pending : List (Command × Reply)} (h : AtWork key request task pending) :
    pending.length ≤ 1 := by
  cases h with
  | replies completion =>
      cases dealing? key request completion.reply with
      | none => exact Nat.zero_le 1
      | some p => exact Nat.le_refl 1
  | _ => exact Nat.zero_le 1

/-- A task that has come to its end leaves the reply to be given. -/
theorem AtWork.pending_eq {key : Bytes} {request : Request} {completion : Completion}
    {pending : List (Command × Reply)} (h : AtWork key request (.done (.ok completion)) pending) :
    pending = (dealing? key request completion.reply).toList := by
  generalize htask : (Task.done (.ok completion) : Task (Except Fatal Completion)) = task at h
  cases h with
  | spares hnone _ => rw [hnone, Option.toList_none]
  | asks hcommand hdeals =>
      obtain ⟨owned, q, next, hcall⟩ := Handler.perform_of_deals hdeals
      exact nomatch htask.trans hcall
  | replies other =>
      obtain rfl := Except.ok.inj (Task.done.inj htask)
      rfl

/-- A computation is finished. -/
theorem AtWork.computed {key : Bytes} {request : Request} {next : Task (Except Fatal Completion)}
    {pending : List (Command × Reply)} (h : AtWork key request (.aside next) pending) :
    AtWork key request next pending := by
  generalize htask : (Task.aside next : Task (Except Fatal Completion)) = task at h
  cases h with
  | spares hnone hspares =>
      subst htask
      exact .spares hnone hspares
  | asks hcommand hdeals =>
      obtain ⟨owned, q, next', hcall⟩ := Handler.perform_of_deals hdeals
      exact nomatch htask.trans hcall
  | replies completion => exact nomatch htask

namespace Deals

variable {key : Bytes} {c c' : Connection} {notes more : List Note}
  {done : List (Command × Reply)}

/-- How many requests have not been replied to. -/
theorem exists_pending (h : Deals key c notes done) :
    ∃ pending, done = dealings key notes ++ pending ∧
      pending.length + (repliesOf notes).length ≤ (requestsOf notes).length ∧
      (requestsOf notes).length ≤ (repliesOf notes).length + 1 := by
  cases h with
  | rests htask hopen hlength hdone =>
      refine ⟨[], by rw [hdone, List.append_nil], ?_, ?_⟩
      · rw [hlength]
        exact Nat.le_of_eq (Nat.zero_add _)
      · omega
  | works htask hrequests hlength hdone hworks =>
      have hpending := hworks.length_le
      refine ⟨_, hdone, ?_, ?_⟩
      · rw [hrequests, hlength, List.length_append, List.length_singleton]
        omega
      · rw [hrequests, hlength, List.length_append, List.length_singleton]
  | ends hclosing hdone hpending hlength => exact ⟨_, hdone, hpending, hlength⟩

/-- A connection is about to end. -/
theorem of_closing (h : Deals key c notes done) (hclosing : Phase.closing? c'.phase ≠ none)
    (hquiet : Quiet more) : Deals key c' (notes ++ more) done := by
  obtain ⟨pending, hdone, hpending, hlength⟩ := h.exists_pending
  rw [← hquiet.dealings_append notes] at hdone
  refine .ends hclosing hdone ?_ ?_
  · rwa [hquiet.repliesOf_append, hquiet.requestsOf_append]
  · rwa [hquiet.repliesOf_append, hquiet.requestsOf_append]

/-- A connection works on no request, and does not begin to. -/
theorem of_rests (h : Deals key c notes done) (htask : Phase.task? c.phase = none)
    (hopen : Phase.closing? c.phase = none) (htask' : Phase.task? c'.phase = none)
    (hquiet : Quiet more) : Deals key c' (notes ++ more) done := by
  by_cases hclosing : Phase.closing? c'.phase = none
  · cases h with
    | rests _ _ hlength hdone =>
        refine .rests htask' hclosing ?_ ?_
        · rwa [hquiet.requestsOf_append, hquiet.repliesOf_append]
        · rw [hquiet.dealings_append, hdone]
    | works hworking _ _ _ _ => exact nomatch hworking.symm.trans htask
    | ends hending _ _ _ => exact absurd hopen hending
  · exact h.of_closing hclosing hquiet

/-- The request that is worked on gets further. -/
theorem of_works {earlier : List Request} {request : Request}
    {task : Task (Except Fatal Completion)} {pending : List (Command × Reply)}
    (hrequests : requestsOf notes = earlier ++ [request])
    (hlength : (repliesOf notes).length = earlier.length)
    (hdone : done = dealings key notes ++ pending)
    (htask' : Phase.task? c'.phase = some task) (hworks : AtWork key request task pending)
    (hquiet : Quiet more) : Deals key c' (notes ++ more) done := by
  rw [← hquiet.requestsOf_append notes] at hrequests
  refine .works htask' hrequests ?_ ?_ hworks
  · rwa [hquiet.repliesOf_append]
  · rwa [hquiet.dealings_append]

/-- The request that is worked on gets further, and leaves the list alone. -/
theorem of_task {task task' : Task (Except Fatal Completion)} (h : Deals key c notes done)
    (htask : Phase.task? c.phase = some task) (htask' : Phase.task? c'.phase = some task')
    (hworks : ∀ request pending, AtWork key request task pending → AtWork key request task' pending)
    (hquiet : Quiet more) : Deals key c' (notes ++ more) done := by
  cases h with
  | rests hresting _ _ _ => exact nomatch htask.symm.trans hresting
  | ends hending _ _ _ => exact absurd (Phase.closing?_of_task htask) hending
  | works hworking hrequests hlength hdone hbefore =>
      obtain rfl := Option.some.inj (hworking.symm.trans htask)
      exact of_works hrequests hlength hdone htask' (hworks _ _ hbefore) hquiet

/-- A request is taken, and nobody works on it yet, or nobody ever will. -/
theorem of_took {request : Request} (h : Deals key c notes done)
    (htask : Phase.task? c.phase = none) (hopen : Phase.closing? c.phase = none)
    (hbegins : Phase.closing? c'.phase ≠ none ∨ ∃ task, Phase.task? c'.phase = some task ∧
      AtWork key request task []) : Deals key c' (notes ++ [.took request]) done := by
  cases h with
  | works hworking _ _ _ _ => exact nomatch hworking.symm.trans htask
  | ends hending _ _ _ => exact absurd hopen hending
  | rests _ _ hlength hdone =>
      rw [← dealings_took hlength key request, ← List.append_nil (dealings key _)] at hdone
      have hreplies := repliesOf_took notes request
      rcases hbegins with hclosing | ⟨task, htask', hworks⟩
      · refine .ends hclosing hdone ?_ ?_
        · rw [requestsOf_took, hreplies, List.length_append, hlength, List.length_nil,
            List.length_singleton]
          omega
        · rw [requestsOf_took, hreplies, List.length_append, hlength, List.length_singleton]
      · exact .works htask' (requestsOf_took notes request) (hreplies ▸ hlength.symm) hdone hworks

/-- The request that was worked on is replied to. -/
theorem of_replied {completion : Completion} (h : Deals key c notes done)
    (htask : Phase.task? c.phase = some (.done (.ok completion)))
    (htask' : Phase.task? c'.phase = none) (hopen' : Phase.closing? c'.phase = none)
    (hquiet : Quiet more) :
    Deals key c' (notes ++ .replied completion.reply :: more) done := by
  have hrequestsOf : requestsOf (.replied completion.reply :: more) = [] := hquiet.requests
  have hrepliesOf : repliesOf (.replied completion.reply :: more) = [completion.reply] :=
    congrArg (completion.reply :: ·) hquiet.replies
  cases h with
  | rests hresting _ _ _ => exact nomatch htask.symm.trans hresting
  | ends hending _ _ _ => exact absurd (Phase.closing?_of_task htask) hending
  | works hworking hrequests hlength hdone hworks =>
      obtain rfl := Option.some.inj (hworking.symm.trans htask)
      refine .rests htask' hopen' ?_ ?_
      · rw [requestsOf_append, repliesOf_append, hrequestsOf, hrepliesOf, hrequests,
          List.append_nil, List.length_append, List.length_append, hlength]
        rfl
      · rw [hdone, hworks.pending_eq, dealings_replied hrequests hlength hrequestsOf hrepliesOf]

end Deals

/-! ### One step -/

/-- A silent call changes no key. -/
theorem change?_of_isSilent {q : Call} (h : q.IsSilent) (instead : (q : Call) → Option q.Answer) :
    q.change? instead = none := by
  cases q with
  | apply key transform => exact h.elim
  | _ => rfl

/-- A connection that is about to end changes no key any more. -/
theorem Removes.change?_eq {c : Connection} (h : c.Removes)
    (hclosing : Phase.closing? c.phase ≠ none) (m : Move) : c.change? m = none := by
  cases m with
  | answer instead =>
      rw [change?]
      cases hcall : Phase.call? c.phase with
      | none => rfl
      | some q =>
          rcases call?_cases hcall with ⟨owned, next, htask⟩ | ⟨owned, next, htask⟩
          · exact absurd (Phase.closing?_of_task htask) hclosing
          · exact change?_of_isSilent (h _ htask).1 instead
  | _ => rfl

/-- A call that makes no change leaves every key alone. -/
theorem entries_react (s : Store Subscriber) (client : Nat) {q : Call}
    {instead : (q : Call) → Option q.Answer} (h : q.change? instead = none) :
    (s.react client q (instead q)).store.entries = s.entries := by
  cases q with
  | apply key transform =>
      rw [Call.change?] at h
      cases hinstead : instead (.apply key transform) with
      | some answer => rfl
      | none =>
          rw [hinstead] at h
          cases h
  | get key =>
      cases instead (.get key) with
      | _ => rfl
  | listen channel =>
      cases instead (.listen channel) with
      | _ => rfl
  | unlisten id =>
      cases instead (.unlisten id) with
      | _ => rfl

/-- A step that makes no change leaves every key alone. -/
theorem Steps.entries_eq {client : Nat} {s : Store Subscriber} {c : Connection} {m : Move}
    {p : Progress} (hstep : Steps client s c m p) (h : c.change? m = none) :
    p.store.entries = s.entries := by
  cases hstep with
  | answer hphase | answerWaiting hphase | answerLeaving hphase | answerAbandoned hphase =>
      rw [change?, hphase] at h
      exact entries_react s client h
  | _ => rfl

/-- What a step does to the list of a key and to what was done to it. -/
inductive Advances (key : Bytes) (notes : List Note) (done : List (Command × Reply))
    (items : List Bytes) (s : Store Subscriber) (c : Connection) (m : Move) (p : Progress) :
    Prop where
  /-- It leaves the list alone. -/
  | spares (hdeed : c.deed? key notes s m = none) (hlists : Lists (p.store.get key) items)
      (hdeals : Deals key p.connection (notes ++ p.notes) done)
  /-- It does something to the list. -/
  | turns {d : Deed} {items' : List Bytes} (hdeed : c.deed? key notes s m = some d)
      (hlists : Lists (p.store.get key) items') (hturns : d.Turns items items')
      (hdeals : Deals key p.connection (notes ++ p.notes) (done ++ [(d.command key, d.reply)]))

section Step

variable {key : Bytes} {notes : List Note} {done : List (Command × Reply)} {items : List Bytes}
  {client : Nat} {s : Store Subscriber} {c : Connection} {m : Move} {p : Progress}

/-- The store answers the call that a request makes. -/
theorem Deals.of_answer {owned : Registry} {q : Call}
    {next : q.Answer → Task (Except Fatal Completion)} {instead : (q : Call) → Option q.Answer}
    (h : Deals key c notes done)
    (hlists : Lists (s.get key) items) (htask : Phase.task? c.phase = some (.call owned q next))
    (hcall : Phase.call? c.phase = some q) (hinstead : instead q = none)
    (hstore : p.store = (s.react client q (instead q)).store) (hnotes : p.notes = [])
    (htask' : Phase.task? p.connection.phase = some (next (s.react client q (instead q)).answer)) :
    Advances key notes done items s c (.answer instead) p := by
  rw [hinstead] at hstore htask'
  have hquiet : Quiet p.notes := hnotes ▸ ⟨rfl, rfl⟩
  have hchange : c.change? (.answer instead) = q.change? instead := by
    rw [change?, hcall, Option.bind_some]
  cases h with
  | rests hresting _ _ _ => cases htask.symm.trans hresting
  | ends hending _ _ _ => exact absurd (Phase.closing?_of_task htask) hending
  | @works earlier request task pending hworking hrequests hlength hdone hworks =>
      obtain rfl := Option.some.inj (htask.symm.trans hworking)
      generalize hasked : (Task.call owned q next : Task (Except Fatal Completion)) = task at hworks
      cases hworks with
      | spares hnone hspares =>
          subst hasked
          refine .spares (deed?_of_spares hrequests hnone) ?_ ?_
          · rw [hstore, Store.get_react_of_spares hspares.1 hlists client]
            exact hlists
          · exact .of_works hrequests hlength hdone htask' (.spares hnone (hspares.2 _)) hquiet
      | @asks command hcommand hdeals =>
          obtain ⟨transform, d, items', rfl, hdeed, hcommandEq, hlists', hturns, hcompleted⟩ :=
            Handler.answer_of_deals hdeals hasked.symm hlists client
          have hwhat : c.change? (.answer instead) = some ⟨key, transform⟩ := by
            rw [hchange, Call.change?, hinstead]
            rfl
          refine .turns ((deed?_of_deals hrequests hcommand hdeals hwhat).trans hdeed)
            (hstore ▸ hlists') hturns ?_
          have hdealing : dealing? key request d.reply = some (d.command key, d.reply) := by
            rw [dealing?_of_ok hcommand, hdeals, d.refuses_reply, hcommandEq]
            rfl
          have hworks : AtWork key request _ _ :=
            .replies { handler := .normal, reply := d.reply }
          rw [hdealing] at hworks
          rw [List.append_nil] at hdone
          exact .of_works hrequests hlength (congrArg (· ++ _) hdone) (hcompleted ▸ htask') hworks
            hquiet
      | replies completion => cases hasked

/-- A step that makes no change leaves the list alone. -/
theorem Advances.of_change (hstep : Steps client s c m p) (hchange : c.change? m = none)
    (hlists : Lists (s.get key) items) (hdeals : Deals key p.connection (notes ++ p.notes) done) :
    Advances key notes done items s c m p := by
  refine .spares (deed?_of_change hchange) ?_ hdeals
  rwa [Store.get, hstep.entries_eq hchange]

/-- A step of a connection that works on no request. -/
theorem Deals.of_resting (h : Deals key c notes done) (hstep : Steps client s c m p)
    (hkeeps : ∀ note ∈ p.notes, note.keeps key = true)
    (htask : Phase.task? c.phase = none) (hopen : Phase.closing? c.phase = none) :
    c.change? m = none ∧ Deals key p.connection (notes ++ p.notes) done := by
  have hrests {c' : Connection} {more : List Note} (htask' : Phase.task? c'.phase = none)
      (hquiet : Quiet more) : Deals key c' (notes ++ more) done :=
    h.of_rests htask hopen htask' hquiet
  cases hstep with
  | finished _ _ => exact ⟨rfl, hrests (rests_flush { c with state := .closed } _).task?_eq .nil⟩
  | turn _ _ _ | endOfInput _ _ | settled _ _ => exact ⟨rfl, hrests rfl .nil⟩
  | turnFlush _ _ _ => exact ⟨rfl, hrests (rests_flush c _).task?_eq .nil⟩
  | @request request reader handler _ _ _ =>
      have hbegins := hkeeps _ (List.mem_singleton_self _)
      exact ⟨rfl, h.of_took htask hopen (.inr ⟨_, rfl, atWork_handle handler hbegins⟩)⟩
  | orphan _ _ _ => exact ⟨rfl, h.of_took htask hopen (.inl (closing?_fail _ _))⟩
  | readError _ _ => exact ⟨rfl, h.of_closing (closing?_fail _ _) .nil⟩
  | @nothing reader _ _ => exact ⟨rfl, hrests (rests_flush { c with reader } _).task?_eq .nil⟩
  | more hphase _ _ _ => exact ⟨rfl, hrests htask .nil⟩
  | @message d mailbox _ _ =>
      have hturn := (puts_deliver { c with mailbox, phase := .turn } d).phase_eq
      exact ⟨rfl, hrests (congrArg Phase.task? hturn) (quiet_deliver _ d)⟩
  | overBudget _ _ => exact ⟨rfl, hrests (rests_flush { c with autoRead := false } _).task?_eq .nil⟩
  | @accept n chunk behind next _ _ =>
      have hflushes := Stream.flushes_rest (chunk.drop n) behind next
      exact ⟨rfl, hrests (task?_of_flushes hflushes) ⟨rfl, rfl⟩⟩
  | acceptNothing _ => exact ⟨rfl, h.of_closing (closing?_flushFailed c _ _) ⟨rfl, rfl⟩⟩
  | sync _ => exact ⟨rfl, hrests (rests_afterFlush c _).task?_eq ⟨rfl, rfl⟩⟩
  | refuseWriting _ | refuseSyncing _ =>
      exact ⟨rfl, h.of_closing (closing?_flushFailed c _ _) .nil⟩
  | arrive a => exact ⟨rfl, hrests htask .nil⟩
  | abandon _ => exact ⟨rfl, h.of_closing nofun .nil⟩
  | refuseShutDown hphase | shutDown hphase | left hphase | dropped hphase | answerLeaving hphase
  | answerAbandoned hphase => exact nomatch hphase ▸ hopen
  | _ =>
      have hphase := ‹c.phase = _›
      exact nomatch hphase ▸ htask

/-- A step of a connection that works on a request. -/
theorem Deals.of_working {task : Task (Except Fatal Completion)} (h : Deals key c notes done)
    (hstep : Steps client s c m p) (hserved : m.IsServed) (hlists : Lists (s.get key) items)
    (htask : Phase.task? c.phase = some task) : Advances key notes done items s c m p := by
  have hsame {m : Move} {p : Progress} (hstep : Steps client s c m p) (hchange : c.change? m = none)
      (hdeals : Deals key p.connection (notes ++ p.notes) done) :
      Advances key notes done items s c m p := .of_change hstep hchange hlists hdeals
  cases hstep with
  | request hphase _ _ | orphan hphase _ _ | endOfInput hphase _ | readError hphase _ =>
      exact absurd (.inl (htask ▸ nofun)) hphase.not_working
  | fatal hphase => exact hsame (.fatal hphase) rfl (h.of_closing (closing?_fail c _) .nil)
  | fatalWaiting hphase =>
      exact hsame (.fatalWaiting hphase) rfl
        (h.of_closing (closing?_fail c _) (.of_idles (idles_discarded _)))
  | @answered completion hphase =>
      obtain ⟨more, hnotes, hquiet⟩ := notes_complete c completion
      refine hsame (.answered hphase) rfl (hnotes ▸ ?_)
      exact h.of_replied (congrArg Phase.task? hphase) rfl rfl hquiet
  | @answeredWaiting completion held hphase =>
      obtain ⟨more, hnotes, hquiet⟩ := notes_resume c held completion
      refine hsame (.answeredWaiting hphase) rfl (hnotes ▸ ?_)
      exact h.of_replied (congrArg Phase.task? hphase) (rests_flush _ _).task?_eq
        (flush_facts _ _).2.1 hquiet
  | answer hphase | answerWaiting hphase =>
      exact h.of_answer hlists (congrArg Phase.task? hphase) (congrArg Phase.call? hphase)
        (hserved _ rfl _) rfl rfl rfl
  | computed hphase =>
      exact hsame (.computed hphase) rfl
        (h.of_task (congrArg Phase.task? hphase) rfl (fun _ _ => AtWork.computed) .nil)
  | computedWaiting hphase =>
      exact hsame (.computedWaiting hphase) rfl
        (h.of_task (congrArg Phase.task? hphase) rfl (fun _ _ => AtWork.computed) .nil)
  | suspend hphase hwaits =>
      exact hsame (.suspend hphase hwaits) rfl
        (h.of_task (congrArg Phase.task? hphase) rfl (fun _ _ => id) .nil)
  | hold hphase hwaits hmailbox =>
      exact hsame (.hold hphase hwaits hmailbox) rfl
        (h.of_task (congrArg Phase.task? hphase) rfl (fun _ _ => id) ⟨rfl, rfl⟩)
  | arrive a => exact hsame (.arrive a) rfl (h.of_task htask htask (fun _ _ => id) .nil)
  | abandon hpresent => exact hsame (.abandon hpresent) rfl (h.of_closing nofun .nil)
  | _ =>
      have hphase := ‹c.phase = _›
      exact nomatch hphase ▸ htask

/-- What a step does to the list of a key, and to the books about it. -/
theorem Deals.step (h : Deals key c notes done) (hremoves : c.Removes)
    (hstep : Steps client s c m p) (hserved : m.IsServed)
    (hkeeps : ∀ note ∈ p.notes, note.keeps key = true)
    (hlists : Lists (s.get key) items) : Advances key notes done items s c m p := by
  by_cases hopen : Phase.closing? c.phase = none
  · cases htask : Phase.task? c.phase with
    | some task => exact h.of_working hstep hserved hlists htask
    | none =>
        obtain ⟨hchange, hdeals⟩ := h.of_resting hstep hkeeps htask hopen
        exact .of_change hstep hchange hlists hdeals
  · obtain ⟨hclosing, hidles⟩ := hstep.closing hopen
    exact .of_change hstep (hremoves.change?_eq hopen m) hlists
      (h.of_closing hclosing (.of_idles hidles))

end Step

end Connection

end RespStore
