import RespStore.Proofs.Faults

/-!
# Errors change nothing

A request can be refused in many places: its name is not known, an argument does not fit, a key
holds something else than a command needs, a sum is not finite, a subscriber may not ask for it.
Wherever that is, it comes before everything that the request would have done. Who is told of an
error can rely on it that nothing has happened.

* `Task.Served` is the course that a task takes with the store, with others at work between its
  calls.
* `Call.IsQuiet` says that the store never answers a call with an error, `Transform.Regular` what it
  answers to the calls that may fail.
* `Handler.harmless_handle` says it of every course, `Handler.error_changes_nothing` is the main
  result.
-/

namespace RespStore

/-! ### Courses with the store -/

/-- A call, and the store that it meets. -/
structure Visit where
  /-- The call. -/
  call : Call
  /-- The store. -/
  store : Store Subscriber

/-- Whether a visit of a connection leaves the store as it was, and nobody hears of it. -/
def Visit.IsIdle (client : Nat) (visit : Visit) : Prop :=
  (visit.store.serve client visit.call).store = visit.store ∧
    (visit.store.serve client visit.call).notices = []

namespace Task

variable {α : Type} {client : Nat}

/-- The course of a task whose calls are carried out on the store, and its value. Others may do
anything between the calls, so each call meets a store that is left open. -/
inductive Served (client : Nat) : Task α → List Visit → α → Prop where
  /-- Nothing is left to do. -/
  | done (value : α) : Served client (.done value) [] value
  /-- A call is carried out. -/
  | call {owned : Registry} {q : Call} {next : q.Answer → Task α} (s : Store Subscriber)
      {visits : List Visit} {value : α}
      (hnext : Served client (next (s.serve client q).answer) visits value) :
      Served client (.call owned q next) (⟨q, s⟩ :: visits) value
  /-- A computation is finished. -/
  | aside {next : Task α} {visits : List Visit} {value : α}
      (hnext : Served client next visits value) : Served client (.aside next) visits value

/-- A task that is run to its end takes such a course. If all its visits are idle, nothing
changes. -/
theorem exists_served_run (task : Task α) (s : Store Subscriber) :
    ∃ visits, task.Served client visits (task.run .plain client s).value ∧
      ((∀ visit ∈ visits, visit.IsIdle client) →
        (task.run .plain client s).store = s ∧ (task.run .plain client s).notices = []) := by
  induction task generalizing s with
  | done value => exact ⟨[], .done value, fun _ => ⟨rfl, rfl⟩⟩
  | call owned q next ih =>
      obtain ⟨visits, hserved, hidle⟩ := ih (s.serve client q).answer (s.serve client q).store
      rw [run, Backend.instead_plain]
      refine ⟨⟨q, s⟩ :: visits, .call s hserved, fun hall => ?_⟩
      obtain ⟨⟨hstore, hnotices⟩, hall⟩ := List.forall_mem_cons.mp hall
      obtain ⟨hstore', hnotices'⟩ := hidle hall
      exact ⟨hstore'.trans hstore, List.append_eq_nil_iff.mpr ⟨hnotices, hnotices'⟩⟩
  | aside next ih =>
      obtain ⟨visits, hserved, hidle⟩ := ih s
      exact ⟨visits, .aside hserved, hidle⟩

/-- Calls that are of a kind whatever they are answered are of that kind on every course. -/
theorem Calls.of_served {p : Call → Prop} {task : Task α} {visits : List Visit} {value : α}
    (h : task.Calls p) (hserved : task.Served client visits value) :
    ∀ visit ∈ visits, p visit.call := by
  induction hserved with
  | done value => exact List.forall_mem_nil _
  | call s _ ih => exact List.forall_mem_cons.mpr ⟨h.1, ih (h.2 _)⟩
  | aside _ ih => exact ih h

end Task

/-- Whether the store answers a call as is expected, and never with an error. -/
def Call.IsQuiet (answers : Answers) (q : Call) : Prop :=
  ∀ (s : Store Subscriber) (client : Nat), answers q (s.serve client q).answer ∧
    ∀ owned, q.alarm? owned (s.serve client q).answer = none

/-- A task that makes only quiet calls hears no alarm. -/
theorem Task.Heeds.of_quiet {α : Type} {answers : Answers} {stop : Alarm → α → Prop}
    {fine : α → Prop} {task : Task α} {client : Nat} {visits : List Visit} {value : α}
    (h : task.Heeds answers stop fine) (hquiet : task.Calls (Call.IsQuiet answers))
    (hserved : task.Served client visits value) : fine value := by
  induction hserved with
  | done value => exact h
  | call s _ ih =>
      obtain ⟨hanswer, hnone⟩ := hquiet.1 s client
      have hnext := h _ hanswer
      rw [hnone] at hnext
      exact ih hnext (hquiet.2 _)
  | aside _ ih => exact ih h hquiet

/-! ### What the store answers -/

/-- Whether a transform answers with outputs of this form, and never that the store is
unavailable. -/
structure Transform.Regular (shape : Output.Shape) (transform : Transform) : Prop where
  /-- Its outputs have the form. -/
  shape_eq : ∀ held decision, transform held = .ok decision → decision.output.shape = shape
  /-- Its errors are about the value. -/
  available : ∀ held e, transform held = .error e → ∀ reason, e ≠ .unavailable reason

namespace Transform

variable {shape : Output.Shape}

/-- What is made of the value of a key is regular, whatever is wrong with the value. -/
theorem regular_bind {α : Type} {read : Option Value → Except StoreError α}
    {f : α → Except StoreError Decision}
    (hread : ∀ held e, read held = .error e → ∀ reason, e ≠ .unavailable reason)
    (hshape : ∀ value decision, f value = .ok decision → decision.output.shape = shape)
    (hf : ∀ value e, f value = .error e → ∀ reason, e ≠ .unavailable reason) :
    Regular shape fun held => read held >>= f where
  shape_eq held decision h := by
    obtain ⟨value, -, hvalue⟩ := exists_of_bind h
    exact hshape value decision hvalue
  available held e h := by
    cases hheld : read held with
    | error e' =>
        rw [hheld] at h
        exact Except.error.inj h ▸ hread held e' hheld
    | ok value =>
        rw [hheld] at h
        exact hf value e h

/-- A value that is no list is an error about its type, and never one about the store. -/
theorem available_listOf (held : Option Value) (e : StoreError) (h : listOf held = .error e) :
    ∀ reason, e ≠ .unavailable reason := by
  rcases held with _ | (content | items)
  · cases h
  · obtain rfl := Except.error.inj h
    exact nofun
  · cases h

/-- A value that is no number is an error about the value, and never one about the store. -/
theorem available_numberOf (held : Option Value) (e : StoreError) (h : numberOf held = .error e) :
    ∀ reason, e ≠ .unavailable reason := by
  rcases held with _ | (content | items)
  · cases h
  · rw [numberOf] at h
    split at h
    · cases h
    · obtain rfl := Except.error.inj h
      exact nofun
  · obtain rfl := Except.error.inj h
    exact nofun

/-- What is made of a list without errors is regular. -/
theorem regular_list {f : Option (List Bytes) → Decision}
    (h : ∀ items, (f items).output.shape = shape) :
    Regular shape fun held => listOf held >>= fun items => .ok (f items) :=
  regular_bind available_listOf (fun items _ hdecision => Except.ok.inj hdecision ▸ h items)
    fun _ _ herror => nomatch herror

/-- A push answers with a length. -/
theorem regular_offer (values : List Bytes) (side : ListEnd) :
    Regular .size (offer values side) := regular_list fun _ => rfl

/-- Looking an element up answers with an element, or none. -/
theorem regular_index (offset : Int64) : Regular .element (index offset) :=
  regular_list fun _ => rfl

/-- Reading a part of a list answers with elements. -/
theorem regular_sublist (first last : Int64) : Regular .elements (sublist first last) :=
  regular_list fun _ => rfl

/-- A pop answers with elements, or none. -/
theorem regular_poll (side : ListEnd) (count : Nat) : Regular .elements (poll side count) := by
  refine regular_bind available_listOf (fun items decision h => ?_) fun items e h => ?_
  · rcases items with _ | items
    · exact Except.ok.inj h ▸ rfl
    · dsimp only at h
      split at h
      · exact Except.ok.inj h ▸ rfl
      · exact Except.ok.inj h ▸ rfl
  · rcases items with _ | items
    · cases h
    · dsimp only at h
      split at h
      · cases h
      · cases h

/-- Setting a value answers with nothing, whatever was there. -/
theorem regular_put (content : Bytes) : Regular .unit (Transform.put content) where
  shape_eq _ _ h := Except.ok.inj h ▸ rfl
  available _ _ h := nomatch h

/-- An increment answers with the sum. -/
theorem regular_increment (by_ : Float) : Regular .float (increment by_) := by
  refine regular_bind available_numberOf (fun number decision h => ?_) fun number e h => ?_
  · dsimp only at h
    split at h
    · exact Except.ok.inj h ▸ rfl
    · cases h
  · dsimp only at h
    split at h
    · cases h
    · obtain rfl := Except.error.inj h
      exact nofun

end Transform

/-- The one apply of a command is answered as the command expects. -/
theorem Command.regular_of_transform? {command : Command} {key : Bytes} {transform : Transform}
    (h : command.transform? = some (key, transform)) :
    ∃ shape, command.shape? = some shape ∧ transform.Regular shape := by
  cases command with
  | incrByFloat key increment => cases h; exact ⟨_, rfl, Transform.regular_increment increment⟩
  | set key value => cases h; exact ⟨_, rfl, Transform.regular_put value⟩
  | publish channel message => cases h; exact ⟨_, rfl, Transform.regular_put message⟩
  | lindex key index => cases h; exact ⟨_, rfl, Transform.regular_index index⟩
  | push side key values => cases h; exact ⟨_, rfl, Transform.regular_offer values side⟩
  | lrange key start stop => cases h; exact ⟨_, rfl, Transform.regular_sublist start stop⟩
  | pop side key count =>
      rw [transform?] at h
      split at h
      · cases h
      · cases h
        exact ⟨_, rfl, Transform.regular_poll side _⟩
  | _ => cases h

/-- Whether a call only reads. -/
def Call.IsRead : Call → Prop
  | .get _ => True
  | _ => False

/-- A call that only reads is silent. -/
theorem Call.IsRead.isSilent {q : Call} (h : q.IsRead) : q.IsSilent := by
  cases q with
  | get key => exact trivial
  | _ => exact h.elim

/-- A visit that only reads is idle. -/
theorem Call.IsRead.isIdle {client : Nat} {visit : Visit} (h : visit.call.IsRead) :
    visit.IsIdle client := by
  obtain ⟨q, s⟩ := visit
  cases q with
  | get key => exact ⟨rfl, rfl⟩
  | _ => exact h.elim

/-- Reading a key and changing listeners always works. -/
theorem Call.IsSilent.isQuiet {q : Call} (h : q.IsSilent) {answers : Answers}
    (hanswers : ∀ answer, answers q answer) : q.IsQuiet answers := by
  intro s client
  cases q with
  | apply key transform => exact h.elim
  | _ => exact ⟨hanswers _, fun _ => rfl⟩

/-- A call that only reads always works, and any answer to it is expected. -/
theorem Call.IsRead.isQuiet {q : Call} (h : q.IsRead) (command : Command) :
    q.IsQuiet command.Expects := by
  refine h.isSilent.isQuiet ?_
  cases q with
  | get key => exact fun _ => trivial
  | _ => exact h.elim

/-- Removing a key always works. -/
theorem Call.isQuiet_remove (key : Bytes) (keys : List Bytes) :
    (Call.apply key .remove).IsQuiet (Command.del keys).Expects := by
  intro s client
  cases hheld : s.get key with
  | none =>
      have happly : Transform.remove (s.get key) = .ok (.read (.flag false)) := by rw [hheld]; rfl
      simp only [Store.serve, Store.apply_of_ok happly]
      exact ⟨fun output houtput => Except.ok.inj houtput ▸ rfl, fun _ => rfl⟩
  | some value =>
      have happly : Transform.remove (s.get key) = .ok ⟨.remove, .flag true⟩ := by rw [hheld]; rfl
      simp only [Store.serve, Store.apply_of_ok happly]
      exact ⟨fun output houtput => Except.ok.inj houtput ▸ rfl, fun _ => rfl⟩

/-! ### Requests -/

namespace Handler

open RespStore.Task

variable {client : Nat} {visits : List Visit} {result : Except Fatal Completion}

/-- Whether a request is answered, and has done nothing if the reply complains: its visits were
idle, the handler is kept and the connection goes on. -/
def Harmless (h : Handler) (client : Nat) (visits : List Visit)
    (result : Except Fatal Completion) : Prop :=
  ∃ completion, result = .ok completion ∧ (completion.reply.Complains →
    (∀ visit ∈ visits, visit.IsIdle client) ∧ completion.handler = h ∧ completion.close = false)

/-- A request that is answered without a complaint is harmless. -/
theorem Succeeds.harmless (hresult : Succeeds result) (h : Handler) :
    h.Harmless client visits result := by
  obtain ⟨completion, hok, hreply⟩ := hresult
  exact ⟨completion, hok, fun hcomplains => absurd hcomplains hreply⟩

/-- A request that keeps its handler if it complains is harmless if its visits were idle. -/
theorem Survives.harmless {h : Handler} (hresult : h.Survives result)
    (hidle : ∀ visit ∈ visits, visit.IsIdle client) : h.Harmless client visits result := by
  obtain ⟨completion, hok, hkept⟩ := hresult
  exact ⟨completion, hok, fun hcomplains => ⟨hidle, hkept hcomplains⟩⟩

/-- A change of subscriptions has nothing to complain about. -/
theorem harmless_ok_map {task : Task Completion}
    (htask : task.Heeds (fun _ _ => True) Registry.ComesTo Registry.Acknowledges)
    (hsilent : task.Silent)
    (hserved : (Except.ok <$> task : Task (Except Fatal Completion)).Served client visits result)
    (h : Handler) : h.Harmless client visits result := by
  have hsilent' : (Except.ok <$> task : Task (Except Fatal Completion)).Silent := hsilent.map _
  refine ((heeds_ok_map h htask).of_quiet (hsilent'.calls.imp ?_) hserved).harmless h
  intro q hq
  exact hq.isQuiet fun _ => trivial

/-- An apply that answers with an error has changed nothing, and one that does not leaves the
command nothing to complain about. -/
theorem harmless_of_transform? {command : Command} {key : Bytes} {transform : Transform}
    (h : command.transform? = some (key, transform))
    (hserved : (perform command).Served client visits result) :
    normal.Harmless client visits result := by
  obtain ⟨next, hperform, hfault, hfine⟩ := perform_of_transform? h
  obtain ⟨shape, hshape, hregular⟩ := Command.regular_of_transform? h
  rw [hperform] at hserved
  cases hserved with
  | call s hnext =>
      cases hdecision : transform (s.get key) with
      | error e =>
          -- The error is about the value, not about the store, so it is told as a reply.
          have happly := Store.apply_of_error hdecision
          have havailable := hregular.available _ e hdecision
          simp only [Store.serve, happly, hfault, verdict_of_available havailable] at hnext
          cases hnext with
          | done =>
              refine ⟨_, rfl, fun _ => ⟨List.forall_mem_singleton.mpr ?_, rfl, rfl⟩⟩
              exact ⟨congrArg Outcome.store happly, congrArg Outcome.notices happly⟩
      | ok decision =>
          have happly := Store.apply_of_ok hdecision
          obtain ⟨value, hdone, hvalue⟩ := hfine decision.output
            (hshape.trans (congrArg some (hregular.shape_eq _ _ hdecision).symm))
          simp only [Store.serve, happly, hdone] at hnext
          cases hnext with
          | done => exact hvalue.harmless normal

/-- A command that only reads does nothing anyway. -/
theorem harmless_of_reads {command : Command}
    (hserved : (perform command).Served client visits result)
    (hread : ∀ q, command.Makes q → q.IsRead) : normal.Harmless client visits result := by
  have hcalls := (calls_perform command).imp hread
  have hquiet := hcalls.imp fun q hq => hq.isQuiet command
  refine ((heeds_perform command).of_quiet hquiet hserved).harmless ?_
  intro visit hvisit
  exact (hcalls.of_served hserved visit hvisit).isIdle

/-- A command that makes no such apply is refused or answered without an effect, unless nothing can
go wrong with it. -/
theorem harmless_of_quiet {command : Command} (h : command.transform? = none)
    (hserved : (perform command).Served client visits result) :
    normal.Harmless client visits result := by
  cases command with
  | del keys =>
      have hquiet : (perform (.del keys)).Calls (Call.IsQuiet (Command.del keys).Expects) := by
        refine (calls_perform _).imp ?_
        rintro q ⟨key, -, rfl⟩
        exact Call.isQuiet_remove key keys
      exact ((heeds_del keys).of_quiet hquiet hserved).harmless normal
  | subscribe channels =>
      exact harmless_ok_map (Registry.heeds_subscribe ∅ channels fun _ => List.not_mem_nil)
        (Registry.silent_subscribe ∅ [] channels) hserved normal
  | unsubscribe channels =>
      exact harmless_ok_map (Registry.heeds_unsubscribe ∅ channels)
        (Registry.silent_unsubscribe ∅ channels) hserved normal
  | get key | llen key =>
      refine harmless_of_reads hserved ?_
      rintro q rfl
      exact trivial
  | lcs query =>
      refine harmless_of_reads hserved ?_
      rintro q (rfl | rfl)
      · exact trivial
      · exact trivial
  | pop side key count =>
      rw [Command.transform?] at h
      split at h
      · rename_i hcount
        exact harmless_of_reads hserved fun q hmakes => absurd hcount hmakes.1
      · cases h
  | client _ | config _ _ | echo _ | ping _ | quit | readOnly | readWrite =>
      exact harmless_of_reads hserved fun q hmakes => hmakes.elim
  | _ => cases h

/-- A subscriber is refused without a call, or nothing can go wrong. -/
theorem harmless_performSubscribed {registry : Registry} {command : Command}
    (hserved : (performSubscribed registry command).Served client visits result) :
    (subscriber registry).Harmless client visits result := by
  cases command with
  | subscribe channels =>
      exact harmless_ok_map (Registry.heeds_subscribe registry channels fun _ => List.not_mem_nil)
        (Registry.silent_subscribe registry [] channels) hserved _
  | unsubscribe channels =>
      exact harmless_ok_map (Registry.heeds_unsubscribe registry channels)
        (Registry.silent_unsubscribe registry channels) hserved _
  | quit =>
      cases hserved with
      | done => exact Succeeds.harmless ⟨_, rfl, id⟩ _
  | _ =>
      cases hserved with
      | done => exact ⟨_, rfl, fun _ => ⟨List.forall_mem_nil _, rfl, rfl⟩⟩

/-- Every request is harmless, on every course that it takes with the store. -/
theorem harmless_handle {h : Handler} {request : Request}
    (hserved : (h.handle request).Served client visits result) :
    h.Harmless client visits result := by
  rw [handle] at hserved
  cases hcommand : Command.ofRequest request with
  | error e =>
      rw [hcommand] at hserved
      cases hserved with
      | done => exact ⟨_, rfl, fun _ => ⟨List.forall_mem_nil _, rfl, rfl⟩⟩
  | ok command =>
      rw [hcommand] at hserved
      cases h with
      | subscriber registry => exact harmless_performSubscribed hserved
      | normal =>
          cases happly : command.transform? with
          | some p => exact harmless_of_transform? happly hserved
          | none => exact harmless_of_quiet happly hserved

/-- **Errors change nothing.** A handler in whichever mode, any store and any request. The request
is answered; and if its reply is an error, or holds one, then

* the store is what it was before, in its keys, their versions, its commits and its listeners,
* nobody has been told of an event,
* the handler is the same, with its mode and its subscriptions, and the connection goes on.

The same holds of a request with others at work between its calls, where the store may be another
one at every call: if the reply is an error, none of its calls has changed the store that it met, or
told anybody of an event. -/
theorem error_changes_nothing (h : Handler) (request : Request) (client : Nat) :
    (∀ s, ∃ completion, ((h.handle request).run .plain client s).value = .ok completion ∧
      (completion.reply.Complains →
        ((h.handle request).run .plain client s).store = s ∧
        ((h.handle request).run .plain client s).notices = [] ∧
        completion.handler = h ∧ completion.close = false)) ∧
    ∀ visits result, (h.handle request).Served client visits result →
      ∃ completion, result = .ok completion ∧
        (completion.reply.Complains →
          (∀ visit ∈ visits, (visit.store.serve client visit.call).store = visit.store ∧
            (visit.store.serve client visit.call).notices = []) ∧
          completion.handler = h ∧ completion.close = false) := by
  refine ⟨fun s => ?_, fun visits result hserved => harmless_handle hserved⟩
  obtain ⟨visits, hserved, hunchanged⟩ := exists_served_run (h.handle request) s
  obtain ⟨completion, hok, hkept⟩ := harmless_handle hserved
  refine ⟨completion, hok, fun hcomplains => ?_⟩
  obtain ⟨hidle, hhandler, hclose⟩ := hkept hcomplains
  obtain ⟨hstore, hnotices⟩ := hunchanged hidle
  exact ⟨hstore, hnotices, hhandler, hclose⟩

/-- A push to a key that holds a byte string is refused, and the key keeps it. -/
theorem error_changes_nothing_push :
    ∃ s completion,
      ((normal.handle ⟨Bytes.ofString "LPUSH", [[107], [97]]⟩).run .plain 0 s).value =
        .ok completion ∧ completion.reply.Complains ∧
      (((normal.handle ⟨Bytes.ofString "LPUSH", [[107], [97]]⟩).run .plain 0 s).store).get [107] =
        some (.bytes [118]) := by
  have hcommand : Command.ofRequest ⟨Bytes.ofString "LPUSH", [[107], [97]]⟩ =
      .ok (.push .head [107] [[97]]) := by decide +kernel
  let s : Store Subscriber := Store.empty.put [107] (.bytes [118])
  have hheld : s.get [107] = some (.bytes [118]) := by simp [s, Store.get]
  have hrefused : Transform.offer [[97]] .head (s.get [107]) = .error (.wrongType "string") := by
    rw [hheld]
    rfl
  have hvalue : ((normal.handle ⟨Bytes.ofString "LPUSH", [[107], [97]]⟩).run .plain 0 s).value =
      .ok { handler := .normal, reply := .error ListError.wrongType.message } := by
    rw [handle_normal hcommand]
    exact (replies_wrongType hrefused).value
  obtain ⟨completion, hok, hunchanged⟩ :=
    (error_changes_nothing normal ⟨Bytes.ofString "LPUSH", [[107], [97]]⟩ 0).1 s
  obtain rfl := Except.ok.inj (hvalue.symm.trans hok)
  obtain ⟨hstore, -, -, -⟩ := hunchanged trivial
  refine ⟨s, _, hok, trivial, ?_⟩
  rw [hstore]
  exact hheld

end Handler

end RespStore
