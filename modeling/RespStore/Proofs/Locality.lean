import RespStore.Exchange
import RespStore.Proofs.Harmlessness

/-!
# Requests are local

A request names keys. It changes no others, and nothing else in the store decides what it replies:
not the other keys, not the versions, not who listens. So two requests of two connections that name
different keys may be carried out in either order.

* `Request.keys` are the keys that a request names, `Handler.targets` those that it may change.
* `Handler.entry_of_not_target` says what a request leaves alone, `Handler.alike_handle` what its
  reply depends on, and `Handler.agree_handle` what the values of its keys depend on.
* `Exchange.requests_are_local` is the main result.
-/

namespace RespStore

/-! ### What requests name -/

/-- The keys that a request names. -/
def Request.keys (request : Request) : List Bytes :=
  match Command.ofRequest request with
  | .ok command => command.keys
  | .error _ => []

/-- The keys that a request to a handler may change. A subscriber changes none. -/
def Handler.targets (h : Handler) (request : Request) : List Bytes :=
  match h with
  | .subscriber _ => []
  | .normal =>
    match Command.ofRequest request with
    | .ok command => command.targets
    | .error _ => []

/-- A request names every key that it may change. -/
theorem Handler.mem_keys_of_target {h : Handler} {request : Request} {key : Bytes}
    (hkey : key ∈ h.targets request) : key ∈ request.keys := by
  cases h with
  | subscriber registry => cases hkey
  | normal =>
      cases hcommand : Command.ofRequest request with
      | error e =>
          simp only [targets, hcommand] at hkey
          cases hkey
      | ok command =>
          simp only [targets, hcommand] at hkey
          simp only [Request.keys, hcommand]
          exact Command.mem_keys_of_target hkey

/-! ### What a request leaves alone -/

namespace Task

variable {α β : Type} {client : Nat}

/-- A task whose calls leave a key alone leaves its value and its version as they are. -/
theorem Calls.entry_eq {task : Task α} {key : Bytes} (h : task.Calls (Call.Keeps key))
    (s : Store Subscriber) : (task.run .plain client s).store.entries[key]? = s.entries[key]? := by
  induction task generalizing s with
  | done value => rfl
  | call owned q next ih =>
      rw [run, Backend.instead_plain]
      refine (ih _ (h.2 _) _).trans ?_
      cases q with
      | apply key' transform =>
          by_cases heq : key' = key
          · have hwrites := h.1 heq (s.get key')
            exact congrArg (fun s' : Store Subscriber => s'.entries[key]?)
              (Store.apply_of_not_writes hwrites).1
          · exact Store.entry_apply_of_ne s (Ne.symm heq) transform
      | _ => rfl
  | aside next ih => exact ih h s

/-- A value may be made of another before or after the run. -/
theorem value_run_map (task : Task α) (f : α → β) (s : Store Subscriber) :
    ((f <$> task).run .plain client s).value = f (task.run .plain client s).value := by
  change ((task.bind fun value => .done (f value)).run .plain client s).value = _
  rw [run_bind]
  rfl

end Task

namespace Handler

open RespStore.Task

/-- A request leaves every key alone that is not among its targets, its version included. -/
theorem entry_of_not_target {h : Handler} {request : Request} {key : Bytes}
    (hkey : key ∉ h.targets request) (client : Nat) (s : Store Subscriber) :
    ((h.handle request).run .plain client s).store.entries[key]? = s.entries[key]? := by
  refine Calls.entry_eq ?_ s
  rw [handle]
  cases hcommand : Command.ofRequest request with
  | error e => exact trivial
  | ok command =>
      cases h with
      | normal =>
          simp only [targets, hcommand] at hkey
          exact (calls_perform command).imp fun q hmakes => hmakes.keeps hkey
      | subscriber registry =>
          exact (silent_performSubscribed registry command).calls.imp fun q hq => hq.keeps key

/-- A request leaves the value of every key alone that is not among its targets. -/
theorem get_of_not_target {h : Handler} {request : Request} {key : Bytes}
    (hkey : key ∉ h.targets request) (client : Nat) (s : Store Subscriber) :
    ((h.handle request).run .plain client s).store.get key = s.get key :=
  congrArg (Option.map Entry.value) (entry_of_not_target hkey client s)

end Handler

/-! ### What a request depends on -/

/-- Whether two stores hold the same under some keys. The versions may differ. -/
def Store.AgreeOn (keys : List Bytes) (s s' : Store Subscriber) : Prop :=
  ∀ key ∈ keys, s.get key = s'.get key

/-- An apply is answered the same, and leaves the same, where the same is held. -/
theorem Store.AgreeOn.apply {keys : List Bytes} {s s' : Store Subscriber} (h : AgreeOn keys s s')
    {key : Bytes} (hkey : key ∈ keys) (transform : Transform) :
    (s.apply key transform).result = (s'.apply key transform).result ∧
      AgreeOn keys (s.apply key transform).store (s'.apply key transform).store := by
  refine ⟨?_, fun other hother => ?_⟩
  · rw [result_apply, result_apply, h key hkey]
  · rw [get_apply, get_apply, h key hkey, h other hother]

namespace Task

variable {α : Type} {client client' : Nat} {keys : List Bytes}

/-- A task whose calls are about some keys ends with the same value, and leaves the same under these
keys, when the same is held under them at first. -/
theorem Calls.run_eq {task : Task α} (h : task.Calls (Call.On keys)) {s s' : Store Subscriber}
    (hagree : Store.AgreeOn keys s s') :
    (task.run .plain client s).value = (task.run .plain client' s').value ∧
      Store.AgreeOn keys (task.run .plain client s).store (task.run .plain client' s').store := by
  induction task generalizing s s' with
  | done value => exact ⟨rfl, hagree⟩
  | call owned q next ih =>
      simp only [run, Backend.instead_plain]
      cases q with
      | get key =>
          have hsame : s.get key = s'.get key := hagree key h.1
          simp only [Store.react, Store.serve, hsame]
          exact ih _ (h.2 _) hagree
      | apply key transform =>
          obtain ⟨hresult, hstore⟩ := hagree.apply h.1 transform
          simp only [Store.react, Store.serve, hresult]
          exact ih _ (h.2 _) hstore
      | listen channel => exact h.1.elim
      | unlisten id => exact h.1.elim
  | aside next ih => exact ih h hagree

end Task

/-! ### What subscriptions depend on -/

namespace Registry

/-- Whether two registries have the same channels. The listeners may have other numbers. -/
def Resembles (r r' : Registry) : Prop := ∀ channel, channel ∈ r ↔ channel ∈ r'

variable {r r' : Registry}

/-- Registries with the same channels still have the same once both have entered one more. -/
theorem Resembles.insert (h : r.Resembles r') (channel : Bytes) (id id' : ListenerId) :
    Resembles (Std.ExtTreeMap.insert r channel id) (Std.ExtTreeMap.insert r' channel id') := by
  intro other
  rw [Std.ExtTreeMap.mem_insert, Std.ExtTreeMap.mem_insert, h other]

/-- Registries with the same channels still have the same once both have lost one of them. -/
theorem Resembles.erase (h : r.Resembles r') (channel : Bytes) :
    Resembles (Std.ExtTreeMap.erase r channel) (Std.ExtTreeMap.erase r' channel) := by
  intro other
  rw [Std.ExtTreeMap.mem_erase, Std.ExtTreeMap.mem_erase, h other]

/-- The channels of a registry, without the listeners. -/
theorem Resembles.map_eq (h : r.Resembles r') :
    Std.ExtTreeMap.map (fun _ _ => ()) r = Std.ExtTreeMap.map (fun _ _ => ()) r' := by
  refine Std.ExtTreeMap.ext_mem_unit fun channel => ?_
  rw [Std.ExtTreeMap.mem_map, Std.ExtTreeMap.mem_map]
  exact h channel

/-- Registries with the same channels have them in the same order. -/
theorem Resembles.channels_eq (h : r.Resembles r') : r.channels = r'.channels := by
  have hkeys := congrArg Std.ExtTreeMap.keys h.map_eq
  rwa [Std.ExtTreeMap.keys_map, Std.ExtTreeMap.keys_map] at hkeys

/-- Registries with the same channels have as many of them. -/
theorem Resembles.size_eq (h : r.Resembles r') : r.size = r'.size := by
  have hsize := congrArg Std.ExtTreeMap.size h.map_eq
  rwa [Std.ExtTreeMap.size_map, Std.ExtTreeMap.size_map] at hsize

end Registry

/-- Whether two handlers are in the same mode, with the same channels. -/
def Handler.Resembles : Handler → Handler → Prop
  | .normal, .normal => True
  | .subscriber registry, .subscriber registry' => registry.Resembles registry'
  | _, _ => False

/-- Whether two completions reply the same, and leave handlers behind that resemble each other. -/
structure Completion.Resembles (completion completion' : Completion) : Prop where
  /-- The replies are the same. -/
  reply_eq : completion.reply = completion'.reply
  /-- Either both connections go on or neither does. -/
  close_eq : completion.close = completion'.close
  /-- The handlers resemble each other. -/
  handler : completion.handler.Resembles completion'.handler

/-- Whether two requests end alike. -/
def Completion.Alike : Except Fatal Completion → Except Fatal Completion → Prop
  | .ok completion, .ok completion' => completion.Resembles completion'
  | .error text, .error text' => text = text'
  | _, _ => False

theorem Handler.Resembles.refl (h : Handler) : h.Resembles h := by
  cases h with
  | normal => exact trivial
  | subscriber registry => exact fun _ => Iff.rfl

theorem Completion.Alike.refl (result : Except Fatal Completion) : Alike result result := by
  cases result with
  | ok completion => exact ⟨rfl, rfl, .refl _⟩
  | error text => rfl

namespace Registry

open RespStore.Task

variable {r r' : Registry} {client client' : Nat}

/-- Registries with the same channels go with handlers that resemble each other. -/
theorem Resembles.ofRegistry (h : r.Resembles r') :
    (Handler.ofRegistry r).Resembles (Handler.ofRegistry r') := by
  have hempty : r.isEmpty = r'.isEmpty := by
    rw [Std.ExtTreeMap.isEmpty_eq_size_beq_zero, Std.ExtTreeMap.isEmpty_eq_size_beq_zero, h.size_eq]
  rw [Handler.ofRegistry, Handler.ofRegistry, hempty]
  split
  · exact trivial
  · exact h

/-- A change of subscriptions that ends with the same channels and acknowledgements ends alike. -/
theorem Resembles.complete (h : r.Resembles r') (acks : List Reply) :
    (r.complete acks).Resembles (r'.complete acks) :=
  ⟨rfl, rfl, h.ofRegistry⟩

/-- What subscribing to channels is replied depends on the channels that are there. -/
theorem Resembles.subscribe (h : r.Resembles r') (acks : List Reply) (channels : List Bytes)
    (s s' : Store Subscriber) :
    ((r.subscribe acks channels).run .plain client s).value.Resembles
      ((r'.subscribe acks channels).run .plain client' s').value := by
  induction channels generalizing r r' acks s s' with
  | nil => exact h.complete acks
  | cons channel channels ih =>
      have hcontains : r.contains channel = r'.contains channel := Bool.eq_iff_iff.mpr (h channel)
      rw [Registry.subscribe, Registry.subscribe, hcontains, h.size_eq]
      split
      · exact ih h _ _ _
      · -- The new listeners may have two numbers, which is why both registries are generalized.
        simp only [run, Backend.instead_plain, Store.react, Store.serve]
        have hinsert := h.insert channel s.nextListener s'.nextListener
        exact hinsert.size_eq ▸ ih hinsert _ _ _

/-- What leaving channels is replied depends on the channels that are there. -/
theorem Resembles.leave (h : r.Resembles r') (acks : List Reply) (channels : List Bytes)
    (s s' : Store Subscriber) :
    ((r.leave acks channels).run .plain client s).value.Resembles
      ((r'.leave acks channels).run .plain client' s').value := by
  induction channels generalizing r r' acks s s' with
  | nil => exact h.complete acks
  | cons channel channels ih =>
      have hmem := h channel
      rw [Std.ExtTreeMap.mem_iff_isSome_getElem?, Std.ExtTreeMap.mem_iff_isSome_getElem?] at hmem
      rw [Registry.leave, Registry.leave]
      cases hfound : r[channel]? with
      | none =>
          cases hfound' : r'[channel]? with
          | none => exact h.size_eq ▸ ih h _ _ _
          | some id' => simp [hfound, hfound'] at hmem
      | some id =>
          cases hfound' : r'[channel]? with
          | none => simp [hfound, hfound'] at hmem
          | some id' =>
              simp only [run, Backend.instead_plain, Store.react, Store.serve]
              have herase := h.erase channel
              exact herase.size_eq ▸ ih herase _ _ _

/-- What leaving channels is replied, named or not, depends on the channels that are there. -/
theorem Resembles.unsubscribe (h : r.Resembles r') (channels : List Bytes)
    (s s' : Store Subscriber) :
    ((r.unsubscribe channels).run .plain client s).value.Resembles
      ((r'.unsubscribe channels).run .plain client' s').value := by
  rw [Registry.unsubscribe, Registry.unsubscribe, h.channels_eq]
  split
  · exact h.complete _
  · exact h.leave [] _ s s'

end Registry

/-! ### Requests -/

namespace Handler

open RespStore.Task

variable {h h' : Handler} {client client' : Nat} {s s' : Store Subscriber}

/-- A change of subscriptions ends alike if its task does. -/
theorem alike_ok_map {task task' : Task Completion}
    (halike : (task.run .plain client s).value.Resembles (task'.run .plain client' s').value) :
    Completion.Alike
      ((Except.ok <$> task : Task (Except Fatal Completion)).run .plain client s).value
      ((Except.ok <$> task' : Task (Except Fatal Completion)).run .plain client' s').value := by
  rw [value_run_map, value_run_map]
  exact halike

/-- A command whose calls are about the keys that it names ends alike where the same is held under
them. -/
theorem alike_of_on {command : Command} (hon : ∀ q, command.Makes q → q.On command.keys)
    (hagree : Store.AgreeOn command.keys s s') :
    Completion.Alike ((perform command).run .plain client s).value
        ((perform command).run .plain client' s').value ∧
      Store.AgreeOn command.keys ((perform command).run .plain client s).store
        ((perform command).run .plain client' s').store := by
  obtain ⟨hvalue, hstore⟩ := ((calls_perform command).imp hon).run_eq hagree
  exact ⟨hvalue ▸ .refl _, hstore⟩

/-- In normal mode a command ends alike, and leaves alike what it names, where the same is held
under the keys that it names. -/
theorem alike_perform {command : Command} (hagree : Store.AgreeOn command.keys s s') :
    Completion.Alike ((perform command).run .plain client s).value
        ((perform command).run .plain client' s').value ∧
      Store.AgreeOn command.keys ((perform command).run .plain client s).store
        ((perform command).run .plain client' s').store := by
  have hempty : Registry.Resembles ∅ ∅ := fun _ => Iff.rfl
  cases command with
  | subscribe channels =>
      exact ⟨alike_ok_map (hempty.subscribe [] channels s s'), List.forall_mem_nil _⟩
  | unsubscribe channels =>
      exact ⟨alike_ok_map (hempty.unsubscribe channels s s'), List.forall_mem_nil _⟩
  | _ => exact alike_of_on (fun q hmakes => hmakes.on nofun nofun) hagree

/-- In subscriber mode a command ends alike where the channels are the same, whatever the store
holds. -/
theorem alike_performSubscribed {r r' : Registry} (hr : r.Resembles r') (command : Command) :
    Completion.Alike ((performSubscribed r command).run .plain client s).value
      ((performSubscribed r' command).run .plain client' s').value := by
  cases command with
  | subscribe channels => exact alike_ok_map (hr.subscribe [] channels s s')
  | unsubscribe channels => exact alike_ok_map (hr.unsubscribe channels s s')
  | _ => exact ⟨rfl, rfl, hr⟩

/-- What a request is replied depends on the mode of the handler, on its channels, and on what is
held under the keys that the request names. -/
theorem alike_handle {request : Request} (hh : h.Resembles h')
    (hagree : Store.AgreeOn request.keys s s') :
    Completion.Alike ((h.handle request).run .plain client s).value
      ((h'.handle request).run .plain client' s').value := by
  rw [handle, handle]
  cases hcommand : Command.ofRequest request with
  | error e => exact ⟨rfl, rfl, hh⟩
  | ok command =>
      simp only [Request.keys, hcommand] at hagree
      cases h with
      | normal =>
          cases h' with
          | normal => exact (alike_perform hagree).1
          | subscriber registry' => exact hh.elim
      | subscriber registry =>
          cases h' with
          | normal => exact hh.elim
          | subscriber registry' => exact alike_performSubscribed hh command

/-- What is held afterwards under the keys that a request names depends on the mode of the handler,
on its channels, and on what is held under those keys. -/
theorem agree_handle {request : Request} (hh : h.Resembles h')
    (hagree : Store.AgreeOn request.keys s s') :
    Store.AgreeOn request.keys ((h.handle request).run .plain client s).store
      ((h'.handle request).run .plain client' s').store := by
  cases h with
  | normal =>
      cases h' with
      | subscriber registry' => exact hh.elim
      | normal =>
          rw [handle]
          cases hcommand : Command.ofRequest request with
          | error e => exact hagree
          | ok command =>
              simp only [Request.keys, hcommand] at hagree ⊢
              exact (alike_perform hagree).2
  | subscriber registry =>
      cases h' with
      | normal => exact hh.elim
      | subscriber registry' =>
          intro key hkey
          rw [get_of_not_target List.not_mem_nil, get_of_not_target List.not_mem_nil]
          exact hagree key hkey

/-! ### Two requests -/

/-- A request leaves the value of every key alone that it does not name. -/
theorem get_of_not_named {request : Request} {key : Bytes} (hkey : key ∉ request.keys) (h : Handler)
    (client : Nat) (s : Store Subscriber) :
    ((h.handle request).run .plain client s).store.get key = s.get key :=
  get_of_not_target (fun htarget => hkey (mem_keys_of_target htarget)) client s

section Pair

variable {r₁ r₂ : Request} {i j : Nat}

/-- A request leaves everything alone that a request depends on which names other keys. -/
theorem agreeOn_of_disjoint (hdisjoint : ∀ key ∈ r₂.keys, key ∉ r₁.keys) (h₁ : Handler)
    (s : Store Subscriber) : Store.AgreeOn r₂.keys ((h₁.handle r₁).run .plain i s).store s :=
  fun key hkey => get_of_not_named (hdisjoint key hkey) h₁ i s

/-- Under a key that it does not name, a request makes no difference to what is held once a request
that names other keys has been carried out too. -/
theorem get_behind (hdisjoint : ∀ key ∈ r₂.keys, key ∉ r₁.keys) {key : Bytes}
    (hkey : key ∉ r₁.keys) (h₁ h₂ : Handler) (s : Store Subscriber) :
    ((h₂.handle r₂).run .plain j ((h₁.handle r₁).run .plain i s).store).store.get key =
      ((h₂.handle r₂).run .plain j s).store.get key := by
  by_cases hnamed : key ∈ r₂.keys
  -- Either the second request finds what it would have found, or it leaves the key alone as well.
  · exact agree_handle (.refl h₂) (agreeOn_of_disjoint hdisjoint h₁ s) key hnamed
  · rw [get_of_not_named hnamed, get_of_not_named hnamed, get_of_not_named hkey]

/-- What is held after two requests that name different keys does not depend on their order. -/
theorem get_comm (hdisjoint : ∀ key ∈ r₁.keys, key ∉ r₂.keys) (h₁ h₂ : Handler)
    (s : Store Subscriber) (key : Bytes) :
    ((h₂.handle r₂).run .plain j ((h₁.handle r₁).run .plain i s).store).store.get key =
      ((h₁.handle r₁).run .plain i ((h₂.handle r₂).run .plain j s).store).store.get key := by
  by_cases hkey : key ∈ r₁.keys
  · have hother := hdisjoint key hkey
    rw [get_of_not_named hother, get_behind hdisjoint hother]
  · have hdisjoint' : ∀ key ∈ r₂.keys, key ∉ r₁.keys := fun key h₂ h₁ => hdisjoint key h₁ h₂
    rw [get_of_not_named hkey, get_behind hdisjoint' hkey]

end Pair

end Handler

/-! ### Requests of several handlers -/

/-- Requests that end alike are replied the same. -/
theorem Completion.Alike.reply_eq {result result' : Except Fatal Completion}
    (h : Alike result result') : result.map Completion.reply = result'.map Completion.reply := by
  cases result with
  | ok completion =>
      cases result' with
      | ok completion' => exact congrArg Except.ok (Resembles.reply_eq h)
      | error text' => exact h.elim
  | error text =>
      cases result' with
      | ok completion' => exact h.elim
      | error text' => exact congrArg Except.error h

namespace Exchange

open RespStore.Handler

/-- Whether all calls of all participants are carried out. -/
def IsPlain (x : Exchange) : Prop := ∀ p ∈ x.participants, p.backend = .plain

/-- The handler of a participant, unless it is gone. -/
def handler? (x : Exchange) (i : Nat) : Option Handler :=
  x.participants[i]?.bind Participant.handler

/-- What a participant is replied to a request. -/
def reply (x : Exchange) (i : Nat) (r : Request) : Option (Except Fatal Reply) :=
  (x.request i r).1.map (Except.map Completion.reply)

/-- The exchange after a request of a participant. -/
def after (x : Exchange) (i : Nat) (r : Request) : Exchange := (x.request i r).2

variable {x : Exchange} {i j : Nat} {r : Request} {h : Handler}

/-- Without a handler nothing happens. -/
theorem request_of_none (hnone : x.handler? i = none) (r : Request) :
    x.request i r = (none, x) := by
  rw [handler?] at hnone
  rw [request]
  split
  · rename_i hp
    rw [hp] at hnone
    cases hnone
  · rfl

/-- Without a handler, an exchange stays as it is. -/
theorem after_of_none (hnone : x.handler? i = none) (r : Request) : x.after i r = x :=
  congrArg Prod.snd (request_of_none hnone r)

/-- A request is carried out on the shared store, and may change the handler of its participant and
what waits in the mailboxes. -/
theorem exists_request (hplain : x.IsPlain) (hhandler : x.handler? i = some h) (r : Request) :
    ∃ handler, x.request i r = (some ((h.handle r).run .plain i x.store).value,
      { store := ((h.handle r).run .plain i x.store).store
        participants := (post ((h.handle r).run .plain i x.store).notices x.participants).modify i
          fun p => { p with handler } }) := by
  obtain ⟨p, hp, hph⟩ := Option.bind_eq_some_iff.mp hhandler
  obtain ⟨backend, mailbox, handler⟩ := p
  obtain rfl : backend = .plain := hplain _ (List.mem_of_getElem? hp)
  obtain rfl : handler = some h := hph
  rw [request, hp]
  simp only [Exchange.run]
  cases hvalue : ((h.handle r).run .plain i x.store).value with
  | ok completion => exact ⟨some completion.handler, rfl⟩
  | error text => exact ⟨none, rfl⟩

/-- What a participant is replied is what its handler makes of the request. -/
theorem reply_of_handler (hplain : x.IsPlain) (hhandler : x.handler? i = some h) (r : Request) :
    x.reply i r = some (((h.handle r).run .plain i x.store).value.map Completion.reply) := by
  obtain ⟨handler, hrequest⟩ := exists_request hplain hhandler r
  rw [reply, hrequest]
  rfl

/-- What a request leaves in the store is what the handler of the participant leaves there. -/
theorem store_after (hplain : x.IsPlain) (hhandler : x.handler? i = some h) (r : Request) :
    (x.after i r).store = ((h.handle r).run .plain i x.store).store := by
  obtain ⟨handler, hrequest⟩ := exists_request hplain hhandler r
  rw [after, hrequest]

/-- A request leaves every participant its backing store, and all but one their handlers. -/
theorem participant_after (hplain : x.IsPlain) (i : Nat) (r : Request) (j : Nat) :
    ((x.after i r).participants[j]?).map Participant.backend =
      (x.participants[j]?).map Participant.backend ∧
    (i ≠ j → (x.after i r).handler? j = x.handler? j) := by
  cases hhandler : x.handler? i with
  | none =>
      rw [after_of_none hhandler]
      exact ⟨rfl, fun _ => rfl⟩
  | some h =>
      obtain ⟨handler, hrequest⟩ := exists_request hplain hhandler r
      rw [after, hrequest, handler?, handler?, List.getElem?_modify, post, List.getElem?_mapIdx]
      cases hp : x.participants[j]? with
      | none => exact ⟨rfl, fun _ => rfl⟩
      | some p =>
          refine ⟨?_, fun hij => ?_⟩
          · by_cases hij : i = j
            · simp [hij]
            · simp [hij]
          · simp [hij]

/-- After a request all calls are still carried out. -/
theorem isPlain_after (hplain : x.IsPlain) (i : Nat) (r : Request) : (x.after i r).IsPlain := by
  intro p hp
  obtain ⟨j, hj⟩ := List.mem_iff_getElem?.mp hp
  have hbackend := (participant_after hplain i r j).1
  rw [hj] at hbackend
  obtain ⟨p', hp', heq⟩ := Option.map_eq_some_iff.mp hbackend.symm
  exact heq.symm.trans (hplain p' (List.mem_of_getElem? hp'))

/-- A request of one participant makes no difference to what another one is replied, whose request
names other keys. -/
theorem reply_after (hplain : x.IsPlain) (hij : i ≠ j) {r₁ r₂ : Request}
    (hdisjoint : ∀ key ∈ r₂.keys, key ∉ r₁.keys) : (x.after i r₁).reply j r₂ = x.reply j r₂ := by
  have hother := (participant_after hplain i r₁ j).2 hij
  cases hhandler : x.handler? j with
  | none =>
      rw [reply, reply, request_of_none hhandler, request_of_none (hother.trans hhandler)]
  | some h₂ =>
      rw [reply_of_handler hplain hhandler,
        reply_of_handler (isPlain_after hplain i r₁) (hother.trans hhandler)]
      cases hfirst : x.handler? i with
      | none => rw [after_of_none hfirst]
      | some h₁ =>
          rw [store_after hplain hfirst]
          refine congrArg some (Completion.Alike.reply_eq ?_)
          exact alike_handle (.refl h₂) (agreeOn_of_disjoint hdisjoint h₁ x.store)

/-- What is held after two requests of two participants, which name different keys, does not depend
on their order. -/
theorem get_after_after (hplain : x.IsPlain) (hij : i ≠ j) {r₁ r₂ : Request}
    (hdisjoint : ∀ key ∈ r₁.keys, key ∉ r₂.keys) (key : Bytes) :
    ((x.after i r₁).after j r₂).store.get key = ((x.after j r₂).after i r₁).store.get key := by
  have hplain₁ := isPlain_after hplain i r₁
  have hplain₂ := isPlain_after hplain j r₂
  have hkept₁ := (participant_after hplain j r₂ i).2 (Ne.symm hij)
  have hkept₂ := (participant_after hplain i r₁ j).2 hij
  cases hfirst : x.handler? i with
  | none =>
      rw [after_of_none hfirst, after_of_none (hkept₁.trans hfirst)]
  | some h₁ =>
      cases hsecond : x.handler? j with
      | none =>
          rw [after_of_none hsecond, after_of_none (hkept₂.trans hsecond)]
      | some h₂ =>
          rw [store_after hplain₁ (hkept₂.trans hsecond), store_after hplain hfirst,
            store_after hplain₂ (hkept₁.trans hfirst), store_after hplain hsecond]
          exact get_comm hdisjoint h₁ h₂ x.store key

/-- **Requests are local.** The store carries out every call.

* A request changes only keys that it names, and among these only its targets: a subscriber has
  none, and neither have the commands that only read. Every other key keeps its value and its
  version.
* What a request is replied, whether the connection goes on, and which mode and which channels it
  leaves behind, depend only on the request, on the mode and the channels of its handler, and on
  what the keys held that it names. So does what these keys hold afterwards. Nothing depends on
  other keys, on versions, on listeners, or on who asks.
* Two requests of different handlers which name different keys are replied the same in either order,
  and in either order every key holds the same in the end. -/
theorem requests_are_local :
    (∀ (h : Handler) (request : Request) (client : Nat) (s : Store Subscriber),
      (∀ key ∈ h.targets request, key ∈ request.keys) ∧
      ∀ key, key ∉ h.targets request →
        ((h.handle request).run .plain client s).store.entries[key]? = s.entries[key]?) ∧
    (∀ (h h' : Handler) (request : Request) (client client' : Nat) (s s' : Store Subscriber),
      h.Resembles h' → (∀ key ∈ request.keys, s.get key = s'.get key) →
      Completion.Alike ((h.handle request).run .plain client s).value
        ((h'.handle request).run .plain client' s').value ∧
      ∀ key ∈ request.keys, ((h.handle request).run .plain client s).store.get key =
        ((h'.handle request).run .plain client' s').store.get key) ∧
    ∀ (x : Exchange) (i j : Nat) (r₁ r₂ : Request), x.IsPlain → i ≠ j →
      (∀ key ∈ r₁.keys, key ∉ r₂.keys) →
      (x.after j r₂).reply i r₁ = x.reply i r₁ ∧ (x.after i r₁).reply j r₂ = x.reply j r₂ ∧
      ∀ key, ((x.after i r₁).after j r₂).store.get key =
        ((x.after j r₂).after i r₁).store.get key := by
  refine ⟨fun h request client s => ⟨fun key => mem_keys_of_target, fun key hkey => ?_⟩,
    fun h h' request client client' s s' hh hagree => ?_,
    fun x i j r₁ r₂ hplain hij hdisjoint => ?_⟩
  · exact entry_of_not_target hkey client s
  · exact ⟨alike_handle hh hagree, agree_handle hh hagree⟩
  · have hdisjoint' : ∀ key ∈ r₂.keys, key ∉ r₁.keys := fun key h₂ h₁ => hdisjoint key h₁ h₂
    exact ⟨reply_after hplain (Ne.symm hij) hdisjoint, reply_after hplain hij hdisjoint',
      get_after_after hplain hij hdisjoint⟩

/-- One client sets a key and another one subscribes to a channel of that name, which names no key.
It does not matter who comes first. -/
theorem requests_are_local_set :
    ∃ x : Exchange, x.IsPlain ∧
      (x.after 0 ⟨Bytes.ofString "SET", [[107], [118]]⟩).reply 1
          ⟨Bytes.ofString "SUBSCRIBE", [[107]]⟩ =
        x.reply 1 ⟨Bytes.ofString "SUBSCRIBE", [[107]]⟩ ∧
      ((x.after 1 ⟨Bytes.ofString "SUBSCRIBE", [[107]]⟩).after 0
        ⟨Bytes.ofString "SET", [[107], [118]]⟩).store.get [107] = some (.bytes [118]) := by
  let p : Participant := { backend := .plain, mailbox := { capacity := 1 } }
  have hplain : IsPlain { participants := [p, p] } := by
    intro q hq
    rcases List.mem_cons.mp hq with rfl | hq
    · rfl
    · exact List.mem_singleton.mp hq ▸ rfl
  have hnone : Request.keys ⟨Bytes.ofString "SUBSCRIBE", [[107]]⟩ = [] := by decide +kernel
  have hdisjoint : ∀ key ∈ Request.keys ⟨Bytes.ofString "SET", [[107], [118]]⟩,
      key ∉ Request.keys ⟨Bytes.ofString "SUBSCRIBE", [[107]]⟩ := by
    intro key _
    rw [hnone]
    exact List.not_mem_nil
  obtain ⟨-, hreply, hget⟩ := requests_are_local.2.2 { participants := [p, p] } 0 1
    ⟨Bytes.ofString "SET", [[107], [118]]⟩ ⟨Bytes.ofString "SUBSCRIBE", [[107]]⟩ hplain (by decide)
    hdisjoint
  refine ⟨_, hplain, hreply, ?_⟩
  rw [← hget]
  decide +kernel

end Exchange

end RespStore
