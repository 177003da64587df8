import RespStore.Backend
import RespStore.Proofs.Handler

/-!
# Registries along tasks

A registry is what a connection knows of its listeners; the store knows them by their targets.
This module shows that the two change together, call by call, as long as a call about listeners
either takes effect or fails.

* `Store.Registers` says that the listeners of a client are exactly those of a registry, and
  `Store.HasOnly` that they are among some that are named.
* `Call.Turns` says what a call makes of a registry, and `Store.Registers.react` that the listeners
  follow.
* `Task.Tracks` says that a task changes the registry along with its calls. The task of every
  request does so (`Handler.tracks_handle`); the tasks of most commands have nothing to do with
  listeners (`Task.Deaf`).
-/

namespace RespStore

/-! ### Listeners of a store -/

/-- The listeners of a registry are those that it has for some channel. -/
theorem Registry.mem_ids {registry : Registry} {id : ListenerId} :
    id ∈ registry.ids ↔ ∃ channel : Bytes, registry[channel]? = some id := by
  constructor
  · intro h
    obtain ⟨⟨channel, id'⟩, hmem, rfl⟩ := List.mem_map.mp h
    exact ⟨channel, Std.ExtTreeMap.mem_toList_iff_getElem?_eq_some.mp hmem⟩
  · rintro ⟨channel, hid⟩
    exact List.mem_map.mpr
      ⟨(channel, id), Std.ExtTreeMap.mem_toList_iff_getElem?_eq_some.mpr hid, rfl⟩

namespace Store

/-- Whether the listeners of a client are exactly those of a registry: for each channel the one
whose number the registry has, which hears about that channel only. -/
def Registers (s : Store Subscriber) (client : Nat) (registry : Registry) : Prop :=
  ∀ (id : ListenerId) (listener : Listener Subscriber),
    s.listeners[id]? = some listener ∧ listener.target.client = client ↔
      ∃ channel, registry[channel]? = some id ∧
        listener = ⟨.exact channel, ⟨client, channel⟩⟩

/-- Whether the listeners of a client are all among these. -/
def HasOnly (s : Store Subscriber) (client : Nat) (ids : List ListenerId) : Prop :=
  ∀ (id : ListenerId) (listener : Listener Subscriber),
    s.listeners[id]? = some listener → listener.target.client = client → id ∈ ids

/-- Whether a number has been given out, and names no listener of anybody else than a client. -/
def Belongs (s : Store Subscriber) (client : Nat) (id : ListenerId) : Prop :=
  id < s.nextListener ∧
    ∀ listener, s.listeners[id]? = some listener → listener.target.client = client

variable {τ : Type}

/-- A new listener has the next number, and the others keep theirs. -/
theorem getElem?_listeners_listen (s : Store τ) (filter : KeyFilter) (target : τ)
    (id : ListenerId) : (s.listen filter target).2.listeners[id]? =
      if s.nextListener = id then some ⟨filter, target⟩ else s.listeners[id]? := by
  simp [listen, Std.ExtTreeMap.getElem?_insert]

/-- A listener that is taken off has no number any more, and the others keep theirs. -/
theorem getElem?_listeners_unlisten (s : Store τ) (id other : ListenerId) :
    (s.unlisten id).listeners[other]? = if id = other then none else s.listeners[other]? := by
  simp [unlisten, Std.ExtTreeMap.getElem?_erase]

/-- The listeners of a store are those that it has under some number. -/
theorem values_listeners (s : Store τ) :
    s.listeners.values = s.listeners.toList.map Prod.snd := by
  obtain ⟨listeners⟩ := s.listeners
  induction listeners using Std.ExtDTreeMap.inductionOn with
  | mk listeners =>
      change listeners.inner.values =
        (Std.DTreeMap.Internal.Impl.Const.toList listeners.inner).map Prod.snd
      rw [Std.DTreeMap.Internal.Impl.values_eq_map_snd,
        Std.DTreeMap.Internal.Impl.Const.toList_eq_toListModel_map, List.map_map]
      rfl

/-- A listener is among the values of the table exactly if it has some number. -/
theorem mem_values_listeners {s : Store τ} {listener : Listener τ} :
    listener ∈ s.listeners.values ↔ ∃ id : ListenerId, s.listeners[id]? = some listener := by
  rw [values_listeners, List.mem_map]
  constructor
  · rintro ⟨⟨id, listener⟩, hmem, rfl⟩
    exact ⟨id, Std.ExtTreeMap.mem_toList_iff_getElem?_eq_some.mp hmem⟩
  · rintro ⟨id, hlistener⟩
    exact ⟨(id, listener), Std.ExtTreeMap.mem_toList_iff_getElem?_eq_some.mpr hlistener, rfl⟩

/-- A commit has nothing to do with who listens. -/
theorem listeners_commit (s : Store τ) (key : Bytes) (update : Update) :
    (s.commit key update).1.listeners = s.listeners ∧
      (s.commit key update).1.nextListener = s.nextListener := by
  cases update with
  | keep => exact ⟨rfl, rfl⟩
  | put value => exact ⟨rfl, rfl⟩
  | remove =>
      rw [commit]
      split
      · exact ⟨rfl, rfl⟩
      · exact ⟨rfl, rfl⟩

/-- Applying a transform has nothing to do with who listens. -/
theorem listeners_apply (s : Store τ) (key : Bytes) (transform : Transform) :
    (s.apply key transform).store.listeners = s.listeners ∧
      (s.apply key transform).store.nextListener = s.nextListener := by
  rw [apply]
  split
  · exact ⟨rfl, rfl⟩
  · exact listeners_commit s key _

variable {s : Store Subscriber} {client : Nat} {registry : Registry} {channel : Bytes}
  {id : ListenerId}

namespace Registers

/-- A listener of the registry is registered. -/
theorem getElem? (h : s.Registers client registry) (hid : registry[channel]? = some id) :
    s.listeners[id]? = some ⟨.exact channel, ⟨client, channel⟩⟩ :=
  ((h id _).mpr ⟨channel, hid, rfl⟩).1

/-- Listeners for different channels have different numbers. -/
theorem channel_eq {other : Bytes} (h : s.Registers client registry)
    (hid : registry[channel]? = some id) (hother : registry[other]? = some id) :
    other = channel := by
  have heq := Option.some.inj ((h.getElem? hother).symm.trans (h.getElem? hid))
  exact congrArg Subscriber.channel (Listener.mk.inj heq).2

/-- A listener of the registry belongs to the client. -/
theorem belongs (h : s.Registers client registry) (hid : registry[channel]? = some id) :
    s.Belongs client id := by
  have hlistener := h.getElem? hid
  refine ⟨s.listener_lt hlistener, fun listener heq => ?_⟩
  exact Option.some.inj (hlistener.symm.trans heq) ▸ rfl

/-- All listeners of the registry belong to the client. -/
theorem belongs_ids (h : s.Registers client registry) :
    ∀ id ∈ registry.ids, s.Belongs client id := by
  intro id hid
  obtain ⟨channel, hid⟩ := Registry.mem_ids.mp hid
  exact h.belongs hid

/-- The listeners are among those of the registry. -/
theorem hasOnly (h : s.Registers client registry) : s.HasOnly client registry.ids := by
  intro id listener hlistener hclient
  obtain ⟨channel, hid, -⟩ := (h id listener).mp ⟨hlistener, hclient⟩
  exact Registry.mem_ids.mpr ⟨channel, hid⟩

/-- A new listener comes with a new channel of the registry. -/
theorem listen (h : s.Registers client registry) (hnew : channel ∉ registry) :
    (s.listen (.exact channel) ⟨client, channel⟩).2.Registers client
      (Std.ExtTreeMap.insert registry channel s.nextListener) := by
  intro id listener
  rw [getElem?_listeners_listen]
  simp only [Std.ExtTreeMap.getElem?_insert, Std.compare_eq_iff_eq]
  constructor
  · rintro ⟨hlistener, hclient⟩
    by_cases hid : s.nextListener = id
    · rw [if_pos hid] at hlistener
      exact ⟨channel, by rw [if_pos rfl, hid], (Option.some.inj hlistener).symm⟩
    · rw [if_neg hid] at hlistener
      obtain ⟨other, hother, rfl⟩ := (h id listener).mp ⟨hlistener, hclient⟩
      have hne : channel ≠ other := by
        rintro rfl
        exact hnew (Std.ExtTreeMap.mem_iff_isSome_getElem?.mpr (hother ▸ rfl))
      exact ⟨other, by rw [if_neg hne, hother], rfl⟩
  · rintro ⟨other, hother, rfl⟩
    refine ⟨?_, rfl⟩
    by_cases heq : channel = other
    · rw [if_pos heq] at hother
      rw [if_pos (Option.some.inj hother), heq]
    · rw [if_neg heq] at hother
      have hold := h.getElem? hother
      rw [if_neg (Nat.ne_of_gt (s.listener_lt hold)), hold]

/-- A listener that is taken off goes with its channel. -/
theorem unlisten (h : s.Registers client registry) (hid : registry[channel]? = some id) :
    (s.unlisten id).Registers client (Std.ExtTreeMap.erase registry channel) := by
  intro id' listener
  rw [getElem?_listeners_unlisten]
  simp only [Std.ExtTreeMap.getElem?_erase, Std.compare_eq_iff_eq]
  constructor
  · rintro ⟨hlistener, hclient⟩
    by_cases heq : id = id'
    · rw [if_pos heq] at hlistener
      exact nomatch hlistener
    · rw [if_neg heq] at hlistener
      obtain ⟨other, hother, rfl⟩ := (h id' listener).mp ⟨hlistener, hclient⟩
      have hne : channel ≠ other := by
        rintro rfl
        exact heq (Option.some.inj (hid.symm.trans hother))
      exact ⟨other, by rw [if_neg hne, hother], rfl⟩
  · rintro ⟨other, hother, rfl⟩
    refine ⟨?_, rfl⟩
    by_cases heq : channel = other
    · rw [if_pos heq] at hother
      exact nomatch hother
    · rw [if_neg heq] at hother
      have hne : id ≠ id' := by
        rintro rfl
        exact heq (h.channel_eq hid hother).symm
      rw [if_neg hne, h.getElem? hother]

end Registers

/-- The first listener is taken off. -/
theorem HasOnly.unlisten {ids : List ListenerId} (h : s.HasOnly client (id :: ids)) :
    (s.unlisten id).HasOnly client ids := by
  intro id' listener hlistener hclient
  rw [getElem?_listeners_unlisten] at hlistener
  split at hlistener
  · cases hlistener
  · rename_i hne
    rcases List.mem_cons.mp (h id' listener hlistener hclient) with heq | hmem
    · exact absurd heq.symm hne
    · exact hmem

end Store

/-! ### Calls about listeners -/

/-- Whether a stand-in for the store never claims to have registered or taken off a listener: it
fails such a call, or leaves it to the store. -/
def Honest (instead : (q : Call) → Option q.Answer) : Prop :=
  (∀ channel answer, instead (.listen channel) = some answer → ∃ e, answer = .error e) ∧
    ∀ id answer, instead (.unlisten id) = some answer → ∃ e, answer = .error e

/-- What a call makes of a registry once it has been answered. -/
def Call.Turns (registry : Registry) : (q : Call) → q.Answer → Registry → Prop
  | .get _, _, registry' => registry' = registry
  | .apply _ _, _, registry' => registry' = registry
  | .listen channel, answer, registry' =>
    match answer with
    | .ok id => channel ∉ registry ∧ registry' = Std.ExtTreeMap.insert registry channel id
    | .error _ => registry' = registry
  | .unlisten id, answer, registry' =>
    match answer with
    | .ok _ => ∃ channel, registry[channel]? = some id ∧
        registry' = Std.ExtTreeMap.erase registry channel
    | .error _ => registry' = registry

/-- Whether a call takes off no listener but the client's. -/
def Call.Minds (s : Store Subscriber) (client : Nat) : Call → Prop
  | .unlisten id => s.Belongs client id
  | _ => True

namespace Store

variable {s : Store Subscriber} {client other : Nat} {registry registry' : Registry} {q : Call}
  {instead : Option q.Answer}

/-- The registry is told by the listeners of the store alone. -/
theorem Registers.of_eq {s' : Store Subscriber} (h : s.Registers client registry)
    (heq : s'.listeners = s.listeners) : s'.Registers client registry := by
  intro id listener
  rw [heq]
  exact h id listener

/-- The registry and the listeners of a client change together. -/
theorem Registers.react {instead : (q : Call) → Option q.Answer} (h : s.Registers client registry)
    (hhonest : Honest instead)
    (hturns : q.Turns registry (s.react client q (instead q)).answer registry') :
    (s.react client q (instead q)).store.Registers client registry' := by
  cases q with
  | get key =>
      obtain rfl : registry' = registry := hturns
      cases instead (.get key) with
      | some answer => exact h
      | none => exact h
  | apply key transform =>
      obtain rfl : registry' = registry := hturns
      cases instead (.apply key transform) with
      | some answer => exact h
      | none => exact h.of_eq (listeners_apply s key transform).1
  | listen channel =>
      cases hinstead : instead (.listen channel) with
      | some answer =>
          obtain ⟨e, rfl⟩ := hhonest.1 channel answer hinstead
          rw [hinstead] at hturns
          obtain rfl : registry' = registry := hturns
          exact h
      | none =>
          rw [hinstead] at hturns
          obtain ⟨hnew, rfl⟩ := hturns
          exact h.listen hnew
  | unlisten id =>
      cases hinstead : instead (.unlisten id) with
      | some answer =>
          obtain ⟨e, rfl⟩ := hhonest.2 id answer hinstead
          rw [hinstead] at hturns
          obtain rfl : registry' = registry := hturns
          exact h
      | none =>
          rw [hinstead] at hturns
          obtain ⟨channel, hid, rfl⟩ := hturns
          exact h.unlisten hid

/-- What a listener that is registered behind a call is: it was registered before, or it is a new
one of the client's. -/
theorem getElem?_listeners_react {id : ListenerId} {listener : Listener Subscriber}
    (h : (s.react client q instead).store.listeners[id]? = some listener) :
    s.listeners[id]? = some listener ∨ id = s.nextListener ∧ listener.target.client = client := by
  cases instead with
  | some answer => exact .inl h
  | none =>
      cases q with
      | get key => exact .inl h
      | apply key transform => exact .inl ((listeners_apply s key transform).1 ▸ h)
      | listen channel =>
          change (s.listen (.exact channel) ⟨client, channel⟩).2.listeners[id]? = _ at h
          rw [getElem?_listeners_listen] at h
          split at h
          · rename_i hid
            exact .inr ⟨hid.symm, Option.some.inj h ▸ rfl⟩
          · exact .inl h
      | unlisten id' =>
          change (s.unlisten id').listeners[id]? = _ at h
          rw [getElem?_listeners_unlisten] at h
          split at h
          · exact nomatch h
          · exact .inl h

/-- A listener of somebody else stays when a client minds its own. -/
theorem getElem?_listeners_react_of_ne {id : ListenerId} {listener : Listener Subscriber}
    (h : s.listeners[id]? = some listener) (hne : listener.target.client ≠ client)
    (hminds : q.Minds s client) :
    (s.react client q instead).store.listeners[id]? = some listener := by
  cases instead with
  | some answer => exact h
  | none =>
      cases q with
      | get key => exact h
      | apply key transform => exact (listeners_apply s key transform).1 ▸ h
      | listen channel =>
          change (s.listen (.exact channel) ⟨client, channel⟩).2.listeners[id]? = _
          rw [getElem?_listeners_listen, if_neg (Nat.ne_of_gt (s.listener_lt h)), h]
      | unlisten id' =>
          change (s.unlisten id').listeners[id]? = _
          have hother : id' ≠ id := by
            rintro rfl
            exact hne (hminds.2 listener h)
          rw [getElem?_listeners_unlisten, if_neg hother, h]

/-- The listeners of others are the same behind a call of a client that minds its own. -/
theorem getElem?_listeners_react_iff {id : ListenerId} {listener : Listener Subscriber}
    (hne : listener.target.client ≠ client) (hminds : q.Minds s client) :
    (s.react client q instead).store.listeners[id]? = some listener ↔
      s.listeners[id]? = some listener := by
  constructor
  · intro h
    rcases getElem?_listeners_react h with hold | ⟨-, hnew⟩
    · exact hold
    · exact absurd hnew hne
  · intro h
    exact getElem?_listeners_react_of_ne h hne hminds

/-- Nobody else registers listeners for a client. -/
theorem HasOnly.react_other {ids : List ListenerId} (h : s.HasOnly other ids)
    (hne : other ≠ client) : (s.react client q instead).store.HasOnly other ids := by
  intro id listener hlistener hclient
  rcases getElem?_listeners_react hlistener with hold | ⟨-, hnew⟩
  · exact h id listener hold hclient
  · exact absurd (hclient.symm.trans hnew) hne

/-- The listeners of others are left alone. -/
theorem Registers.react_other (h : s.Registers other registry) (hne : other ≠ client)
    (hminds : q.Minds s client) : (s.react client q instead).store.Registers other registry := by
  intro id listener
  refine Iff.trans (and_congr_left fun hclient => ?_) (h id listener)
  exact getElem?_listeners_react_iff (hclient ▸ hne) hminds

/-- Numbers that have been given out stay given out, whatever is called. -/
theorem nextListener_react_le : s.nextListener ≤ (s.react client q instead).store.nextListener := by
  cases instead with
  | some answer => exact Nat.le_refl _
  | none =>
      cases q with
      | get key => exact Nat.le_refl _
      | apply key transform => exact Nat.le_of_eq (listeners_apply s key transform).2.symm
      | listen channel => exact Nat.le_succ _
      | unlisten id => exact Nat.le_refl _

/-- A number that belongs to a client keeps belonging to it. -/
theorem Belongs.react {id : ListenerId} (h : s.Belongs other id) :
    (s.react client q instead).store.Belongs other id := by
  refine ⟨Nat.lt_of_lt_of_le h.1 nextListener_react_le, fun listener hlistener => ?_⟩
  rcases getElem?_listeners_react hlistener with hold | ⟨hid, -⟩
  · exact h.2 listener hold
  · exact absurd hid (Nat.ne_of_lt h.1)

end Store

/-! ### Registries along tasks -/

namespace Task

variable {α β ε : Type} {post : Registry → α → Prop} {registry : Registry}

/-- Whether a task changes the registry along with its calls: it says truly which listeners it
owns, and ends with a registry and a value that fit together. -/
def Tracks (post : Registry → α → Prop) (registry : Registry) : Task α → Prop
  | .done value => post registry value
  | .call owned request next => owned = registry ∧ ∀ answer, ∃ registry',
      request.Turns registry answer registry' ∧ (next answer).Tracks post registry'
  | .aside next => registry = ∅ ∧ next.Tracks post registry

/-- Tasks one behind the other change the registry one behind the other. -/
theorem Tracks.bind {post' : Registry → β → Prop} {task : Task α} {f : α → Task β}
    (h : task.Tracks post registry)
    (hf : ∀ registry value, post registry value → (f value).Tracks post' registry) :
    (task >>= f).Tracks post' registry := by
  change (task.bind f).Tracks post' registry
  induction task generalizing registry with
  | done value => exact hf registry value h
  | call owned request next ih =>
      refine ⟨h.1, fun answer => ?_⟩
      obtain ⟨registry', hturns, hnext⟩ := h.2 answer
      exact ⟨registry', hturns, ih answer hnext⟩
  | aside next ih => exact ⟨h.1, ih h.2⟩

/-- Whatever its calls are answered, the task ends with some registry. -/
theorem Tracks.always {task : Task α} (h : task.Tracks post registry) :
    task.Always (fun _ _ => True) fun value => ∃ registry, post registry value := by
  induction task generalizing registry with
  | done value => exact ⟨registry, h⟩
  | call owned request next ih =>
      intro answer _
      obtain ⟨registry', -, hnext⟩ := h.2 answer
      exact ih answer hnext
  | aside next ih => exact ih h.2

/-- Whether a task has nothing to do with listeners. -/
def Deaf (task : Task α) : Prop := task.Tracks (fun registry _ => registry = ∅) ∅

/-- Tasks one behind the other have nothing to do with listeners if neither of them has. -/
theorem Deaf.bind {task : Task α} {f : α → Task β} (h : task.Deaf)
    (hf : ∀ value, (f value).Deaf) : (task >>= f).Deaf := by
  refine Tracks.bind h fun registry value hempty => ?_
  subst hempty
  exact hf value

/-- A task that is done has nothing to do with listeners. -/
theorem deaf_done (value : α) : (Task.done value).Deaf := rfl

/-- A computation has nothing to do with listeners. -/
theorem deaf_aside {task : Task α} (h : task.Deaf) : (Task.aside task).Deaf := ⟨rfl, h⟩

/-- Reading a key has nothing to do with listeners. -/
theorem deaf_get (key : Bytes) : (ask (.get key)).Deaf :=
  ⟨rfl, fun _ => ⟨∅, rfl, rfl⟩⟩

/-- Applying a transform to a key has nothing to do with listeners. -/
theorem deaf_apply (key : Bytes) (transform : Transform) : (ask (.apply key transform)).Deaf :=
  ⟨rfl, fun _ => ⟨∅, rfl, rfl⟩⟩

/-! Work that may fail. -/

/-- Work that only has a value has nothing to do with listeners. -/
theorem deaf_run_pure (value : α) : (pure value : ExceptT ε Task α).run.Deaf := rfl

/-- Work that fails has nothing to do with listeners. -/
theorem deaf_run_throw (e : ε) : (throw e : ExceptT ε Task α).run.Deaf := rfl

/-- A task, seen as work that cannot fail, has no more to do with listeners than the task. -/
theorem deaf_run_lift {task : Task α} (h : task.Deaf) :
    (ExceptT.lift task : ExceptT ε Task α).run.Deaf :=
  h.bind fun value => deaf_done (Except.ok value)

/-- Work in two parts has nothing to do with listeners if neither part has. -/
theorem deaf_run_bind {work : ExceptT ε Task α} {f : α → ExceptT ε Task β} (h : work.run.Deaf)
    (hf : ∀ value, (f value).run.Deaf) : (work >>= f).run.Deaf := by
  refine h.bind fun result => ?_
  cases result with
  | ok value => exact hf value
  | error e => exact deaf_done (Except.error e)

end Task

/-! ### Commands that have nothing to do with listeners -/

open RespStore.Task

namespace Action

variable {α : Type}

/-- A call, seen as an action, has no more to do with listeners than the call. -/
theorem deaf_call {request : Task (Except StoreError α)} (h : request.Deaf) :
    (Action.call request).run.Deaf := by
  refine deaf_run_bind (deaf_run_lift h) fun answer => ?_
  cases answer with
  | error e => exact deaf_run_throw _
  | ok value => exact deaf_run_pure value

/-- A list operation, seen as an action, has no more to do with listeners than the operation. -/
theorem deaf_ofList {operation : ListMap.Operation α} (h : operation.run.Deaf) :
    (Action.ofList operation).run.Deaf := by
  refine deaf_run_bind (deaf_run_lift h) fun answer => ?_
  cases answer with
  | error e => exact deaf_run_throw _
  | ok value => exact deaf_run_pure value

end Action

namespace ListMap

/-- A transform of a list has nothing to do with listeners. -/
theorem deaf_applied {α : Type} (key : Bytes) (transform : Transform) (read? : Output → Option α) :
    (applied key transform read?).run.Deaf := by
  refine deaf_run_bind (deaf_run_lift (deaf_apply key transform)) fun answer => ?_
  cases answer with
  | error e => exact deaf_run_throw _
  | ok output =>
      simp only
      split
      · exact deaf_run_pure _
      · exact deaf_run_throw _

/-- The length of a list has nothing to do with listeners. -/
theorem deaf_size (key : Bytes) : (size key).run.Deaf := by
  refine deaf_run_bind (deaf_run_lift (deaf_get key)) fun answer => ?_
  split
  · exact deaf_run_throw _
  · exact deaf_run_pure _
  · exact deaf_run_pure _
  · exact deaf_run_throw _

/-- Taking elements off a list has nothing to do with listeners. -/
theorem deaf_poll (key : Bytes) (side : ListEnd) (count : Int64) :
    (poll key side count).run.Deaf := by
  rw [poll]
  split
  · exact deaf_run_throw _
  · exact deaf_applied _ _ _

end ListMap

namespace Execution

/-- An action that applies a transform has nothing to do with listeners. -/
theorem deaf_apply (key : Bytes) (transform : Transform) : (Action.apply key transform).run.Deaf :=
  Action.deaf_call (Task.deaf_apply key transform)

/-- Removing keys has nothing to do with listeners, by induction on the keys. -/
theorem deaf_removeEach (count : Nat) (keys : List Bytes) : (removeEach count keys).run.Deaf := by
  induction keys generalizing count with
  | nil => exact deaf_run_pure count
  | cons key keys ih => exact deaf_run_bind (deaf_apply key .remove) fun _ => ih _

/-- `GET` has nothing to do with listeners. -/
theorem deaf_get (key : Bytes) : (get key).run.Deaf := by
  refine deaf_run_bind (Action.deaf_call (Task.deaf_get key)) fun value => ?_
  split
  · exact deaf_run_pure _
  · exact deaf_run_pure _
  · exact deaf_run_throw _

/-- `INCRBYFLOAT` has nothing to do with listeners. -/
theorem deaf_incrByFloat (key : Bytes) (increment : Float) :
    (incrByFloat key increment).run.Deaf := by
  refine deaf_run_bind (deaf_apply key _) fun output => ?_
  split
  · exact deaf_run_pure _
  · exact deaf_run_throw _

/-- Reading an operand has nothing to do with listeners. -/
theorem deaf_operand (key : Bytes) : (operand key).run.Deaf := by
  refine deaf_run_bind (Action.deaf_call (Task.deaf_get key)) fun value => ?_
  split
  · exact deaf_run_pure _
  · exact deaf_run_pure _
  · exact deaf_run_throw _

/-- `LCS` has nothing to do with listeners. -/
theorem deaf_lcs (query : LcsQuery) : (lcs query).run.Deaf := by
  refine deaf_run_bind (deaf_operand _) fun a => deaf_run_bind (deaf_operand _) fun b => ?_
  refine deaf_run_bind (deaf_run_lift (deaf_aside (deaf_done ()))) fun _ => ?_
  cases Lcs.solve a b Lcs.defaultLimit with
  | error e => exact deaf_run_throw _
  | ok alignment =>
      simp only
      split
      · exact deaf_run_pure _
      · split
        · exact deaf_run_pure _
        · exact deaf_run_pure _

/-- A pop has nothing to do with listeners. -/
theorem deaf_pop (side : ListEnd) (key : Bytes) (count : Option Int64) :
    (pop side key count).run.Deaf := by
  refine deaf_run_bind (Action.deaf_ofList (ListMap.deaf_poll _ _ _)) fun taken => ?_
  split
  · exact deaf_run_pure _
  · exact deaf_run_pure _
  · exact deaf_run_pure _

/-- `CONFIG` has nothing to do with listeners. -/
theorem deaf_config (subcommand parameter : String) : (config subcommand parameter).run.Deaf := by
  rw [config]
  split
  · split
    · exact deaf_run_throw _
    · exact deaf_run_pure _
  · split
    · exact deaf_run_pure _
    · exact deaf_run_throw _

end Execution

/-! ### Requests -/

namespace Handler

/-- Whether a handler is a subscriber while it has channels, and only then. -/
def Proper (h : Handler) : Prop := h.isSubscriber = true ↔ h.registry ≠ ∅

/-- What a request ends with: a proper handler that has the registry. A request fails for good
only when there are no listeners. -/
def EndsWith (registry : Registry) : Except Fatal Completion → Prop
  | .ok completion => completion.handler.registry = registry ∧ completion.handler.Proper
  | .error _ => registry = ∅

/-- A client in normal mode has no channels, which is proper. -/
theorem proper_normal : Proper .normal := iff_of_false Bool.false_ne_true fun h => h rfl

/-- The handler that goes with a registry is proper. -/
theorem proper_ofRegistry (registry : Registry) : (ofRegistry registry).Proper := by
  rw [ofRegistry]
  split
  · exact proper_normal
  · rename_i hempty
    exact iff_of_true rfl fun heq => hempty (Std.ExtTreeMap.isEmpty_iff.mpr heq)

/-- A command that has nothing to do with listeners leaves a client in normal mode without any. -/
theorem tracks_answer {action : Action Reply} (h : action.run.Deaf) :
    (answer action).Tracks EndsWith ∅ := by
  refine Tracks.bind h fun registry result hempty => ?_
  subst hempty
  cases result with
  | ok reply => exact ⟨rfl, proper_normal⟩
  | error failure =>
      cases failure with
      | reply text => exact ⟨rfl, proper_normal⟩
      | fatal text => exact rfl

end Handler

namespace Registry

/-- Whether a completion has a proper handler with a registry. -/
def Installs (registry : Registry) (completion : Completion) : Prop :=
  completion.handler.registry = registry ∧ completion.handler.Proper

/-- The end of a change of subscriptions installs the handler that goes with the registry. -/
theorem installs_complete (registry : Registry) (acks : List Reply) :
    Installs registry (registry.complete acks) :=
  ⟨Handler.registry_ofRegistry registry, Handler.proper_ofRegistry registry⟩

/-- Subscribing, by induction on the channels that are left: a channel enters the registry exactly
when its listener has been registered. -/
theorem tracks_subscribe (registry : Registry) (acks : List Reply) (channels : List Bytes) :
    (registry.subscribe acks channels).Tracks Installs registry := by
  induction channels generalizing registry acks with
  | nil => exact installs_complete registry acks
  | cons channel channels ih =>
      rw [subscribe]
      split
      · exact ih registry _
      · rename_i hnew
        refine ⟨rfl, fun answer => ?_⟩
        cases answer with
        | ok id => exact ⟨_, ⟨hnew, rfl⟩, ih _ _⟩
        | error e => exact ⟨registry, rfl, installs_complete registry _⟩

/-- Leaving channels, by induction on those that are left: a channel leaves the registry exactly
when its listener has been taken off. -/
theorem tracks_leave (registry : Registry) (acks : List Reply) (channels : List Bytes) :
    (registry.leave acks channels).Tracks Installs registry := by
  induction channels generalizing registry acks with
  | nil => exact installs_complete registry acks
  | cons channel channels ih =>
      rw [leave]
      split
      · exact ih registry _
      · rename_i id hid
        refine ⟨rfl, fun answer => ?_⟩
        cases answer with
        | ok _ => exact ⟨_, ⟨channel, hid, rfl⟩, ih _ _⟩
        | error e => exact ⟨registry, rfl, installs_complete registry _⟩

/-- Leaving channels, named or not, changes the registry along with the listeners. -/
theorem tracks_unsubscribe (registry : Registry) (channels : List Bytes) :
    (registry.unsubscribe channels).Tracks Installs registry := by
  rw [unsubscribe]
  split
  · exact installs_complete registry _
  · exact tracks_leave registry _ _

end Registry

namespace Handler

/-- A change of subscriptions never fails for good. -/
theorem tracks_ok_map {registry : Registry} {task : Task Completion}
    (h : task.Tracks Registry.Installs registry) :
    (Except.ok <$> task : Task (Except Fatal Completion)).Tracks EndsWith registry :=
  h.bind fun _ _ hinstalls => hinstalls

/-- In normal mode every command changes the registry along with the listeners, from none on. -/
theorem tracks_perform (command : Command) : (perform command).Tracks EndsWith ∅ := by
  have hpure (reply : Reply) : (pure reply : Action Reply).run.Deaf := deaf_run_pure reply
  have hbind {α : Type} {work : Action α} (f : α → Reply) (h : work.run.Deaf) :
      (do return f (← work) : Action Reply).run.Deaf := deaf_run_bind h fun _ => hpure _
  cases command with
  | del keys => exact tracks_answer (hbind _ (Execution.deaf_removeEach 0 keys))
  | get key => exact tracks_answer (Execution.deaf_get key)
  | incrByFloat key increment => exact tracks_answer (Execution.deaf_incrByFloat key increment)
  | lcs query => exact tracks_answer (Execution.deaf_lcs query)
  | set key value => exact tracks_answer (hbind (fun _ => .ok) (Execution.deaf_apply key _))
  | lindex key index =>
      exact tracks_answer (hbind _ (Action.deaf_ofList (ListMap.deaf_applied _ _ _)))
  | llen key => exact tracks_answer (hbind _ (Action.deaf_ofList (ListMap.deaf_size key)))
  | pop side key count => exact tracks_answer (Execution.deaf_pop side key count)
  | push side key values =>
      exact tracks_answer (hbind _ (Action.deaf_ofList (ListMap.deaf_applied _ _ _)))
  | lrange key start stop =>
      exact tracks_answer (hbind _ (Action.deaf_ofList (ListMap.deaf_applied _ _ _)))
  | publish channel message =>
      exact tracks_answer (hbind (fun _ => .count 0) (Execution.deaf_apply channel _))
  | subscribe channels => exact tracks_ok_map (Registry.tracks_subscribe ∅ [] channels)
  | unsubscribe channels => exact tracks_ok_map (Registry.tracks_unsubscribe ∅ channels)
  | client _ => exact tracks_answer (hpure _)
  | config subcommand parameter =>
      exact tracks_answer (Execution.deaf_config subcommand parameter)
  | echo message => exact tracks_answer (hpure _)
  | ping payload => exact tracks_answer (hpure _)
  | quit => exact ⟨rfl, proper_normal⟩
  | readOnly => exact tracks_answer (hpure _)
  | readWrite => exact tracks_answer (hpure _)

/-- In subscriber mode every command changes the registry along with the listeners. -/
theorem tracks_performSubscribed (command : Command) {registry : Registry}
    (h : Proper (.subscriber registry)) :
    (performSubscribed registry command).Tracks EndsWith registry := by
  cases command with
  | subscribe channels => exact tracks_ok_map (registry.tracks_subscribe [] channels)
  | unsubscribe channels => exact tracks_ok_map (registry.tracks_unsubscribe channels)
  | _ => exact ⟨rfl, h⟩

/-- Whatever a request is, it changes the registry along with the listeners, from a proper handler
to a proper one. -/
theorem tracks_handle {handler : Handler} (request : Request) (h : handler.Proper) :
    (handler.handle request).Tracks EndsWith handler.registry := by
  rw [handle]
  split
  · exact ⟨rfl, h⟩
  · rename_i command _
    cases handler with
    | normal => exact tracks_perform command
    | subscriber registry => exact tracks_performSubscribed command h

end Handler

end RespStore
