import RespStore.Store.Value
import Std.Data.ExtTreeMap

/-!
# The key-value store

The store keeps a value and a version for every key that is present, and tells listeners
about every commit. Versions come from one counter of commits, so no two commits that leave a
value behind share one; a removed key loses its version with its value.

* `Store.apply` changes one key by a transform.
* `Store.applyAmid` does the same while others commit in between. An attempt runs the
  transform on a snapshot and commits only if the key still has the version of the snapshot;
  otherwise the next attempt starts over on the newer value.

Both answer with the new store and with the notices that go out, in the order of the commits.
-/

namespace RespStore

/-- A value with the version its commit gave it. -/
structure Entry where
  /-- What the key holds. -/
  value : Value
  /-- The number of the commit that stored it. -/
  version : Nat
  deriving Repr, DecidableEq

/-- What a commit did to a key. -/
inductive EventKind where
  /-- The key was absent and now holds a value. -/
  | created
  /-- The key held a value and now holds another one. -/
  | modified
  /-- The key held a value and is now absent. -/
  | removed
  deriving Repr, DecidableEq

/-- What listeners are told about a commit. -/
structure Event where
  /-- The key that changed. -/
  key : Bytes
  /-- What happened to it. -/
  kind : EventKind
  /-- The value it holds now. -/
  value : Option Value
  deriving Repr, DecidableEq

/-- Decides which keys a listener hears about. -/
structure KeyFilter where
  /-- Whether the listener hears about a key. -/
  accepts : Bytes → Bool

namespace KeyFilter

/-- Accepts one key only. -/
def exact (key : Bytes) : KeyFilter := ⟨fun candidate => candidate == key⟩

/-- Accepts the keys that start with a byte string. -/
def startingWith (start : Bytes) : KeyFilter := ⟨fun candidate => start.isPrefixOf candidate⟩

/-- Accepts every key. -/
def all : KeyFilter := ⟨fun _ => true⟩

end KeyFilter

/-- The number under which a listener is registered. Numbers are never used twice. -/
abbrev ListenerId := Nat

/-- The text of a listener's number. -/
def ListenerId.text (id : ListenerId) : String := "listener-" ++ Decimal.text id

/-- A registered listener. Its target is whatever its notices are addressed to. -/
structure Listener (τ : Type) where
  /-- The keys it hears about. -/
  filter : KeyFilter
  /-- Where its notices go. -/
  target : τ

/-- An event on its way to a listener. -/
structure Notice (τ : Type) where
  /-- Where it goes. -/
  target : τ
  /-- What happened. -/
  event : Event

/-- The keys that are present, the registered listeners, and the two counters. Neither counter
ever falls behind what it has given out.

The counters have no upper bound here. Where they are kept in 64 bits, they are those numbers as
long as fewer than `2 ^ 64` values are committed and fewer than `2 ^ 64` listeners registered, and
more than that are taken to be out of reach. -/
structure Store (τ : Type) where
  /-- The keys that are present. -/
  entries : Std.ExtTreeMap Bytes Entry := ∅
  /-- The registered listeners, by number. -/
  listeners : Std.ExtTreeMap ListenerId (Listener τ) := ∅
  /-- How many values have been committed. -/
  commits : Nat := 0
  /-- The number of the next listener. -/
  nextListener : ListenerId := 0
  /-- Every version is the number of a commit that has happened. -/
  version_le : ∀ {key : Bytes} {entry : Entry},
    entries[key]? = some entry → entry.version ≤ commits := by simp
  /-- Every listener has a number that was given out. -/
  listener_lt : ∀ {id : ListenerId} {listener : Listener τ},
    listeners[id]? = some listener → id < nextListener := by simp

/-- The outcome of applying a transform. -/
structure Outcome (τ : Type) where
  /-- What the caller learns. -/
  result : Except StoreError Output
  /-- The store afterwards. -/
  store : Store τ
  /-- The notices that go out, in the order of the commits. -/
  notices : List (Notice τ)
  /-- What the transform was run on, attempt by attempt. -/
  seen : List (Option Value)

namespace Store

variable {τ : Type}

/-- A store that holds nothing and has no listeners. -/
def empty : Store τ := {}

/-- The value of a key. -/
def get (s : Store τ) (key : Bytes) : Option Value := s.entries[key]?.map Entry.value

/-- The version of a key. An absent key has none. -/
def version (s : Store τ) (key : Bytes) : Option Nat := s.entries[key]?.map Entry.version

/-- Registers a listener under the next number. -/
def listen (s : Store τ) (filter : KeyFilter) (target : τ) : ListenerId × Store τ :=
  (s.nextListener,
    { s with
      listeners := s.listeners.insert s.nextListener ⟨filter, target⟩
      nextListener := s.nextListener + 1
      listener_lt := by
        intro id listener h
        rw [Std.ExtTreeMap.getElem?_insert] at h
        split at h
        · rename_i heq
          exact Std.compare_eq_iff_eq.mp heq ▸ Nat.lt_succ_self _
        · exact Nat.lt_succ_of_lt (s.listener_lt h) })

/-- Takes a listener off. Nothing happens when it is not registered. -/
def unlisten (s : Store τ) (id : ListenerId) : Store τ :=
  { s with
    listeners := s.listeners.erase id
    listener_lt := by
      intro other listener h
      rw [Std.ExtTreeMap.getElem?_erase] at h
      split at h
      · simp at h
      · exact s.listener_lt h }

/-- The number of registered listeners. -/
def listenerCount (s : Store τ) : Nat := s.listeners.size

/-- The notices of an event, in the order of the listeners' numbers. -/
def noticesOf (s : Store τ) (event : Event) : List (Notice τ) :=
  (s.listeners.values.filter fun listener => listener.filter.accepts event.key).map
    fun listener => ⟨listener.target, event⟩

/-- Stores a value under the number of the commit that does so. -/
def put (s : Store τ) (key : Bytes) (value : Value) : Store τ :=
  { s with
    entries := s.entries.insert key ⟨value, s.commits + 1⟩
    commits := s.commits + 1
    version_le := by
      intro other entry h
      rw [Std.ExtTreeMap.getElem?_insert] at h
      split at h
      · obtain rfl := Option.some.inj h
        exact Nat.le_refl _
      · have := s.version_le h
        omega }

/-- Takes a key off, and its version with it. -/
def erase (s : Store τ) (key : Bytes) : Store τ :=
  { s with
    entries := s.entries.erase key
    version_le := by
      intro other entry h
      rw [Std.ExtTreeMap.getElem?_erase] at h
      split at h
      · simp at h
      · exact s.version_le h }

/-- A value that is put under a key gets the next commit as its version. Other keys keep theirs. -/
@[simp]
theorem getElem?_entries_put (s : Store τ) (key other : Bytes) (value : Value) :
    (s.put key value).entries[other]? =
      if key = other then some ⟨value, s.commits + 1⟩ else s.entries[other]? := by
  simp [put, Std.ExtTreeMap.getElem?_insert]

/-- A key that is erased is gone, and other keys stay. -/
@[simp]
theorem getElem?_entries_erase (s : Store τ) (key other : Bytes) :
    (s.erase key).entries[other]? = if key = other then none else s.entries[other]? := by
  simp [erase, Std.ExtTreeMap.getElem?_erase]

/-- Carries out an update, and tells what happened, if anything did. -/
def commit (s : Store τ) (key : Bytes) : Update → Store τ × Option Event
  | .keep => (s, none)
  | .put value =>
    let kind := if s.entries.contains key then .modified else .created
    (s.put key value, some ⟨key, kind, some value⟩)
  | .remove =>
    if s.entries.contains key then (s.erase key, some ⟨key, .removed, none⟩) else (s, none)

/-- Ends an attempt that ran on the snapshot `seen`. An answer that changes nothing needs no
commit. One that does is committed only if the key still has the version of the snapshot;
there is no outcome otherwise. -/
def finish (s : Store τ) (key : Bytes) (transform : Transform) (seen : Option Entry) :
    Option (Outcome τ) :=
  let value := seen.map Entry.value
  match transform value with
  | .error e => some ⟨.error e, s, [], [value]⟩
  | .ok ⟨.keep, output⟩ => some ⟨.ok output, s, [], [value]⟩
  | .ok ⟨update, output⟩ =>
    if s.version key = seen.map Entry.version then
      let (s', event) := s.commit key update
      some ⟨.ok output, s', (event.map s'.noticesOf).getD [], [value]⟩
    else none

/-- Applies a transform while nobody else commits: its one attempt succeeds. -/
def apply (s : Store τ) (key : Bytes) (transform : Transform) : Outcome τ :=
  let value := s.get key
  match transform value with
  | .error e => ⟨.error e, s, [], [value]⟩
  | .ok ⟨update, output⟩ =>
    let (s', event) := s.commit key update
    ⟨.ok output, s', (event.map s'.noticesOf).getD [], [value]⟩

end Store

/-- What others commit while a transform is being applied: the applies that fall into the
current attempt, each of them interfered with in turn, and then what falls into the attempts
that follow. -/
inductive Rivals where
  /-- Nobody interferes any more. -/
  | none
  /-- Another apply falls into the current attempt, amid rivals of its own. -/
  | call (key : Bytes) (transform : Transform) (amid : Rivals) (more : Rivals)
  /-- The current attempt ends; the rest falls into later attempts. -/
  | attempt (later : Rivals)

namespace Store

variable {τ : Type}

/-- Applies a transform amid rivals, with the snapshot of the current attempt already taken.
Without rivals left, an attempt that is to be repeated succeeds the next time: it is an apply that
nobody interferes with. -/
def applyFrom (key : Bytes) (transform : Transform) (seen : Option Entry) (s : Store τ) :
    Rivals → Outcome τ
  | .none =>
    match s.finish key transform seen with
    | some outcome => outcome
    | none =>
      let outcome := s.apply key transform
      { outcome with seen := seen.map Entry.value :: outcome.seen }
  | .call rivalKey rivalTransform amid more =>
    let rival := applyFrom rivalKey rivalTransform s.entries[rivalKey]? s amid
    let outcome := applyFrom key transform seen rival.store more
    { outcome with notices := rival.notices ++ outcome.notices }
  | .attempt later =>
    match s.finish key transform seen with
    | some outcome => outcome
    | none =>
      let outcome := applyFrom key transform s.entries[key]? s later
      { outcome with seen := seen.map Entry.value :: outcome.seen }

/-- Applies a transform amid rivals. -/
def applyAmid (s : Store τ) (key : Bytes) (transform : Transform) (rivals : Rivals) :
    Outcome τ :=
  applyFrom key transform s.entries[key]? s rivals

end Store

end RespStore
