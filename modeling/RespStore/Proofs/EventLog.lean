import RespStore.Proofs.Apply
import RespStore.Proofs.Registry

/-!
# What listeners hear is what happened

A store tells its listeners about commits, while applies interfere with each other and listeners
come and go. This module says what a listener is told from the commits alone: which key each of
them is about and what it leaves there.

* `Commit.event?` is the event of a commit, judged by what the key held just before it, and
  `Contents.events` are the events of several commits.
* `Store.commitsFrom` lists the commits of an apply amid rivals, those of the rivals among them, and
  `Outcome.Logs` says that an outcome is what its commits make it: contents, notices and the
  counter of commits. `Store.logs_applyAmid` shows that of every apply.
* `Store.reports` puts the number of the listener to every notice of a history.
* `Store.reports_of_listener` is the main result, about every history of applies amid rivals and of
  listeners that come and go.
-/

namespace RespStore

/-! ### Commits and their events -/

/-- What a commit leaves at a key. -/
structure Commit where
  /-- The key. -/
  key : Bytes
  /-- What it holds afterwards, if anything. -/
  value? : Option Value
  deriving Repr, DecidableEq

/-- The event of a commit, given what the key held just before it. Removing an absent key is no
event. -/
def Commit.event? (c : Commit) (held : Option Value) : Option Event :=
  match held, c.value? with
  | none, none => none
  | none, some value => some ⟨c.key, .created, some value⟩
  | some _, some value => some ⟨c.key, .modified, some value⟩
  | some _, none => some ⟨c.key, .removed, none⟩

namespace Contents

/-- What every key holds after a commit. -/
def after (held : Contents) (c : Commit) : Contents :=
  fun key => if key = c.key then c.value? else held key

/-- What somebody takes every key to hold who is told about an event. -/
def told (held : Contents) (e : Event) : Contents :=
  fun key => if key = e.key then e.value else held key

/-- The events of several commits. -/
def events (held : Contents) : List Commit → List Event
  | [] => []
  | c :: cs => (c.event? (held c.key)).toList ++ events (held.after c) cs

/-- The events of commits one behind the other stand one behind the other, each judged by what the
commits before it left. -/
theorem events_append (held : Contents) (cs ds : List Commit) :
    held.events (cs ++ ds) = held.events cs ++ Contents.events (cs.foldl after held) ds := by
  induction cs generalizing held with
  | nil => rfl
  | cons c cs ih => rw [List.cons_append, events, events, ih, List.foldl_cons, List.append_assoc]

/-- A commit has one event at most. -/
theorem events_toList (held : Contents) (c? : Option Commit) :
    held.events c?.toList = (c?.bind fun c => c.event? (held c.key)).toList := by
  cases c? with
  | none => rfl
  | some c => exact List.append_nil _

/-- Whoever hears of the event of a commit knows what it leaves, and a commit without one leaves
everything as it was. -/
theorem foldl_told_event? (held : Contents) (c : Commit) :
    (c.event? (held c.key)).toList.foldl told held = held.after c := by
  obtain ⟨key, value?⟩ := c
  change (Commit.event? ⟨key, value?⟩ (held key)).toList.foldl told held = _
  cases value? with
  | some value =>
      cases held key with
      | none => rfl
      | some _ => rfl
  | none =>
      cases hheld : held key with
      | some _ => rfl
      | none =>
          funext other
          change held other = if other = key then none else held other
          split
          · rename_i heq
            rw [heq, hheld]
          · rfl

/-- Whoever hears of every event knows what every key holds. -/
theorem foldl_told_events (held : Contents) (cs : List Commit) :
    (held.events cs).foldl told held = cs.foldl after held := by
  induction cs generalizing held with
  | nil => rfl
  | cons c cs ih => rw [events, List.foldl_append, foldl_told_event?, ih, List.foldl_cons]

end Contents

/-- The commit that an update asks for, if it asks for one. -/
def Update.commit? (key : Bytes) : Update → Option Commit
  | .keep => none
  | .put value => some ⟨key, some value⟩
  | .remove => some ⟨key, none⟩

/-- The commit that a transform asks for when it sees a value. -/
def Transform.commit? (transform : Transform) (key : Bytes) (value : Option Value) :
    Option Commit :=
  match transform value with
  | .error _ => none
  | .ok decision => decision.update.commit? key

/-! ### The commits of an apply -/

namespace Store

variable {τ : Type}

/-- The commits of an apply whose current attempt runs on the snapshot `seen`, and of its rivals,
in the order in which they happen. An attempt that is to be repeated commits nothing. -/
def commitsFrom (key : Bytes) (transform : Transform) (seen : Option Entry) (s : Store τ) :
    Rivals → List Commit
  | .none =>
    match s.finish key transform seen with
    | some _ => (transform.commit? key (seen.map Entry.value)).toList
    | none => (transform.commit? key (s.get key)).toList
  | .call rivalKey rivalTransform amid more =>
    let rival := applyFrom rivalKey rivalTransform s.entries[rivalKey]? s amid
    commitsFrom rivalKey rivalTransform s.entries[rivalKey]? s amid ++
      commitsFrom key transform seen rival.store more
  | .attempt later =>
    match s.finish key transform seen with
    | some _ => (transform.commit? key (seen.map Entry.value)).toList
    | none => commitsFrom key transform s.entries[key]? s later

/-- The commits of an apply amid rivals, and of the rivals. -/
def commitsAmid (s : Store τ) (key : Bytes) (transform : Transform) (rivals : Rivals) :
    List Commit :=
  commitsFrom key transform s.entries[key]? s rivals

/-- The commit of an update, judged by what the key holds, is the event that goes out. -/
theorem snd_commit (s : Store τ) (key : Bytes) (update : Update) :
    (s.commit key update).2 = (update.commit? key).bind fun c => c.event? (s.get c.key) := by
  have hcontains : s.entries.contains key = (s.get key).isSome := by
    rw [get, Option.isSome_map, Std.ExtTreeMap.contains_eq_isSome_getElem?]
  cases update with
  | keep => rfl
  | put value =>
      rw [commit, hcontains]
      cases hheld : s.get key with
      | none => simp [Update.commit?, Commit.event?, hheld]
      | some _ => simp [Update.commit?, Commit.event?, hheld]
  | remove =>
      rw [commit, hcontains]
      cases hheld : s.get key with
      | none => simp [Update.commit?, Commit.event?, hheld]
      | some _ => simp [Update.commit?, Commit.event?, hheld]

/-- The notices of an event depend on the listeners only. -/
theorem noticesOf_of_eq {s s' : Store τ} (h : s'.listeners = s.listeners) :
    s'.noticesOf = s.noticesOf := by
  funext event
  rw [noticesOf, noticesOf, h]

end Store

/-- How many commits leave a value behind. -/
def puts (cs : List Commit) : Nat := cs.countP fun c => c.value?.isSome

/-- Whether an outcome is what some commits make of a store. -/
structure Outcome.Logs {τ : Type} (outcome : Outcome τ) (s : Store τ) (cs : List Commit) :
    Prop where
  /-- Every key holds what the commits leave there. -/
  get_eq : outcome.store.get = cs.foldl Contents.after s.get
  /-- Every event of a commit goes to the listeners, and nothing else does. -/
  notices_eq : outcome.notices = (Contents.events s.get cs).flatMap s.noticesOf
  /-- Every commit that leaves a value behind has been counted. -/
  commits_eq : outcome.store.commits = s.commits + puts cs
  /-- The listeners stay. -/
  listeners_eq : outcome.store.listeners = s.listeners
  /-- No number of a listener has been given out. -/
  nextListener_eq : outcome.store.nextListener = s.nextListener

namespace Outcome.Logs

variable {τ : Type} {s : Store τ} {outcome : Outcome τ} {cs ds : List Commit}

/-- Nothing is committed, and nobody hears of it. -/
theorem nothing (result : Except StoreError Output) (seen : List (Option Value)) :
    Logs ⟨result, s, [], seen⟩ s [] :=
  ⟨rfl, rfl, rfl, rfl, rfl⟩

/-- An update is carried out. -/
theorem commit (result : Except StoreError Output) (key : Bytes) (update : Update)
    (seen : List (Option Value)) :
    Logs ⟨result, (s.commit key update).1,
      ((s.commit key update).2.map (s.commit key update).1.noticesOf).getD [], seen⟩ s
      (update.commit? key).toList where
  get_eq := by
    funext other
    rw [Store.get_commit]
    cases update with
    | keep =>
        simp only [Update.leaves]
        split
        · rename_i heq
          rw [heq]
          rfl
        · rfl
    | put value => rfl
    | remove => rfl
  notices_eq := by
    rw [Store.noticesOf_of_eq (Store.listeners_commit s key update).1, Store.snd_commit,
      Contents.events_toList]
    cases (update.commit? key).bind fun c => c.event? (s.get c.key) with
    | none => rfl
    | some event => exact (List.flatMap_singleton ..).symm
  commits_eq := by
    cases update with
    | keep => rfl
    | put value => rfl
    | remove =>
        rw [Store.commit]
        split
        · rfl
        · rfl
  listeners_eq := (Store.listeners_commit s key update).1
  nextListener_eq := (Store.listeners_commit s key update).2

/-- What attempts have seen does not matter. -/
theorem with_seen (h : outcome.Logs s cs) (seen : List (Option Value)) :
    Logs { outcome with seen } s cs :=
  ⟨h.get_eq, h.notices_eq, h.commits_eq, h.listeners_eq, h.nextListener_eq⟩

/-- One outcome behind another. -/
theorem append {more : Outcome τ} (h : outcome.Logs s cs) (hmore : more.Logs outcome.store ds) :
    Logs { more with notices := outcome.notices ++ more.notices } s (cs ++ ds) where
  get_eq := by
    rw [List.foldl_append, ← h.get_eq]
    exact hmore.get_eq
  notices_eq := by
    rw [Contents.events_append, List.flatMap_append, ← h.get_eq, ← h.notices_eq,
      ← Store.noticesOf_of_eq h.listeners_eq, ← hmore.notices_eq]
  commits_eq := by
    rw [puts, List.countP_append, ← Nat.add_assoc]
    exact hmore.commits_eq.trans (congrArg (· + puts ds) h.commits_eq)
  listeners_eq := hmore.listeners_eq.trans h.listeners_eq
  nextListener_eq := hmore.nextListener_eq.trans h.nextListener_eq

end Outcome.Logs

namespace Store

variable {τ : Type}

/-- An apply that nobody interferes with is what its one commit makes it, if it asks for one. -/
theorem logs_apply (s : Store τ) (key : Bytes) (transform : Transform) :
    (s.apply key transform).Logs s (transform.commit? key (s.get key)).toList := by
  rw [Transform.commit?]
  cases h : transform (s.get key) with
  | error e =>
      rw [apply_of_error h]
      exact .nothing _ _
  | ok decision =>
      rw [apply_of_ok h]
      exact .commit _ key decision.update _

/-- An attempt that comes to its end is what the commit of its snapshot makes it, if it asks for
one. -/
theorem logs_finish {s : Store τ} {key : Bytes} {transform : Transform} {seen : Option Entry}
    {outcome : Outcome τ} (h : s.finish key transform seen = some outcome) :
    outcome.Logs s (transform.commit? key (seen.map Entry.value)).toList := by
  rw [finish] at h
  rw [Transform.commit?]
  cases htransform : transform (seen.map Entry.value) with
  | error e =>
      simp only [htransform] at h
      exact Option.some.inj h ▸ .nothing _ _
  | ok decision =>
      obtain ⟨update, output⟩ := decision
      cases update with
      | keep =>
          simp only [htransform] at h
          exact Option.some.inj h ▸ .nothing _ _
      | _ =>
          simp only [htransform] at h
          split at h
          · exact Option.some.inj h ▸ .commit _ key _ _
          · exact nomatch h

/-- **An apply amid rivals is what its commits make it**, wherever the rivals fall. -/
theorem logs_applyFrom (rivals : Rivals) (key : Bytes) (transform : Transform)
    (seen : Option Entry) (s : Store τ) :
    (applyFrom key transform seen s rivals).Logs s (commitsFrom key transform seen s rivals) := by
  induction rivals generalizing key transform seen s with
  | none =>
      rw [applyFrom, commitsFrom]
      cases hfinish : s.finish key transform seen with
      | some outcome => exact logs_finish hfinish
      | none => exact (logs_apply s key transform).with_seen _
  | call rivalKey rivalTransform amid more ihamid ihmore =>
      rw [applyFrom, commitsFrom]
      exact (ihamid rivalKey rivalTransform _ s).append (ihmore key transform seen _)
  | attempt later ih =>
      rw [applyFrom, commitsFrom]
      cases hfinish : s.finish key transform seen with
      | some outcome => exact logs_finish hfinish
      | none => exact (ih key transform _ s).with_seen _

/-- An apply amid rivals is what its commits and theirs make it. -/
theorem logs_applyAmid (s : Store τ) (key : Bytes) (transform : Transform) (rivals : Rivals) :
    (s.applyAmid key transform rivals).Logs s (s.commitsAmid key transform rivals) :=
  logs_applyFrom rivals key transform _ s

end Store

/-! ### Histories -/

/-- Something that happens to a store. -/
inductive Occurrence (τ : Type) where
  /-- A key is changed, while others change keys. -/
  | apply (key : Bytes) (transform : Transform) (rivals : Rivals)
  /-- A listener is registered. -/
  | listen (filter : KeyFilter) (target : τ)
  /-- A listener is taken off. -/
  | unlisten (id : ListenerId)

/-- Whether a listener is taken off. -/
def Occurrence.removes {τ : Type} (id : ListenerId) : Occurrence τ → Bool
  | .unlisten other => other = id
  | _ => false

/-- A notice, with the number of the listener that it goes to. -/
abbrev Report (τ : Type) := ListenerId × Notice τ

/-- What one listener is told. -/
def reportsTo {τ : Type} (id : ListenerId) (reports : List (Report τ)) : List (Notice τ) :=
  (reports.filter fun report => report.1 = id).map Prod.snd

namespace Store

variable {τ : Type}

/-- What is left of a store, and the notices that go out. -/
def happen (s : Store τ) : Occurrence τ → Store τ × List (Notice τ)
  | .apply key transform rivals =>
    let outcome := s.applyAmid key transform rivals
    (outcome.store, outcome.notices)
  | .listen filter target => ((s.listen filter target).2, [])
  | .unlisten id => (s.unlisten id, [])

/-- What is left of a store after a history, and all notices. -/
def live (s : Store τ) : List (Occurrence τ) → Store τ × List (Notice τ)
  | [] => (s, [])
  | h :: hs =>
    let (s', notices) := s.happen h
    let (last, more) := s'.live hs
    (last, notices ++ more)

/-- The commits of what happens. -/
def commitsIn (s : Store τ) : Occurrence τ → List Commit
  | .apply key transform rivals => s.commitsAmid key transform rivals
  | _ => []

/-- The commits of a history, in order. -/
def commitsOf (s : Store τ) : List (Occurrence τ) → List Commit
  | [] => []
  | h :: hs => s.commitsIn h ++ (s.happen h).1.commitsOf hs

/-- The reports of an event, in the order of the listeners' numbers. -/
def reportsOf (s : Store τ) (event : Event) : List (Report τ) :=
  (s.listeners.toList.filter fun pair => pair.2.filter.accepts event.key).map
    fun pair => (pair.1, ⟨pair.2.target, event⟩)

/-- The reports of a history, in order. -/
def reports (s : Store τ) : List (Occurrence τ) → List (Report τ)
  | [] => []
  | h :: hs => (Contents.events s.get (s.commitsIn h)).flatMap s.reportsOf ++
      (s.happen h).1.reports hs

/-- The numbers that are given to listeners in a history, in order. -/
def answered (s : Store τ) : List (Occurrence τ) → List ListenerId
  | [] => []
  | .listen filter target :: hs =>
    (s.listen filter target).1 :: (s.listen filter target).2.answered hs
  | h :: hs => (s.happen h).1.answered hs

/-- The numbers that are given to listeners and not taken off again, added to those that are
registered at the beginning. -/
def registered (s : Store τ) (on : List ListenerId) : List (Occurrence τ) → List ListenerId
  | [] => on
  | .listen filter target :: hs =>
    (s.listen filter target).2.registered (on ++ [(s.listen filter target).1]) hs
  | .unlisten id :: hs => (s.unlisten id).registered (on.filter fun other => other ≠ id) hs
  | .apply key transform rivals :: hs =>
    (s.applyAmid key transform rivals).store.registered on hs

variable (s : Store τ) (h : Occurrence τ) (hs : List (Occurrence τ))

theorem live_cons : s.live (h :: hs) =
    (((s.happen h).1.live hs).1, (s.happen h).2 ++ ((s.happen h).1.live hs).2) := rfl

/-- The reports of two histories, one behind the other, stand one behind the other. -/
theorem reports_append (before : List (Occurrence τ)) :
    s.reports (before ++ hs) = s.reports before ++ (s.live before).1.reports hs := by
  induction before generalizing s with
  | nil => rfl
  | cons h before ih =>
      rw [List.cons_append, reports, ih, reports, List.append_assoc]
      rfl

/-! ### What happens, by its commits -/

/-- What happens leaves at every key what its commits leave there. -/
theorem get_happen : (s.happen h).1.get = (s.commitsIn h).foldl Contents.after s.get := by
  cases h with
  | apply key transform rivals => exact (s.logs_applyAmid key transform rivals).get_eq
  | _ => rfl

/-- The notices of what happens are those of the events of its commits. -/
theorem notices_happen :
    (s.happen h).2 = (Contents.events s.get (s.commitsIn h)).flatMap s.noticesOf := by
  cases h with
  | apply key transform rivals => exact (s.logs_applyAmid key transform rivals).notices_eq
  | _ => rfl

/-- The counter of commits counts the values that what happens leaves behind. -/
theorem commits_happen : (s.happen h).1.commits = s.commits + puts (s.commitsIn h) := by
  cases h with
  | apply key transform rivals => exact (s.logs_applyAmid key transform rivals).commits_eq
  | _ => rfl

/-- Numbers of listeners are not given out again. -/
theorem nextListener_le_happen : s.nextListener ≤ (s.happen h).1.nextListener := by
  cases h with
  | apply key transform rivals =>
      exact Nat.le_of_eq (s.logs_applyAmid key transform rivals).nextListener_eq.symm
  | listen filter target => exact Nat.le_succ _
  | unlisten id => exact Nat.le_refl _

/-- After a history, every key holds what its commits leave there. -/
theorem get_live : (s.live hs).1.get = (s.commitsOf hs).foldl Contents.after s.get := by
  induction hs generalizing s with
  | nil => rfl
  | cons h hs ih => rw [live_cons, ih, get_happen, commitsOf, List.foldl_append]

/-- The counter of commits counts the values that a history leaves behind. -/
theorem commits_live : (s.live hs).1.commits = s.commits + puts (s.commitsOf hs) := by
  induction hs generalizing s with
  | nil => rfl
  | cons h hs ih =>
      rw [live_cons, ih, commits_happen, commitsOf, puts, puts, puts, List.countP_append,
        Nat.add_assoc]

/-- Over a history, numbers of listeners are not given out again. -/
theorem nextListener_le_live : s.nextListener ≤ (s.live hs).1.nextListener := by
  induction hs generalizing s with
  | nil => exact Nat.le_refl _
  | cons h hs ih => exact Nat.le_trans (s.nextListener_le_happen h) (ih _)

/-- The notices of an event are its reports, without the numbers. -/
theorem noticesOf_eq (event : Event) : s.noticesOf event = (s.reportsOf event).map Prod.snd := by
  rw [noticesOf, reportsOf, values_listeners, List.filter_map, List.map_map, List.map_map]
  rfl

/-- The notices of a history are its reports, without the numbers. -/
theorem notices_live : (s.live hs).2 = (s.reports hs).map Prod.snd := by
  induction hs generalizing s with
  | nil => rfl
  | cons h hs ih =>
      have hnotices : s.noticesOf = fun event => (s.reportsOf event).map Prod.snd :=
        funext s.noticesOf_eq
      rw [live_cons, reports, List.map_append, ← ih, notices_happen, hnotices, List.map_flatMap]

/-! ### One listener -/

variable {s}

/-- A listener is told one thing after another. -/
theorem reportsTo_append (id : ListenerId) (reports more : List (Report τ)) :
    reportsTo id (reports ++ more) = reportsTo id reports ++ reportsTo id more := by
  rw [reportsTo, List.filter_append, List.map_append]
  rfl

/-- A number stands for one listener at most. -/
theorem filter_toList_listeners (id : ListenerId) :
    s.listeners.toList.filter (fun pair => pair.1 = id) =
      (s.listeners[id]?.map fun listener => (id, listener)).toList := by
  have hdistinct : (s.listeners.toList.filter fun pair => pair.1 = id).Pairwise
      fun first second => ¬compare first.1 second.1 = .eq :=
    Std.ExtTreeMap.distinct_keys_toList.filter _
  have hmem (pair : ListenerId × Listener τ) :
      pair ∈ s.listeners.toList.filter (fun pair => pair.1 = id) ↔
        s.listeners[id]? = some pair.2 ∧ pair.1 = id := by
    rw [List.mem_filter, decide_eq_true_iff]
    refine and_congr_left fun hid => ?_
    rw [← hid]
    exact Std.ExtTreeMap.mem_toList_iff_getElem?_eq_some
  cases hpairs : s.listeners.toList.filter fun pair => pair.1 = id with
  | nil =>
      cases hlistener : s.listeners[id]? with
      | none => rfl
      | some listener =>
          have := (hmem (id, listener)).mpr ⟨hlistener, rfl⟩
          rw [hpairs] at this
          exact absurd this List.not_mem_nil
  | cons first rest =>
      obtain ⟨hfirst, hid⟩ := (hmem first).mp (hpairs ▸ List.mem_cons_self)
      have hrest : rest = [] := by
        refine List.eq_nil_iff_forall_not_mem.mpr fun second hsecond => ?_
        obtain ⟨-, hid'⟩ := (hmem second).mp (hpairs ▸ List.mem_cons_of_mem _ hsecond)
        rw [hpairs] at hdistinct
        refine (List.pairwise_cons.mp hdistinct).1 second hsecond ?_
        rw [hid, hid', Std.compare_self]
      rw [hrest, hfirst, ← hid]
      rfl

/-- A listener is told about an event once, if it hears about the key. -/
theorem reportsTo_reportsOf (id : ListenerId) (event : Event) :
    reportsTo id (s.reportsOf event) =
      ((s.listeners[id]?.filter fun listener => listener.filter.accepts event.key).map
        fun listener => ⟨listener.target, event⟩).toList := by
  have hswap : (s.listeners.toList.filter fun pair => pair.2.filter.accepts event.key).filter
      (fun pair => pair.1 = id) = (s.listeners.toList.filter fun pair => pair.1 = id).filter
        fun pair => pair.2.filter.accepts event.key := by
    rw [List.filter_filter, List.filter_filter]
    exact List.filter_congr fun pair _ => Bool.and_comm _ _
  have hreports : (s.reportsOf event).filter (fun report => report.1 = id) =
      ((s.listeners.toList.filter fun pair => pair.2.filter.accepts event.key).filter
        fun pair => pair.1 = id).map fun pair => (pair.1, ⟨pair.2.target, event⟩) :=
    List.filter_map
  rw [reportsTo, hreports, hswap, filter_toList_listeners]
  cases s.listeners[id]? with
  | none => rfl
  | some listener =>
      rw [Option.map_some, Option.toList_some, List.filter_cons, List.filter_nil,
        Option.filter_some]
      split
      · rfl
      · rfl

/-- A number that names no listener is told about nothing. -/
theorem reportsTo_of_absent {id : ListenerId} (hid : s.listeners[id]? = none)
    (events : List Event) : reportsTo id (events.flatMap s.reportsOf) = [] := by
  induction events with
  | nil => rfl
  | cons event events ih =>
      rw [List.flatMap_cons, reportsTo_append, ih, reportsTo_reportsOf, hid]
      rfl

/-- A listener is told about the events whose keys it hears about. -/
theorem reportsTo_of_present {id : ListenerId} {listener : Listener τ}
    (hid : s.listeners[id]? = some listener) (events : List Event) :
    reportsTo id (events.flatMap s.reportsOf) =
      (events.filter fun event => listener.filter.accepts event.key).map
        (Notice.mk listener.target) := by
  induction events with
  | nil => rfl
  | cons event events ih =>
      rw [List.flatMap_cons, reportsTo_append, ih, reportsTo_reportsOf, hid, List.filter_cons,
        Option.filter_some]
      split
      · rfl
      · rfl

/-- What happens leaves a listener alone, unless it takes it off. -/
theorem getElem?_happen {id : ListenerId} (hkeep : h.removes id = false)
    (hlt : id < s.nextListener) : (s.happen h).1.listeners[id]? = s.listeners[id]? := by
  cases h with
  | apply key transform rivals =>
      rw [happen, (s.logs_applyAmid key transform rivals).listeners_eq]
  | listen filter target =>
      rw [happen, getElem?_listeners_listen, if_neg (Nat.ne_of_gt hlt)]
  | unlisten other =>
      rw [happen, getElem?_listeners_unlisten, if_neg (of_decide_eq_false hkeep)]

/-- A number that names no listener any more never names one again. -/
theorem getElem?_happen_of_absent {id : ListenerId} (hid : s.listeners[id]? = none)
    (hlt : id < s.nextListener) : (s.happen h).1.listeners[id]? = none := by
  cases hremoves : h.removes id with
  | false => rw [getElem?_happen h hremoves hlt, hid]
  | true =>
      cases h with
      | unlisten other =>
          rw [happen, getElem?_listeners_unlisten]
          split
          · rfl
          · exact hid
      | _ => exact nomatch hremoves

/-- Nobody is told under a number whose listener is gone. -/
theorem reportsTo_of_gone {id : ListenerId} (hid : s.listeners[id]? = none)
    (hlt : id < s.nextListener) : reportsTo id (s.reports hs) = [] := by
  induction hs generalizing s with
  | nil => rfl
  | cons h hs ih =>
      rw [reports, reportsTo_append, reportsTo_of_absent hid, List.nil_append]
      exact ih (getElem?_happen_of_absent h hid hlt)
        (Nat.lt_of_lt_of_le hlt (s.nextListener_le_happen h))

/-- Nobody is told under a number that has not been given out yet. -/
theorem reportsTo_of_unborn {id : ListenerId} (hle : (s.live hs).1.nextListener ≤ id) :
    reportsTo id (s.reports hs) = [] := by
  induction hs generalizing s with
  | nil => rfl
  | cons h hs ih =>
      have hid : s.listeners[id]? = none := by
        cases hlistener : s.listeners[id]? with
        | none => rfl
        | some listener =>
            have hlt := Nat.lt_of_lt_of_le (s.listener_lt hlistener)
              (s.nextListener_le_live (h :: hs))
            exact absurd hle (Nat.not_le.mpr hlt)
      rw [reports, reportsTo_append, reportsTo_of_absent hid, List.nil_append]
      exact ih hle

/-- A listener is told about the events whose keys it hears about, until it is taken off. -/
theorem reportsTo_of_registered {id : ListenerId} {listener : Listener τ}
    (hid : s.listeners[id]? = some listener) :
    reportsTo id (s.reports hs) =
      ((Contents.events s.get (s.commitsOf (hs.takeWhile fun h => !h.removes id))).filter
        fun event => listener.filter.accepts event.key).map (Notice.mk listener.target) := by
  induction hs generalizing s with
  | nil => rfl
  | cons h hs ih =>
      have hlt : id < s.nextListener := s.listener_lt hid
      rw [reports, reportsTo_append, reportsTo_of_present hid, List.takeWhile_cons]
      cases hremoves : h.removes id with
      | false =>
          have hstays := (getElem?_happen h hremoves hlt).trans hid
          rw [ih hstays, get_happen]
          simp only [Bool.not_false, if_true, commitsOf]
          rw [Contents.events_append, List.filter_append, List.map_append]
      | true =>
          cases h with
          | unlisten other =>
              have hgone : (s.happen (.unlisten other)).1.listeners[id]? = none := by
                rw [happen, getElem?_listeners_unlisten, if_pos (of_decide_eq_true hremoves)]
              rw [reportsTo_of_gone hs hgone hlt]
              rfl
          | _ => exact nomatch hremoves

/-! ### The numbers of listeners -/

/-- Numbers that are given out in a history are none of those given out before it. -/
theorem nextListener_le_answered : ∀ id ∈ s.answered hs, s.nextListener ≤ id := by
  induction hs generalizing s with
  | nil => exact fun _ hid => absurd hid List.not_mem_nil
  | cons h hs ih =>
      intro id hid
      have hmore : ∀ id ∈ (s.happen h).1.answered hs, s.nextListener ≤ id :=
        fun id hid => Nat.le_trans (s.nextListener_le_happen h) (ih id hid)
      cases h with
      | listen filter target =>
          rcases List.mem_cons.mp hid with rfl | hid
          · exact Nat.le_refl _
          · exact hmore id hid
      | _ => exact hmore id hid

/-- Every number is greater than those that were given out before. -/
theorem pairwise_answered : (s.answered hs).Pairwise (· < ·) := by
  induction hs generalizing s with
  | nil => exact List.Pairwise.nil
  | cons h hs ih =>
      cases h with
      | listen filter target =>
          exact List.pairwise_cons.mpr ⟨fun id hid => nextListener_le_answered hs id hid, ih⟩
      | _ => exact ih

/-- Whether some numbers are those of the registered listeners, each of them once. -/
def ListedBy (s : Store τ) (on : List ListenerId) : Prop :=
  on.Nodup ∧ ∀ id : ListenerId, id ∈ on ↔ (s.listeners[id]?).isSome

/-- There are as many listeners as numbers that list them. -/
theorem ListedBy.listenerCount_eq {on : List ListenerId} (hon : s.ListedBy on) :
    s.listenerCount = on.length := by
  have hperm : s.listeners.keys.Perm on := by
    rw [List.perm_ext_iff_of_nodup Std.ExtTreeMap.nodup_keys hon.1]
    intro id
    rw [hon.2, Std.ExtTreeMap.mem_keys, Std.ExtTreeMap.mem_iff_isSome_getElem?]
  rw [listenerCount, ← Std.ExtTreeMap.length_keys, hperm.length_eq]

/-- The listeners of a store are listed by the numbers that it has them under. -/
theorem listedBy_keys (s : Store τ) : s.ListedBy s.listeners.keys :=
  ⟨Std.ExtTreeMap.nodup_keys, fun _ => by
    rw [Std.ExtTreeMap.mem_keys, Std.ExtTreeMap.mem_iff_isSome_getElem?]⟩

/-- The numbers that were given out and not taken off are those of the registered listeners. -/
theorem listedBy_registered {on : List ListenerId} (hon : s.ListedBy on) :
    (s.live hs).1.ListedBy (s.registered on hs) := by
  induction hs generalizing s on with
  | nil => exact hon
  | cons h hs ih =>
      obtain ⟨hnodup, hmem⟩ := hon
      cases h with
      | apply key transform rivals =>
          refine ih ⟨hnodup, fun id => ?_⟩
          rw [(s.logs_applyAmid key transform rivals).listeners_eq]
          exact hmem id
      | listen filter target =>
          have hnew : s.nextListener ∉ on := by
            rw [hmem]
            intro hsome
            obtain ⟨listener, hlistener⟩ := Option.isSome_iff_exists.mp hsome
            exact Nat.lt_irrefl _ (s.listener_lt hlistener)
          refine ih ⟨List.nodup_append.mpr ⟨hnodup, List.pairwise_singleton _ _, ?_⟩, fun id => ?_⟩
          · rintro id hid _ hlast rfl
            rw [List.mem_singleton.mp hlast] at hid
            exact hnew hid
          · rw [List.mem_append, List.mem_singleton, hmem, getElem?_listeners_listen]
            change _ ∨ id = s.nextListener ↔ _
            split
            · rename_i heq
              exact iff_of_true (.inr heq.symm) rfl
            · rename_i hne
              exact or_iff_left fun heq => hne heq.symm
      | unlisten other =>
          refine ih ⟨hnodup.filter _, fun id => ?_⟩
          rw [List.mem_filter, decide_eq_true_iff, hmem, getElem?_listeners_unlisten]
          split
          · rename_i heq
            exact iff_of_false (fun hne => hne.2 heq.symm) (by simp)
          · rename_i hne
            exact and_iff_left fun heq => hne heq.symm

variable (s)

/-- **The event log mirrors the store**, over every history of applies amid rivals and of listeners
that come and go.

* What is sent out is the reports. A listener that is registered in the midst of the history is
  told about each commit from then on until it is taken off, if it hears about the key and if the
  commit is an event, and about nothing else. It is told in the order of the commits.
* If it hears about every key, then what it is told makes of the keys at its registration the keys
  as they are at the end of that time.
* Every key holds what the commits leave there, and each commit that leaves a value is counted.
* No number of a listener is given out twice, and the number of listeners is that of the numbers
  that were given out and not taken off. -/
theorem reports_of_listener (before later : List (Occurrence τ)) (filter : KeyFilter) (target : τ) :
    let now := (s.live before).1
    let id := (now.listen filter target).1
    let start := (now.listen filter target).2
    let during := later.takeWhile fun h => !h.removes id
    let history := before ++ .listen filter target :: later
    let heard := (Contents.events start.get (start.commitsOf during)).filter
      fun event => filter.accepts event.key
    (s.live history).2 = (s.reports history).map Prod.snd ∧
      reportsTo id (s.reports history) = heard.map (Notice.mk target) ∧
      ((∀ key, filter.accepts key = true) →
        heard.foldl Contents.told start.get = (start.live during).1.get) ∧
      (s.live history).1.get = (s.commitsOf history).foldl Contents.after s.get ∧
      (s.live history).1.commits = s.commits + puts (s.commitsOf history) ∧
      (s.answered history).Pairwise (· < ·) ∧
      (∀ other ∈ s.answered history, s.nextListener ≤ other ∧ s.listeners[other]? = none) ∧
      (s.live history).1.ListedBy (s.registered s.listeners.keys history) ∧
      (s.live history).1.listenerCount = (s.registered s.listeners.keys history).length := by
  intro now id start during history heard
  have hstart : start.listeners[id]? = some ⟨filter, target⟩ := by
    rw [getElem?_listeners_listen]
    exact if_pos rfl
  have hlisted := listedBy_registered history s.listedBy_keys
  refine ⟨s.notices_live history, ?_, fun hall => ?_, s.get_live history, s.commits_live history,
    pairwise_answered history, fun other hother => ?_, hlisted, hlisted.listenerCount_eq⟩
  · have hbefore : reportsTo id (s.reports before) = [] :=
      reportsTo_of_unborn before (Nat.le_refl _)
    have hlater := reportsTo_of_registered later hstart
    rw [reports_append, reportsTo_append, hbefore, List.nil_append, reports]
    exact hlater
  · have hheard : heard = Contents.events start.get (start.commitsOf during) :=
      List.filter_eq_self.mpr fun event _ => hall event.key
    rw [hheard, Contents.foldl_told_events, get_live]
  · have hle : s.nextListener ≤ other := nextListener_le_answered history other hother
    refine ⟨hle, ?_⟩
    cases hlistener : s.listeners[other]? with
    | none => rfl
    | some listener => exact absurd (s.listener_lt hlistener) (Nat.not_lt.mpr hle)

end Store

end RespStore
