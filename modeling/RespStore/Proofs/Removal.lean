import Mathlib.Data.Finset.Card
import RespStore.Proofs.EventLog
import RespStore.Proofs.ListCommands

/-!
# Keys that are removed together

A request can remove several keys. It removes them one by one, so a key that is named again is not
there any more, and neither is a key that was absent from the start. What comes of that is told by
the set of the keys that the request names.

* `Store.Finds` says which keys of a list a store has, each of them once and in the order of the
  list. There is one such list (`Store.Finds.eq`).
* `Store.apply_remove` says what one removal does, and `Execution.run_removeEach` what all of them
  do, by induction on the keys.
* `Handler.removed_once` is the main result, about all stores and all lists of keys.
-/

namespace RespStore

/-- The event that tells that a key is gone. -/
def Event.removal (key : Bytes) : Event := ⟨key, .removed, none⟩

namespace Store

variable {τ : Type}

/-! ### The keys that are there -/

/-- Whether some keys are those of a list that a store has, each of them once, in the order in which
the list names them for the first time. -/
structure Finds (s : Store τ) (keys found : List Bytes) : Prop where
  /-- They are the keys that are named and present. -/
  mem_iff : ∀ key, key ∈ found ↔ key ∈ keys ∧ key ∈ s.entries
  /-- They are in the order in which they are first named. -/
  ordered : found.Pairwise fun key next => keys.idxOf key < keys.idxOf next

namespace Finds

variable {s : Store τ} {key : Bytes} {keys found : List Bytes}

/-- No key that is found is named twice. -/
theorem nodup (h : s.Finds keys found) : found.Nodup :=
  h.ordered.imp fun hlt heq => absurd (congrArg keys.idxOf heq) (Nat.ne_of_lt hlt)

/-- There are as many as the set of the named keys has members that are present. -/
theorem length_eq (h : s.Finds keys found) :
    found.length = (keys.toFinset.filter fun key => key ∈ s.entries).card := by
  rw [← List.toFinset_card_of_nodup h.nodup]
  congr 1
  ext key
  rw [List.mem_toFinset, Finset.mem_filter, List.mem_toFinset, h.mem_iff]

/-- There is one list of them. -/
theorem eq {other : List Bytes} (h : s.Finds keys found) (hother : s.Finds keys other) :
    found = other := by
  have hperm : found.Perm other :=
    (List.perm_ext_iff_of_nodup h.nodup hother.nodup).mpr fun key =>
      (h.mem_iff key).trans (hother.mem_iff key).symm
  exact hperm.eq_of_pairwise (fun key next _ _ hlt hlt' => absurd hlt' (Nat.not_lt_of_lt hlt))
    h.ordered hother.ordered

theorem nil : s.Finds [] [] := ⟨fun _ => by simp, List.Pairwise.nil⟩

/-- A later key is named one place further behind another key. -/
theorem idxOf_cons_lt {next : Bytes} (hkey : key ≠ next) {key' : Bytes} (hkey' : key ≠ key')
    (h : keys.idxOf key' < keys.idxOf next) :
    (key :: keys).idxOf key' < (key :: keys).idxOf next := by
  rw [List.idxOf_cons_ne _ hkey, List.idxOf_cons_ne _ hkey']
  exact Nat.succ_lt_succ h

/-- A key that is present is found, and the others are looked for without it. -/
theorem cons_of_mem (hkey : key ∈ s.entries) (h : (s.erase key).Finds keys found) :
    s.Finds (key :: keys) (key :: found) := by
  have hfound : ∀ other, other ∈ found ↔ other ∈ keys ∧ key ≠ other ∧ other ∈ s.entries := by
    intro other
    rw [h.mem_iff, erase, Std.ExtTreeMap.mem_erase, ne_eq, Std.compare_eq_iff_eq]
  have hne : ∀ other ∈ found, key ≠ other := fun other hother => ((hfound other).mp hother).2.1
  refine ⟨fun other => ?_, List.pairwise_cons.mpr ⟨fun other hother => ?_, ?_⟩⟩
  · rw [List.mem_cons, List.mem_cons, hfound]
    by_cases heq : other = key
    · subst heq
      simp [hkey]
    · simp [heq, Ne.symm heq]
  · rw [List.idxOf_cons_self, List.idxOf_cons_ne _ (hne other hother)]
    exact Nat.succ_pos _
  · exact h.ordered.imp_of_mem fun hfirst hsecond hlt =>
      idxOf_cons_lt (hne _ hsecond) (hne _ hfirst) hlt

/-- A key that is absent is passed over. -/
theorem cons_of_not_mem (hkey : key ∉ s.entries) (h : s.Finds keys found) :
    s.Finds (key :: keys) found := by
  have hne : ∀ other ∈ found, key ≠ other := by
    rintro other hother rfl
    exact hkey ((h.mem_iff key).mp hother).2
  refine ⟨fun other => ?_, h.ordered.imp_of_mem fun hfirst hsecond hlt =>
    idxOf_cons_lt (hne _ hsecond) (hne _ hfirst) hlt⟩
  rw [h.mem_iff, List.mem_cons]
  by_cases heq : other = key
  · subst heq
    simp [hkey]
  · simp [heq]

end Finds

/-! ### One removal -/

variable {s : Store τ} {key : Bytes}

/-- Removing a key that is present erases it, and all who listen to it are told. -/
theorem apply_remove_of_mem (h : key ∈ s.entries) :
    s.apply key .remove =
      ⟨.ok (.flag true), s.erase key, s.noticesOf (.removal key), [s.get key]⟩ := by
  have hget : ∃ value, s.get key = some value :=
    ⟨_, congrArg (Option.map Entry.value) (Std.ExtTreeMap.getElem?_eq_some_getElem h)⟩
  obtain ⟨value, hvalue⟩ := hget
  have hcommit : s.commit key .remove = (s.erase key, some (.removal key)) :=
    if_pos (Std.ExtTreeMap.contains_iff_mem.mpr h)
  have hdecision : Transform.remove (s.get key) = .ok ⟨.remove, .flag true⟩ := by
    rw [hvalue]
    rfl
  rw [apply_of_ok hdecision, hcommit]
  rfl

/-- Removing a key that is absent does nothing. -/
theorem apply_remove_of_not_mem (h : key ∉ s.entries) :
    s.apply key .remove = ⟨.ok (.flag false), s, [], [none]⟩ := by
  have hget : s.get key = none :=
    congrArg (Option.map Entry.value) (Std.ExtTreeMap.getElem?_eq_none h)
  have hdecision : Transform.remove (s.get key) = .ok (.read (.flag false)) := by
    rw [hget]
    rfl
  rw [apply_of_ok hdecision, hget]
  rfl

/-- What removals leave of the entries. -/
theorem getElem?_foldl_erase (s : Store τ) (found : List Bytes) (key : Bytes) :
    (found.foldl erase s).entries[key]? = if key ∈ found then none else s.entries[key]? := by
  induction found generalizing s with
  | nil => rfl
  | cons first found ih =>
      rw [List.foldl_cons, ih, getElem?_entries_erase]
      by_cases hfirst : first = key
      · simp [hfirst]
      · simp [hfirst, Ne.symm hfirst]

/-- The keys that are found are all of the named ones that there are. -/
theorem Finds.getElem?_foldl_erase {keys found : List Bytes} (h : s.Finds keys found)
    (key : Bytes) :
    (found.foldl erase s).entries[key]? = if key ∈ keys then none else s.entries[key]? := by
  rw [Store.getElem?_foldl_erase]
  by_cases hkey : key ∈ s.entries
  · simp [h.mem_iff, hkey]
  · simp [Std.ExtTreeMap.getElem?_eq_none hkey]

end Store

/-! ### All removals -/

namespace Execution

variable {client : Nat} {s : Store Subscriber} {key : Bytes} (count : Nat) (keys : List Bytes)

/-- The first removal counts if the key is present. -/
theorem run_removeEach_of_mem (h : key ∈ s.entries) :
    (removeEach count (key :: keys)).run.run .plain client s =
      let finished := (removeEach (count + 1) keys).run.run .plain client (s.erase key)
      { finished with notices := s.noticesOf (.removal key) ++ finished.notices } := by
  change (Task.call ∅ (.apply key .remove) _).run .plain client s = _
  rw [Task.run, Backend.instead_plain]
  simp only [Store.react, Store.serve, Store.apply_remove_of_mem h]
  rfl

/-- A key that is not there is passed over: it is not counted, and nothing is sent. -/
theorem run_removeEach_of_not_mem (h : key ∉ s.entries) :
    (removeEach count (key :: keys)).run.run .plain client s =
      (removeEach count keys).run.run .plain client s := by
  change (Task.call ∅ (.apply key .remove) _).run .plain client s = _
  rw [Task.run, Backend.instead_plain]
  simp only [Store.react, Store.serve, Store.apply_remove_of_not_mem h]
  rfl

/-- The removals of a list of keys count and tell of the keys that are found, and erase them.
Induction on the keys, with the store that each removal leaves. -/
theorem run_removeEach (client : Nat) (s : Store Subscriber) (count : Nat) (keys : List Bytes) :
    ∃ found, s.Finds keys found ∧
      (removeEach count keys).run.run .plain client s =
        ⟨.ok (count + found.length), found.foldl Store.erase s,
          (found.map Event.removal).flatMap s.noticesOf⟩ := by
  induction keys generalizing s count with
  | nil => exact ⟨[], .nil, rfl⟩
  | cons key keys ih =>
      by_cases hkey : key ∈ s.entries
      · obtain ⟨found, hfound, hrun⟩ := ih (s.erase key) (count + 1)
        refine ⟨key :: found, hfound.cons_of_mem hkey, ?_⟩
        rw [run_removeEach_of_mem count keys hkey, hrun, List.length_cons, Nat.add_right_comm]
        rfl
      · obtain ⟨found, hfound, hrun⟩ := ih s count
        exact ⟨found, hfound.cons_of_not_mem hkey,
          (run_removeEach_of_not_mem count keys hkey).trans hrun⟩

end Execution

namespace Command

/-- A request that removes keys. -/
theorem ofRequest_del {request : Request}
    (hname : Bytes.lower request.name = Bytes.ofString "del") (hargs : request.args ≠ []) :
    ofRequest request = .ok (.del request.args) := by
  have hlookup : lookup request.name = some ⟨"del", .atLeast 1, Reader.someRemaining.giving .del⟩ :=
    lookup_eq_some_iff.mpr ⟨by simp [table], hname⟩
  have hcount : 1 ≤ request.args.length := List.length_pos_iff.mpr hargs
  rw [ofRequest_eq_map hlookup (decide_eq_true hcount)]
  cases hkeys : request.args with
  | nil => exact absurd hkeys hargs
  | cons key keys => rfl

end Command

namespace Handler

/-- Removing keys is answered with their number. -/
theorem run_perform_del {client : Nat} {s s' : Store Subscriber} {keys : List Bytes} {count : Nat}
    {notices : List (Notice Subscriber)}
    (h : (Execution.removeEach 0 keys).run.run .plain client s = ⟨.ok count, s', notices⟩) :
    (perform (.del keys)).run .plain client s =
      ⟨.ok { handler := .normal, reply := .count count }, s', notices⟩ := by
  exact Task.run_bind_done (Task.run_bind_done h rfl) rfl

/-- **A key that is named several times is removed once, and counted once.** Whatever a store holds,
and whichever keys a request to remove keys names:

* The reply is the number of keys in the set of those named that are present.
* None of the named keys is left, and every other key keeps its value and its version.
* What goes out is one event for each of the keys that were present, in the order in which they are
  first named, and every listener is told about those of them that it hears about. -/
theorem removed_once (client : Nat) (s : Store Subscriber) {request : Request}
    (hname : Bytes.lower request.name = Bytes.ofString "del") (hargs : request.args ≠ []) :
    ∃ found, s.Finds request.args found ∧
      let finished := (normal.handle request).run .plain client s
      let reports := (found.map Event.removal).flatMap s.reportsOf
      finished.value = .ok {
        handler := .normal
        reply := .count (request.args.toFinset.filter fun key => key ∈ s.entries).card } ∧
      (∀ key, finished.store.entries[key]? =
        if key ∈ request.args then none else s.entries[key]?) ∧
      finished.notices = reports.map Prod.snd ∧
      ∀ (id : ListenerId) (listener : Listener Subscriber), s.listeners[id]? = some listener →
        reportsTo id reports = (found.filter listener.filter.accepts).map fun key =>
          ⟨listener.target, .removal key⟩ := by
  obtain ⟨found, hfound, hrun⟩ := Execution.run_removeEach client s 0 request.args
  rw [handle_normal (Command.ofRequest_del hname hargs), run_perform_del hrun]
  refine ⟨found, hfound, ?_, hfound.getElem?_foldl_erase, ?_, fun id listener hlistener => ?_⟩
  · rw [Nat.zero_add, hfound.length_eq]
  · have hnotices : s.noticesOf = fun event => (s.reportsOf event).map Prod.snd :=
      funext s.noticesOf_eq
    simp only [hnotices, List.map_flatMap]
  · rw [Store.reportsTo_of_present hlistener, List.filter_map, List.map_map]
    rfl

/-- A store with a byte string, a list, and somebody who listens to every key. -/
def shelf : Store Subscriber :=
  (((Store.empty.put [97] (.bytes [49])).put [98] (.list [[120]])).put [99] (.bytes [50])).listen
    .all ⟨0, [97]⟩ |>.2

/-- A client removes two keys, naming each of them twice, and one that is not there. -/
def clearing : Request := ⟨Bytes.ofString "Del", [[98], [97], [122], [98], [97]]⟩

/-- The hypotheses can be met by a request that names two keys twice and one that is not there. -/
theorem removed_once_clearing :
    Bytes.lower clearing.name = Bytes.ofString "del" ∧ clearing.args ≠ [] ∧
      let finished := (normal.handle clearing).run .plain 1 shelf
      finished.value = .ok { handler := .normal, reply := .count 2 } ∧
      finished.store.entries[([97] : Bytes)]? = none ∧
      finished.store.entries[([98] : Bytes)]? = none ∧
      finished.store.entries[([99] : Bytes)]? = some ⟨.bytes [50], 3⟩ ∧
      finished.notices = [⟨⟨0, [97]⟩, .removal [98]⟩, ⟨⟨0, [97]⟩, .removal [97]⟩] := by
  have hname : Bytes.lower clearing.name = Bytes.ofString "del" := by decide +kernel
  have hargs : clearing.args ≠ [] := List.cons_ne_nil _ _
  obtain ⟨found, hfound, hvalue, hentries, hnotices, -⟩ := removed_once 1 shelf hname hargs
  have hpair : shelf.Finds clearing.args [[98], [97]] :=
    .cons_of_mem (by decide +kernel) (.cons_of_mem (by decide +kernel)
      (.cons_of_not_mem (by decide +kernel) (.cons_of_not_mem (by decide +kernel)
        (.cons_of_not_mem (by decide +kernel) .nil))))
  obtain rfl := hfound.eq hpair
  rw [← hfound.length_eq] at hvalue
  refine ⟨hname, hargs, hvalue, ?_, ?_, ?_, hnotices.trans rfl⟩
  · exact (hentries _).trans (by decide +kernel)
  · exact (hentries _).trans (by decide +kernel)
  · exact (hentries _).trans (by decide +kernel)

end Handler

end RespStore
