import RespStore.Proofs.Calls
import RespStore.Proofs.Conservation

/-!
# There are no empty lists

A list that loses its last element is removed, and nobody can push nothing. So a key that holds a
list holds at least one element, and a key without elements is absent: commands can tell the two
apart by the key alone. Transforms do not see to that by themselves, since one that offers no values
would store an empty list; it takes the requests, which are refused before they could ask for it.

* `Transform.Populates` says that a transform leaves no empty list if it finds none, and
  `Command.Makes.populates` that all calls of a command that pushes something are of that kind.
* `Connection.Populates` is the invariant of a connection: what is left of its request makes only
  such calls. `Server.noneEmpty_of_run` is the invariant of a run.
* `Server.no_empty_lists` is the main result, about every run of any number of connections.
-/

namespace RespStore

/-! ### Calls that leave no empty list -/

/-- Whether a transform leaves no empty list, if it finds none. -/
def Transform.Populates (transform : Transform) : Prop :=
  ∀ held decision, held ≠ some (.list []) → transform held = .ok decision →
    decision.update.leaves held ≠ some (.list [])

/-- What a computation that succeeds goes on with. -/
theorem exists_of_bind {ε α β : Type} {x : Except ε α} {f : α → Except ε β} {b : β}
    (h : (x >>= f) = .ok b) : ∃ a, x = .ok a ∧ f a = .ok b := by
  cases x with
  | error e => exact nomatch h
  | ok a => exact ⟨a, rfl, h⟩

namespace Transform

/-- A transform that only reads leaves what it finds. -/
theorem populates_of_keeps {transform : Transform}
    (h : ∀ held decision, transform held = .ok decision → decision.update = .keep) :
    transform.Populates := by
  intro held decision hheld hdecision
  rw [h held decision hdecision]
  exact hheld

/-- Setting a value leaves no list at all. -/
theorem populates_put (content : Bytes) : (Transform.put content).Populates := by
  intro held decision _ hdecision
  obtain rfl := Except.ok.inj hdecision
  exact nofun

/-- Removing a key leaves no list at all. -/
theorem populates_remove : Transform.remove.Populates := by
  intro held decision hheld hdecision
  cases held with
  | none =>
      obtain rfl := Except.ok.inj hdecision
      exact hheld
  | some value =>
      obtain rfl := Except.ok.inj hdecision
      exact nofun

/-- An increment leaves no list at all. -/
theorem populates_increment (by_ : Float) : (Transform.increment by_).Populates := by
  intro held decision _ hdecision
  rw [increment] at hdecision
  obtain ⟨number, -, hdecision⟩ := exists_of_bind hdecision
  dsimp only at hdecision
  split at hdecision
  · obtain rfl := Except.ok.inj hdecision
    exact nofun
  · exact nomatch hdecision

/-- Offering something leaves something. -/
theorem populates_offer (side : ListEnd) {values : List Bytes} (h : values ≠ []) :
    (Transform.offer values side).Populates := by
  intro held decision _ hdecision
  obtain ⟨items?, -, hdecision⟩ := exists_of_bind hdecision
  obtain rfl := Except.ok.inj hdecision
  have hpushed := ListCommand.holding_pushEach side (items?.getD []) h
  rw [← ListValue.offer_eq_pushEach] at hpushed
  exact fun heq => ListCommand.holding_ne _ (hpushed.trans heq)

/-- A list that loses its last element is removed. -/
theorem populates_poll (side : ListEnd) (count : Nat) : (Transform.poll side count).Populates := by
  intro held decision hheld hdecision
  obtain ⟨items?, -, hdecision⟩ := exists_of_bind hdecision
  cases items? with
  | none =>
      obtain rfl := Except.ok.inj hdecision
      exact hheld
  | some items =>
      dsimp only at hdecision
      split at hdecision
      · obtain rfl := Except.ok.inj hdecision
        exact hheld
      · obtain rfl := Except.ok.inj hdecision
        dsimp only
        split
        · exact nofun
        · rename_i hrest
          exact fun heq => hrest (Value.list.inj (Option.some.inj heq))

/-- Looking an element up changes nothing. -/
theorem populates_index (offset : Int64) : (Transform.index offset).Populates :=
  populates_of_keeps fun held decision hdecision => by
    obtain ⟨items?, -, hdecision⟩ := exists_of_bind hdecision
    exact Except.ok.inj hdecision ▸ rfl

/-- Reading a part of a list changes nothing. -/
theorem populates_sublist (first last : Int64) : (Transform.sublist first last).Populates :=
  populates_of_keeps fun held decision hdecision => by
    obtain ⟨items?, -, hdecision⟩ := exists_of_bind hdecision
    exact Except.ok.inj hdecision ▸ rfl

end Transform

/-- Whether a call leaves no empty list, if it finds none. -/
def Call.Populates : Call → Prop
  | .apply _ transform => transform.Populates
  | _ => True

/-- A silent call applies nothing, so that it leaves no empty list. -/
theorem Call.IsSilent.populates {q : Call} (h : q.IsSilent) : q.Populates := by
  cases q with
  | apply key transform => exact h.elim
  | _ => exact trivial

/-- The calls of a command leave no empty list, if it pushes something when it pushes. -/
theorem Command.Makes.populates {command : Command} {q : Call} (h : command.Makes q)
    (hpushes : command.PushesSome) : q.Populates := by
  cases command with
  | del keys =>
      obtain ⟨key, -, rfl⟩ := h
      exact Transform.populates_remove
  | get key | llen key => exact Eq.symm h ▸ trivial
  | incrByFloat key increment => exact Eq.symm h ▸ Transform.populates_increment increment
  | lcs query =>
      rcases h with rfl | rfl
      · exact trivial
      · exact trivial
  | set key value => exact Eq.symm h ▸ Transform.populates_put value
  | lindex key index => exact Eq.symm h ▸ Transform.populates_index index
  | pop side key count =>
      obtain ⟨-, rfl⟩ := h
      exact Transform.populates_poll side _
  | push side key values => exact Eq.symm h ▸ Transform.populates_offer side hpushes
  | lrange key start stop => exact Eq.symm h ▸ Transform.populates_sublist start stop
  | publish channel message => exact Eq.symm h ▸ Transform.populates_put message
  | subscribe channels | unsubscribe channels => exact Call.IsSilent.populates h
  | _ => exact h.elim

/-- No request can make a call that leaves an empty list. -/
theorem Handler.populates_handle (handler : Handler) (request : Request) :
    (handler.handle request).Calls Call.Populates := by
  rw [handle]
  cases hcommand : Command.ofRequest request with
  | error e => exact trivial
  | ok command =>
      cases handler with
      | normal =>
          exact (calls_perform command).imp fun _ hmakes =>
            hmakes.populates (Command.pushesSome_of_ofRequest hcommand)
      | subscriber registry =>
          exact (silent_performSubscribed registry command).calls.imp fun _ hsilent =>
            hsilent.populates

/-- A call that leaves no empty list leaves none in a store without one, whoever answers it. -/
theorem Store.noneEmpty_react {s : Store Subscriber} {q : Call} (h : Contents.NoneEmpty s.get)
    (hq : q.Populates) (client : Nat) (instead : Option q.Answer) :
    Contents.NoneEmpty (s.react client q instead).store.get := by
  cases instead with
  | some answer => exact h
  | none =>
      cases q with
      | apply key transform =>
          intro other
          change (s.apply key transform).store.get other ≠ some (.list [])
          rw [get_apply]
          split
          · rw [Transform.leaves]
            cases hdecision : transform (s.get key) with
            | error e => exact h key
            | ok decision => exact hq (s.get key) decision (h key) hdecision
          · exact h other
      | _ => exact h

/-! ### The invariant of a connection -/

namespace Connection

/-- Whether what is left of a request makes no call that leaves an empty list. -/
def Populates (c : Connection) : Prop :=
  ∀ task, Phase.task? c.phase = some task → task.Calls Call.Populates

section Populates

variable {client : Nat} {s : Store Subscriber} {c c' : Connection} {m : Move} {p : Progress}

/-- A connection that works on no request makes no call for one. -/
theorem Populates.of_rests {handler : Option Handler} (h : Rests handler c) : c.Populates :=
  fun _ htask => nomatch h.task?_eq.symm.trans htask

/-- The calls of what is left of a task are of the kind that all its calls are. -/
theorem Continues.calls {task task' : Task (Except Fatal Completion)} {kind : Call → Prop}
    (h : Continues task task') (hcalls : task.Calls kind) : task'.Calls kind := by
  cases h with
  | same => exact hcalls
  | answer owned q next answer => exact hcalls.2 answer
  | computed => exact hcalls

/-- Every step leaves a connection whose request makes only calls that leave no empty list. -/
theorem Populates.step (h : c.Populates) (hstep : Steps client s c m p) :
    p.connection.Populates := by
  cases hstep.handles with
  | rests hrests => exact .of_rests hrests
  | givesUp hrests => exact .of_rests hrests
  | takes request handler _ _ _ htask =>
      intro task htask'
      rw [← Option.some.inj (htask.symm.trans htask')]
      exact handler.populates_handle request
  | works task task' htask hcontinues _ _ htask' =>
      intro task'' htask''
      rw [← Option.some.inj (htask'.symm.trans htask'')]
      exact hcontinues.calls (h task htask)
  | installs _ _ hrests => exact .of_rests hrests

/-- A message that is posted leaves the request that is worked on as it is. -/
theorem Populates.post (h : c.Populates) (d : Delivery) : (c.post d).1.Populates := by
  obtain ⟨mailbox, heq⟩ := post_eq c d
  exact heq ▸ h

/-- A step leaves no empty list in a store without one. -/
theorem noneEmpty_of_steps (hpopulates : c.Populates) (hremoves : c.Removes)
    (h : Contents.NoneEmpty s.get) (hstep : Steps client s c m p) :
    Contents.NoneEmpty p.store.get := by
  cases hstep with
  | answer hphase | answerWaiting hphase =>
      exact Store.noneEmpty_react h (hpopulates _ (congrArg Phase.task? hphase)).1 client _
  | answerLeaving hphase | answerAbandoned hphase =>
      exact Store.noneEmpty_react h (hremoves _ (congrArg Phase.removal? hphase)).1.populates
        client _
  | _ => exact h

end Populates

end Connection

/-! ### Runs -/

namespace Server

open Connection

variable {y y' : Server} {moves : List (Nat × Move)} {log : Log}

/-- After every run of new connections, the request of each of them makes only calls that leave no
empty list. -/
theorem populates_of_run (hnew : ∀ c ∈ y.connections, ∃ settings, c = Connection.new settings)
    (hrun : y.run moves = some (y', log)) :
    ∀ (j : Nat) c, y'.connections[j]? = some c → c.Populates :=
  run_invariant_new (P := fun c _ => c.Populates) (fun h hstep => h.step (steps_of_step hstep))
    (fun _ _ d h => h.post d) hnew (fun _ => .of_rests ⟨rfl, rfl⟩) hrun

/-- Nobody leaves an empty list in a store without one. -/
theorem noneEmpty_of_run (hnew : ∀ c ∈ y.connections, ∃ settings, c = Connection.new settings)
    (h : Contents.NoneEmpty y.store.get) (hrun : y.run moves = some (y', log)) :
    Contents.NoneEmpty y'.store.get := by
  suffices hinv : y.run moves = some (y', log) ∧ Contents.NoneEmpty y'.store.get from hinv.2
  refine run_induction (Q := fun made y' log => y.run made = some (y', log) ∧
    Contents.NoneEmpty y'.store.get) (R := fun _ _ => True) ?_ ⟨rfl, h⟩ (fun _ _ => trivial) hrun
  rintro made y₁ y₂ i m before more ⟨hmade, hnone⟩ - hstep
  obtain ⟨c, p, hc, hp, hstore, -, -⟩ := step_cases hstep
  refine ⟨run_concat hmade hstep, hstore ▸ ?_⟩
  exact noneEmpty_of_steps (populates_of_run hnew hmade i c hc) (removes_of_run hnew hmade i c hc)
    hnone (steps_of_step hp)

end Server

/-! ### What commands reply -/

/-- Without empty lists, a key is absent just when it holds neither a byte string nor an element of
a list. -/
theorem Contents.NoneEmpty.eq_none_iff {held : Contents} (h : held.NoneEmpty) (key : Bytes) :
    held key = none ↔ (∀ content, held key ≠ some (.bytes content)) ∧
      ∀ item items, held key ≠ some (.list (item :: items)) := by
  constructor
  · intro habsent
    rw [habsent]
    exact ⟨fun _ => nofun, fun _ _ => nofun⟩
  · rintro ⟨hbytes, hlist⟩
    cases hheld : held key with
    | none => rfl
    | some value =>
        cases value with
        | bytes content => exact absurd hheld (hbytes content)
        | list items =>
            cases items with
            | nil => exact absurd hheld (h key)
            | cons item items => exact absurd hheld (hlist item items)

namespace ListCommand

open Handler

variable {s : Store Subscriber} {key : Bytes}

/-- A count below `2 ^ 63` is replied as zero only if it is zero. -/
theorem count_eq_zero_iff {n : Nat} (h : n < 2 ^ 63) : Reply.count n = .integer 0 ↔ n = 0 := by
  constructor
  · intro heq
    have hint := congrArg Int64.toInt (Reply.integer.inj heq)
    rw [Int64.toInt_ofNat_of_lt h] at hint
    exact Int.ofNat.inj hint
  · rintro rfl
    rfl

/-- `LLEN` replies zero just for a key that is absent, in a store without empty lists. -/
theorem length_eq_zero_iff (hnone : Contents.NoneEmpty s.get) (hsized : Contents.Sized s.get) :
    ((ListCommand.length key).react (s.get key)).1 = .integer 0 ↔ s.get key = none := by
  cases hheld : s.get key with
  | none => exact iff_of_true rfl rfl
  | some value =>
      refine iff_of_false (fun heq => ?_) nofun
      cases value with
      | bytes content => exact nomatch heq
      | list items =>
          have hempty := (count_eq_zero_iff (hsized key items hheld)).mp heq
          exact ne_nil_of_get (hnone key) hheld (List.length_eq_zero_iff.mp hempty)

/-- A pop with a count that is not negative replies the null array just for a key that is absent,
unless the key holds a byte string. -/
theorem pop_eq_nullArray_iff (side : ListEnd) {count : Int64} (hcount : 0 ≤ count)
    (hlist : ∀ content, s.get key ≠ some (.bytes content)) :
    ((ListCommand.pop side key (some count)).react (s.get key)).1 = .nullArray ↔
      s.get key = none := by
  have hrefused : (ListCommand.pop side key (some count)).refused = false :=
    (refused_eq side key (some count)).trans (decide_eq_false (Int64.not_lt.mpr hcount))
  cases hheld : s.get key with
  | none =>
      refine iff_of_true ?_ rfl
      simp only [react, hrefused]
      rfl
  | some value =>
      refine iff_of_false (fun heq => ?_) (Option.some_ne_none value)
      cases value with
      | bytes content => exact hlist content hheld
      | list items =>
          simp only [react, hrefused] at heq
          cases heq

end ListCommand

namespace Server

variable {y y' : Server} {moves : List (Nat × Move)} {log : Log}

/-- **There are no empty lists.** Any number of connections work on a store that was empty at first,
in any order and with any waiting in between, and whether the store answers their calls or something
else does. After every run of theirs,

* no key holds a list without elements,
* a key is absent just when it holds neither a byte string nor an element of a list,
* `LLEN` replies zero just for a key that is absent, as long as no list has `2 ^ 63` elements,
* a pop with a count that is not negative replies the null array just for a key that is absent,
  unless the key holds a byte string. -/
theorem no_empty_lists (hnew : ∀ c ∈ y.connections, ∃ settings, c = Connection.new settings)
    (hempty : y.store = .empty) (hrun : y.run moves = some (y', log)) :
    Contents.NoneEmpty y'.store.get ∧
      (∀ key, y'.store.get key = none ↔ (∀ content, y'.store.get key ≠ some (.bytes content)) ∧
        ∀ item items, y'.store.get key ≠ some (.list (item :: items))) ∧
      (Contents.Sized y'.store.get → ∀ client key request,
        Command.ofRequest request = .ok (.llen key) →
          ∃ reply s',
            ((Handler.normal.handle request).run .plain client y'.store).Replies reply s' ∧
            (reply = .integer 0 ↔ y'.store.get key = none)) ∧
      ∀ client key request side count,
        Command.ofRequest request = .ok (.pop side key (some count)) → 0 ≤ count →
        (∀ content, y'.store.get key ≠ some (.bytes content)) →
          ∃ reply s',
            ((Handler.normal.handle request).run .plain client y'.store).Replies reply s' ∧
            (reply = .nullArray ↔ y'.store.get key = none) := by
  have hnone : Contents.NoneEmpty y'.store.get := by
    refine noneEmpty_of_run hnew (fun key => ?_) hrun
    rw [hempty]
    exact nofun
  refine ⟨hnone, hnone.eq_none_iff, ?_, ?_⟩
  · intro hsized client key request hcommand
    have hrefines : ListCommand.Refines client y'.store (.length key) :=
      ListCommand.refines_length (hnone key)
    obtain ⟨s', hreplies, -⟩ := hrefines
    rw [Handler.handle_normal hcommand]
    exact ⟨_, s', hreplies, ListCommand.length_eq_zero_iff hnone hsized⟩
  · intro client key request side count hcommand hcount hlist
    have hrefines : ListCommand.Refines client y'.store (.pop side key (some count)) :=
      ListCommand.refines_pop (hnone key)
    obtain ⟨s', hreplies, -⟩ := hrefines
    rw [Handler.handle_normal hcommand]
    exact ⟨_, s', hreplies, ListCommand.pop_eq_nullArray_iff side hcount hlist⟩

/-- Two clients share a list: one key is left with an element and the other one with nothing, and
their replies tell the two apart. -/
theorem no_empty_lists_sharing :
    ∃ y log, twoClients.run sharing = some (y, log) ∧
      y.store.get [107] = some (.list [[98]]) ∧ y.store.get [108] = none ∧
      (∃ reply s', ((Handler.normal.handle ⟨Bytes.ofString "LLEN", [[107]]⟩).run .plain 0
        y.store).Replies reply s' ∧ reply ≠ .integer 0) ∧
      (∃ s', ((Handler.normal.handle ⟨Bytes.ofString "LLEN", [[108]]⟩).run .plain 0
        y.store).Replies (.integer 0) s') ∧
      (∃ reply s', ((Handler.normal.handle ⟨Bytes.ofString "RPOP", [[107], [48]]⟩).run .plain 0
        y.store).Replies reply s' ∧ reply ≠ .nullArray) ∧
      ∃ s', ((Handler.normal.handle ⟨Bytes.ofString "RPOP", [[108], [48]]⟩).run .plain 0
        y.store).Replies .nullArray s' := by
  have hfacts : (twoClients.run sharing).map (fun result => result.1.store.entries.toList) =
      some [([107], ⟨.list [[98]], 2⟩)] := by
    decide +kernel
  obtain ⟨⟨y, log⟩, hrun, hentries⟩ := Option.map_eq_some_iff.mp hfacts
  have hmem (key : Bytes) (entry : Entry) : y.store.entries[key]? = some entry ↔
      key = [107] ∧ entry = ⟨.list [[98]], 2⟩ := by
    rw [← Std.ExtTreeMap.mem_toList_iff_getElem?_eq_some, hentries, List.mem_singleton,
      Prod.mk.injEq]
  have hheld : y.store.get [107] = some (.list [[98]]) :=
    congrArg (Option.map Entry.value) ((hmem [107] _).mpr ⟨rfl, rfl⟩)
  have habsent : y.store.get [108] = none := by
    refine Option.map_eq_none_iff.mpr (Option.eq_none_iff_forall_not_mem.mpr fun entry hentry => ?_)
    exact absurd ((hmem [108] entry).mp hentry).1 (by decide)
  have hsized : Contents.Sized y.store.get := by
    intro key items hget
    obtain ⟨entry, hentry, hvalue⟩ := Option.map_eq_some_iff.mp hget
    rw [((hmem key entry).mp hentry).2] at hvalue
    rw [← Value.list.inj hvalue]
    decide
  obtain ⟨-, -, hlength, hpop⟩ := no_empty_lists new_of_mem_twoClients rfl hrun
  have hlist {key : Bytes} {value? : Option Value} (hget : y.store.get key = value?)
      (hvalue : ∀ content, value? ≠ some (.bytes content)) (content : Bytes) :
      y.store.get key ≠ some (.bytes content) := hget ▸ hvalue content
  obtain ⟨reply₁, s₁, hreplies₁, hiff₁⟩ := hlength hsized 0 [107]
    ⟨Bytes.ofString "LLEN", [[107]]⟩ rfl
  obtain ⟨reply₂, s₂, hreplies₂, hiff₂⟩ := hlength hsized 0 [108]
    ⟨Bytes.ofString "LLEN", [[108]]⟩ rfl
  obtain ⟨reply₃, s₃, hreplies₃, hiff₃⟩ := hpop 0 [107] ⟨Bytes.ofString "RPOP", [[107], [48]]⟩
    .tail 0 rfl (by decide) (hlist hheld fun _ => nofun)
  obtain ⟨reply₄, s₄, hreplies₄, hiff₄⟩ := hpop 0 [108] ⟨Bytes.ofString "RPOP", [[108], [48]]⟩
    .tail 0 rfl (by decide) (hlist habsent fun _ => nofun)
  refine ⟨y, log, hrun, hheld, habsent, ⟨reply₁, s₁, hreplies₁, fun heq => ?_⟩,
    ⟨s₂, hiff₂.mpr habsent ▸ hreplies₂⟩, ⟨reply₃, s₃, hreplies₃, fun heq => ?_⟩,
    ⟨s₄, hiff₄.mpr habsent ▸ hreplies₄⟩⟩
  · exact nomatch hheld.symm.trans (hiff₁.mp heq)
  · exact nomatch hheld.symm.trans (hiff₃.mp heq)

/-- A pop with a negative count is refused before the store is asked, so that it replies an error
also for a key that is absent. -/
theorem pop_negative_of_absent :
    Command.ofRequest ⟨Bytes.ofString "LPOP", [[107], [45, 49]]⟩ =
        .ok (.pop .head [107] (some (-1))) ∧
      twoClients.run [] = some (twoClients, []) ∧ twoClients.store.get [107] = none ∧
      ∃ reply s', ((Handler.normal.handle ⟨Bytes.ofString "LPOP", [[107], [45, 49]]⟩).run .plain 0
        twoClients.store).Replies reply s' ∧
        reply = .error "ERR value is out of range, must be positive" ∧ reply ≠ .nullArray := by
  have hcommand : Command.ofRequest ⟨Bytes.ofString "LPOP", [[107], [45, 49]]⟩ =
      .ok (.pop .head [107] (some (-1))) := rfl
  obtain ⟨s', hreplies, -⟩ := @ListCommand.refines_pop_refused 0 twoClients.store .head [107]
    (some (-1)) (by decide)
  exact ⟨hcommand, rfl, rfl, _, s', hreplies, rfl, nofun⟩

end Server

end RespStore
