import Mathlib.Logic.Function.Basic
import RespStore.Proofs.Apply
import RespStore.Proofs.Command
import RespStore.Proofs.Conversation
import RespStore.Proofs.Deque

/-!
# List commands are operations on sequences

What list commands reply can be told without the store, its transforms and its calls: from what
every key holds, one command at a time. `ListCommand.execute` does that, with the operations of
`Deque`. It is what the commands are measured by.

* `Handler.serveEach` carries out requests one after the other.
* `ListCommand.Refines` says of one command that it is answered, and leaves the keys, as the
  reference says; `ListCommand.refines` shows that of each.
* `ListCommand.serveEach_refines` is the main result, about any number of requests.
* `ListCommand.sized_executeEach` bounds how long lists can get.
-/

namespace RespStore

/-- A list command, with arguments that have been read. -/
inductive ListCommand where
  /-- `LPUSH` and `RPUSH`. -/
  | push (side : ListEnd) (key : Bytes) (values : List Bytes)
  /-- `LPOP` and `RPOP`, with a count or without one. -/
  | pop (side : ListEnd) (key : Bytes) (count : Option Int64)
  /-- `LLEN`. -/
  | length (key : Bytes)
  /-- `LINDEX`. -/
  | element (key : Bytes) (offset : Int64)
  /-- `LRANGE`. -/
  | range (key : Bytes) (first last : Int64)
  deriving Repr, DecidableEq

namespace Contents

/-- Whether no key holds a list without elements. -/
def NoneEmpty (held : Contents) : Prop := ∀ key, held key ≠ some (.list [])

/-- Whether the length of every list is a 64-bit signed integer. -/
def Sized (held : Contents) : Prop :=
  ∀ key items, held key = some (.list items) → items.length < 2 ^ 63

end Contents

namespace ListCommand

/-- The command as it is carried out. -/
def command : ListCommand → Command
  | .push side key values => .push side key values
  | .pop side key count => .pop side key count
  | .length key => .llen key
  | .element key offset => .lindex key offset
  | .range key first last => .lrange key first last

/-- The key of the list. -/
def key : ListCommand → Bytes
  | .push _ key _ => key
  | .pop _ key _ => key
  | .length key => key
  | .element key _ => key
  | .range key _ _ => key

/-- Whether the command is refused for its count, whatever the key holds. -/
def refused : ListCommand → Bool
  | .pop _ _ (some count) => count.toInt < 0
  | _ => false

open Deque

/-- The reply for a sequence, and the sequence afterwards. -/
def onItems (items : List Bytes) : ListCommand → Reply × List Bytes
  | .push side _ values =>
    (.count (pushEach side items values).length, pushEach side items values)
  | .pop side _ none =>
    match pop? side items with
    | none => (.null, items)
    | some (value, rest) => (.bulk value, rest)
  | .pop side _ (some count) =>
    (.bulks (popEach side count.toInt.toNat items).1, (popEach side count.toInt.toNat items).2)
  | .length _ => (.count items.length, items)
  | .element _ offset => (.optional (at? items offset.toInt), items)
  | .range _ first last => (.bulks (between items first.toInt last.toInt), items)

/-- The reply for a key that holds nothing, and the sequence afterwards. -/
def onAbsent : ListCommand → Reply × List Bytes
  | .push side _ values => (.count values.length, pushEach side [] values)
  | .pop _ _ none => (.null, [])
  | .pop _ _ (some _) => (.nullArray, [])
  | .length _ => (.count 0, [])
  | .element _ _ => (.null, [])
  | .range _ _ _ => (.bulks [], [])

/-- What a key holds when a sequence is to be found under it: nothing if that is empty. -/
def holding (items : List Bytes) : Option Value := if items = [] then none else some (.list items)

/-- The reply to the command, by what its key holds, and what the key holds afterwards. -/
def react (c : ListCommand) (held : Option Value) : Reply × Option Value :=
  if c.refused then (.error "ERR value is out of range, must be positive", held)
  else
    match held with
    | some (.bytes _) =>
      (.error "WRONGTYPE Operation against a key holding the wrong kind of value", held)
    | some (.list items) => ((c.onItems items).1, holding (c.onItems items).2)
    | none => (c.onAbsent.1, holding c.onAbsent.2)

/-- The reply to the command, and what all keys hold afterwards. -/
def execute (held : Contents) (c : ListCommand) : Reply × Contents :=
  ((c.react (held c.key)).1, Function.update held c.key (c.react (held c.key)).2)

/-- The replies to commands that are carried out one after the other, and what all keys hold in the
end. -/
def executeEach (held : Contents) : List ListCommand → List Reply × Contents
  | [] => ([], held)
  | c :: cs =>
    ((c.execute held).1 :: (executeEach (c.execute held).2 cs).1,
      (executeEach (c.execute held).2 cs).2)

end ListCommand

namespace Handler

/-- Carries out requests one after the other, each to its end, and collects the replies. A failure
for good ends it. -/
def serveEach (client : Nat) (h : Handler) (s : Store Subscriber) :
    List Request → Except Fatal (List Reply × Store Subscriber)
  | [] => .ok ([], s)
  | request :: requests =>
    let finished := (h.handle request).run .plain client s
    match finished.value with
    | .error reason => .error reason
    | .ok completion =>
      (serveEach client completion.handler finished.store requests).map fun p =>
        (completion.reply :: p.1, p.2)

end Handler

/-- Whether a request is answered with a reply, and leaves normal mode and a store behind. -/
structure Finished.Replies (finished : Finished (Except Fatal Completion)) (reply : Reply)
    (s' : Store Subscriber) : Prop where
  /-- The reply, and the handler. -/
  value : finished.value = .ok { handler := .normal, reply }
  /-- The store. -/
  store : finished.store = s'

namespace Handler

variable {client : Nat} {s s' : Store Subscriber} {reply : Reply} {α : Type}

/-- An action that only replies leaves the store as it is. -/
theorem replies_pure : ((answer (pure reply)).run .plain client s).Replies reply s := ⟨rfl, rfl⟩

/-- A call that the store has answered is behind the request. -/
theorem replies_call (owned : Registry) (q : Call)
    {next : q.Answer → Task (Except Fatal Completion)}
    (h : ((next (s.react client q none).answer).run .plain client
      (s.react client q none).store).Replies reply s') :
    ((Task.call owned q next).run .plain client s).Replies reply s' := by
  constructor
  · rw [Task.run, Backend.instead_plain]
    exact h.value
  · rw [Task.run, Backend.instead_plain]
    exact h.store

/-- A list operation carries out what its transform decides, and the action goes on with what is
read off the output. -/
theorem replies_applied {key : Bytes} {transform : Transform} {read? : Output → Option α}
    {decision : Decision} {value : α} {more : α → Action Reply}
    (h : transform (s.get key) = .ok decision) (hread : read? decision.output = some value)
    (hmore : ((answer (more value)).run .plain client (s.commit key decision.update).1).Replies
      reply s') :
    ((answer (Action.ofList (ListMap.applied key transform read?) >>= more)).run .plain client
      s).Replies reply s' := by
  refine replies_call ∅ (.apply key transform) ?_
  simp only [Store.react, Store.serve, Store.apply_of_ok h, Task.bind, Function.comp,
    ExceptT.bindCont, hread]
  exact hmore

/-- A list operation on a key that holds something else than a list changes nothing. -/
theorem replies_wrongType {key : Bytes} {transform : Transform} {read? : Output → Option α}
    {more : α → Action Reply} {actual : String}
    (h : transform (s.get key) = .error (.wrongType actual)) :
    ((answer (Action.ofList (ListMap.applied key transform read?) >>= more)).run .plain client
      s).Replies (.error ListError.wrongType.message) s := by
  refine replies_call ∅ (.apply key transform) ?_
  simp only [Store.react, Store.serve, Store.apply_of_error h]
  exact ⟨rfl, rfl⟩

end Handler

/-! ### One command -/

namespace ListCommand

open Deque Handler

variable {client : Nat} {s : Store Subscriber}

/-- A key that values have been pushed to holds a list, since some have been. -/
theorem holding_pushEach (side : ListEnd) (items : List Bytes) {values : List Bytes}
    (h : values ≠ []) :
    holding (pushEach side items values) = some (.list (pushEach side items values)) := by
  refine if_neg fun hempty => h (List.length_eq_zero_iff.mp ?_)
  have hlength := length_pushEach side items values
  rw [hempty, List.length_nil] at hlength
  omega

/-- A sequence with elements is held as a list. -/
theorem holding_of_ne_nil {items : List Bytes} (h : items ≠ []) :
    holding items = some (.list items) := if_neg h

/-- A list that is held has elements where no list without them is. -/
theorem ne_nil_of_get {key : Bytes} {items : List Bytes} (h : s.get key ≠ some (.list []))
    (hheld : s.get key = some (.list items)) : items ≠ [] := by
  rintro rfl
  exact h hheld

/-- Whether the request of a command, carried out to its end, is answered and leaves the keys as the
reference says. -/
def Refines (client : Nat) (s : Store Subscriber) (c : ListCommand) : Prop :=
  ∃ s', ((perform c.command).run .plain client s).Replies (c.react (s.get c.key)).1 s' ∧
    ∀ key, s'.get key = if key = c.key then (c.react (s.get c.key)).2 else s.get key

section Applied

variable {c : ListCommand} {α : Type} (transform : Transform) {read? : Output → Option α}
  {more : α → Action Reply}

/-- A command refines the reference if its transform decides as the reference reacts. -/
theorem refines_applied {held : Option Value} (hheld : s.get c.key = held)
    (hperform : perform c.command =
      answer (Action.ofList (ListMap.applied c.key transform read?) >>= more))
    {decision : Decision} {value : α} {reply : Reply} (h : transform held = .ok decision)
    (hread : read? decision.output = some value) (hmore : more value = pure reply)
    (hreact : c.react held = (reply, decision.update.leaves held)) : Refines client s c := by
  subst hheld
  refine ⟨(s.commit c.key decision.update).1, ?_, fun key => ?_⟩
  · rw [hperform, hreact]
    exact replies_applied h hread (hmore ▸ replies_pure)
  · rw [hreact, Store.get_commit]

/-- A command that changes nothing. -/
theorem refines_of_unchanged (reply : Reply)
    (hreplies : ((perform c.command).run .plain client s).Replies reply s)
    (hreact : c.react (s.get c.key) = (reply, s.get c.key)) : Refines client s c := by
  refine ⟨s, hreact ▸ hreplies, fun key => ?_⟩
  rw [hreact]
  split
  · rename_i heq
    rw [heq]
  · rfl

/-- A command on a key that holds a byte string is refused as the reference refuses it. -/
theorem refines_wrongType {content : Bytes} (hheld : s.get c.key = some (.bytes content))
    (hperform : perform c.command =
      answer (Action.ofList (ListMap.applied c.key transform read?) >>= more))
    {actual : String} (h : transform (some (.bytes content)) = .error (.wrongType actual))
    (hrefused : c.refused = false) : Refines client s c := by
  refine refines_of_unchanged _ (hperform ▸ replies_wrongType (hheld ▸ h)) ?_
  rw [hheld]
  simp only [react, hrefused]
  rfl

end Applied

/-- A push refines the reference: the new length is replied, and the values are pushed one after the
other. -/
theorem refines_push (side : ListEnd) (key : Bytes) {values : List Bytes} (hvalues : values ≠ []) :
    Refines client s (.push side key values) := by
  cases hheld : s.get key with
  | none =>
      refine refines_applied (.offer values side) hheld rfl rfl rfl rfl ?_
      have hlength := length_pushEach side [] values
      rw [List.length_nil, Nat.zero_add] at hlength
      simp only [Option.getD_none, ListValue.offer_eq_pushEach, hlength]
      exact congrArg (Prod.mk _) (holding_pushEach side [] hvalues)
  | some value =>
      cases value with
      | bytes content => exact refines_wrongType (.offer values side) hheld rfl rfl rfl
      | list items =>
          refine refines_applied (.offer values side) hheld rfl rfl rfl rfl ?_
          simp only [Option.getD_some, ListValue.offer_eq_pushEach]
          exact congrArg (Prod.mk _) (holding_pushEach side items hvalues)

/-- `LLEN` refines the reference: the length of the list is replied. -/
theorem refines_length {key : Bytes} (hsome : s.get key ≠ some (.list [])) :
    Refines client s (.length key) := by
  cases hheld : s.get key with
  | none =>
      refine refines_of_unchanged (.count 0) ?_ (hheld ▸ rfl)
      refine replies_call ∅ (.get key) ?_
      simp only [Store.react, Store.serve, hheld]
      exact ⟨rfl, rfl⟩
  | some value =>
      cases value with
      | bytes content =>
          refine refines_of_unchanged (.error ListError.wrongType.message) ?_ (hheld ▸ rfl)
          refine replies_call ∅ (.get key) ?_
          simp only [Store.react, Store.serve, hheld]
          exact ⟨rfl, rfl⟩
      | list items =>
          refine refines_of_unchanged (.count items.length) ?_ ?_
          · refine replies_call ∅ (.get key) ?_
            simp only [Store.react, Store.serve, hheld]
            exact ⟨rfl, rfl⟩
          · change (ListCommand.length key).react (s.get key) = (.count items.length, s.get key)
            rw [hheld]
            exact congrArg (Prod.mk _) (holding_of_ne_nil (ne_nil_of_get hsome hheld))

/-- `LINDEX` refines the reference: the element at the offset is replied. -/
theorem refines_element {key : Bytes} (offset : Int64) (hsome : s.get key ≠ some (.list []))
    (hsize : ∀ items, s.get key = some (.list items) → items.length < 2 ^ 63) :
    Refines client s (.element key offset) := by
  cases hheld : s.get key with
  | none => exact refines_applied (.index offset) hheld rfl rfl rfl rfl rfl
  | some value =>
      cases value with
      | bytes content => exact refines_wrongType (.index offset) hheld rfl rfl rfl
      | list items =>
          refine refines_applied (.index offset) hheld rfl rfl rfl rfl ?_
          simp only [Option.bind_some, ListValue.index_eq_at? (hsize items hheld)]
          exact congrArg (Prod.mk _) (holding_of_ne_nil (ne_nil_of_get hsome hheld))

/-- `LRANGE` refines the reference: the elements between the offsets are replied. -/
theorem refines_range {key : Bytes} (first last : Int64) (hsome : s.get key ≠ some (.list []))
    (hsize : ∀ items, s.get key = some (.list items) → items.length < 2 ^ 63) :
    Refines client s (.range key first last) := by
  cases hheld : s.get key with
  | none => exact refines_applied (.sublist first last) hheld rfl rfl rfl rfl rfl
  | some value =>
      cases value with
      | bytes content =>
          exact refines_wrongType (.sublist first last) hheld rfl rfl rfl
      | list items =>
          refine refines_applied (.sublist first last) hheld rfl rfl rfl rfl ?_
          simp only [Option.map_some, Option.getD_some,
            ListValue.sublist_eq_between (hsize items hheld)]
          exact congrArg (Prod.mk _) (holding_of_ne_nil (ne_nil_of_get hsome hheld))

/-! ### Pops -/

section Pop

variable {side : ListEnd} {key : Bytes} {count : Option Int64}

/-- How what was taken off a list is replied. -/
def replyTo (side : ListEnd) (count : Option Int64) (taken : Option (List Bytes)) : Reply :=
  match count, taken.map (Execution.inOrderOf side) with
  | none, items => .optional (items.bind List.head?)
  | some _, some items => .bulks items
  | some _, none => .nullArray

/-- A pop whose count is not negative takes off as many elements as its count says, or one. -/
theorem perform_pop (side : ListEnd) (key : Bytes) {count : Option Int64}
    (h : ¬ count.getD 1 < 0) :
    perform (.pop side key count) =
      answer (Action.ofList (ListMap.applied key (.poll side (count.getD 1).toNatClampNeg) fun
          | .elements values => some values
          | _ => none) >>= fun taken => pure (replyTo side count taken)) := by
  rw [perform, Execution.pop, ListMap.poll, if_neg h]
  refine congrArg answer (congrArg _ (funext fun taken => ?_))
  cases count with
  | none => rfl
  | some n =>
      cases taken with
      | none => rfl
      | some items => rfl

/-- A pop is refused for a negative count only. -/
theorem refused_eq (side : ListEnd) (key : Bytes) (count : Option Int64) :
    (ListCommand.pop side key count).refused = decide (count.getD 1 < 0) := by
  cases count with
  | none => rfl
  | some count =>
      exact decide_eq_decide.mpr (Int64.lt_iff_toInt_lt (x := count) (y := 0)).symm

/-- A pop that is refused changes nothing. -/
theorem refines_pop_refused (h : count.getD 1 < 0) : Refines client s (.pop side key count) := by
  have hrefused := (refused_eq side key count).trans (decide_eq_true h)
  refine refines_of_unchanged
    (.error (ListError.argument "value is out of range, must be positive").message) ?_ ?_
  · change ((answer (Execution.pop side key count)).run .plain client s).Replies _ s
    rw [Execution.pop, ListMap.poll, if_pos h]
    exact ⟨rfl, rfl⟩
  · simp only [react, hrefused]
    rfl

/-- A pop of no elements takes nothing off. -/
theorem poll_zero {items : List Bytes} (h : items ≠ []) (side : ListEnd) :
    ListValue.poll items side 0 = ([], items) := by
  have hlength : ¬ items.length ≤ 0 := fun hle => h (List.length_eq_zero_iff.mp (by omega))
  cases side with
  | head => rw [ListValue.poll, if_neg hlength, List.take_zero, List.drop_zero]
  | tail => rw [ListValue.poll, if_neg hlength, Nat.sub_zero, List.drop_length, List.take_length]

/-- A pop takes elements off a list, which is gone when there are none left. One that takes none
needs no commit. -/
theorem poll_of_ne_nil {items : List Bytes} (h : items ≠ []) (side : ListEnd) (n : Nat) :
    ∃ update, Transform.poll side n (some (.list items)) =
        .ok ⟨update, .elements (some (ListValue.poll items side n).1)⟩ ∧
      update.leaves (some (.list items)) = holding (popEach side n items).2 := by
  by_cases hzero : n = 0
  · subst hzero
    rw [poll_zero h]
    exact ⟨.keep, rfl, (holding_of_ne_nil h).symm⟩
  · refine ⟨if (ListValue.poll items side n).2 = [] then .remove
      else .put (.list (ListValue.poll items side n).2), ?_, ?_⟩
    · simp only [Transform.poll, Transform.listOf, if_neg hzero]
      rfl
    · rw [← ListValue.poll_eq_popEach, holding]
      split <;> rfl

/-- What is popped without a count: one element, if there is one. -/
theorem popEach_one (side : ListEnd) (items : List Bytes) :
    popEach side 1 items =
      (((pop? side items).map Prod.fst).toList, ((pop? side items).map Prod.snd).getD items) := by
  rw [popEach]
  cases hpop : pop? side items with
  | none => rfl
  | some p => rfl

/-- What a pop replies for a list is what single pops give. -/
theorem react_pop (side : ListEnd) (key : Bytes) {count : Option Int64}
    (hcount : ¬ count.getD 1 < 0) (items : List Bytes) :
    (ListCommand.pop side key count).react (some (.list items)) =
      (replyTo side count (some (ListValue.poll items side (count.getD 1).toNatClampNeg).1),
        holding (popEach side (count.getD 1).toNatClampNeg items).2) := by
  have hrefused := (refused_eq side key count).trans (decide_eq_false hcount)
  have hpop := ListValue.poll_eq_popEach side (count.getD 1).toNatClampNeg items
  simp only [react, hrefused, replyTo, Option.map_some]
  cases count with
  | none =>
      have hone : (Option.getD (none : Option Int64) 1).toNatClampNeg = 1 := rfl
      rw [hone, popEach_one] at hpop
      rw [hone, popEach_one, (Prod.mk.inj hpop).1, onItems]
      cases pop? side items with
      | none => rfl
      | some p => rfl
  | some n =>
      rw [(Prod.mk.inj hpop).1]
      rfl

/-- A pop refines the reference: what single pops give is replied, and what remains is held. -/
theorem refines_pop (hsome : s.get key ≠ some (.list [])) :
    Refines client s (.pop side key count) := by
  by_cases hcount : count.getD 1 < 0
  · exact refines_pop_refused hcount
  have hrefused := (refused_eq side key count).trans (decide_eq_false hcount)
  have hperform := perform_pop side key hcount
  cases hheld : s.get key with
  | none =>
      cases count with
      | none => exact refines_applied _ hheld hperform rfl rfl rfl rfl
      | some n =>
          refine refines_applied _ hheld hperform rfl rfl rfl ?_
          simp only [react, hrefused]
          rfl
  | some value =>
      cases value with
      | bytes content => exact refines_wrongType _ hheld hperform rfl hrefused
      | list items =>
          obtain ⟨update, hpoll, hleaves⟩ :=
            poll_of_ne_nil (ne_nil_of_get hsome hheld) side (count.getD 1).toNatClampNeg
          refine refines_applied _ hheld hperform hpoll rfl rfl ?_
          exact hleaves ▸ react_pop side key hcount items

end Pop

/-! ### Commands one after the other -/

/-- Every command is answered, and leaves the keys, as the reference says. -/
theorem refines (client : Nat) {c : ListCommand} (hpushes : c.command.PushesSome)
    (hnone : Contents.NoneEmpty s.get) (hsized : Contents.Sized s.get) : Refines client s c := by
  cases c with
  | push side key values => exact refines_push side key hpushes
  | pop side key count => exact refines_pop (hnone key)
  | length key => exact refines_length (hnone key)
  | element key offset => exact refines_element offset (hnone key) (hsized key)
  | range key first last => exact refines_range first last (hnone key) (hsized key)

/-- No list without elements is held. -/
theorem holding_ne (items : List Bytes) : holding items ≠ some (.list []) := by
  rw [holding]
  split
  · exact nofun
  · rename_i h
    exact fun heq => h (Value.list.inj (Option.some.inj heq))

/-- A command changes what one key holds. -/
theorem execute_apply (held : Contents) (c : ListCommand) (key : Bytes) :
    (c.execute held).2 key = if key = c.key then (c.react (held c.key)).2 else held key :=
  Function.update_apply ..

/-- The reference leaves no list without elements. -/
theorem noneEmpty_execute {held : Contents} (h : held.NoneEmpty) (c : ListCommand) :
    Contents.NoneEmpty (c.execute held).2 := by
  have hreact : (c.react (held c.key)).2 ≠ some (.list []) := by
    unfold react
    split
    · exact h c.key
    · split
      · exact h c.key
      · exact holding_ne _
      · exact holding_ne _
  intro key
  rw [execute_apply]
  split
  · exact hreact
  · exact h key

/-- How many values a command pushes. -/
def pushes : ListCommand → Nat
  | .push _ _ values => values.length
  | _ => 0

/-- A single pop does not make a list longer. -/
theorem length_pop?_le {side : ListEnd} {items rest : List Bytes} {value : Bytes}
    (h : pop? side items = some (value, rest)) : rest.length ≤ items.length := by
  have hlength := (perm_of_pop? h).length_eq
  rw [List.length_cons] at hlength
  omega

/-- A command makes a list longer by what it pushes, at most. -/
theorem length_onItems_le (c : ListCommand) (items : List Bytes) :
    (c.onItems items).2.length ≤ items.length + c.pushes := by
  cases c with
  | push side key values => exact Nat.le_of_eq (length_pushEach side items values)
  | pop side key count =>
      cases count with
      | none =>
          rw [onItems]
          split
          · exact Nat.le_refl _
          · rename_i hpop
            exact length_pop?_le hpop
      | some n =>
          have hlength := (perm_popEach side n.toInt.toNat items).length_eq
          rw [List.length_append] at hlength
          exact Nat.le_trans (Nat.le_add_left _ _) (Nat.le_of_eq hlength)
  | _ => exact Nat.le_refl _

/-- A command on a key that holds nothing leaves no more than what it pushes. -/
theorem length_onAbsent_le (c : ListCommand) : c.onAbsent.2.length ≤ c.pushes := by
  cases c with
  | push side key values =>
      have hlength := length_pushEach side [] values
      rw [List.length_nil, Nat.zero_add] at hlength
      exact Nat.le_of_eq hlength
  | pop side key count =>
      cases count with
      | none => exact Nat.le_refl _
      | some n => exact Nat.le_refl _
  | _ => exact Nat.le_refl _

/-- A list that is held is the sequence that is to be found under its key. -/
theorem eq_of_holding {items items' : List Bytes} (h : holding items = some (.list items')) :
    items = items' := by
  rw [holding] at h
  split at h
  · exact nomatch h
  · exact Value.list.inj (Option.some.inj h)

/-- A command makes the longest list longer by what it pushes, at most. -/
theorem length_react_le {c : ListCommand} {held : Option Value} {bound : Nat}
    (hheld : ∀ items, held = some (.list items) → items.length ≤ bound) {items : List Bytes}
    (h : (c.react held).2 = some (.list items)) : items.length ≤ bound + c.pushes := by
  unfold react at h
  split at h
  · exact Nat.le_add_right_of_le (hheld items h)
  split at h
  · exact nomatch h
  · rename_i before
    obtain rfl := eq_of_holding h
    exact Nat.le_trans (length_onItems_le c before) (Nat.add_le_add_right (hheld before rfl) _)
  · obtain rfl := eq_of_holding h
    exact Nat.le_trans (length_onAbsent_le c) (Nat.le_add_left _ _)

/-- Lists are as long as the longest one before and all values that were pushed since, at most.
Induction on the commands. -/
theorem sized_executeEach {held : Contents} (bound : Nat)
    (hheld : ∀ key items, held key = some (.list items) → items.length ≤ bound)
    {commands : List ListCommand} (h : bound + (commands.map pushes).sum < 2 ^ 63) :
    ∀ done, done <+: commands → Contents.Sized (executeEach held done).2 := by
  have hsized : held.Sized := fun key items hitems => by
    have hlength := hheld key items hitems
    omega
  induction commands generalizing held bound with
  | nil =>
      intro done hdone
      obtain rfl := List.prefix_nil.mp hdone
      exact hsized
  | cons c cs ih =>
      intro done hdone
      rcases List.prefix_cons_iff.mp hdone with rfl | ⟨more, rfl, hmore⟩
      · exact hsized
      rw [List.map_cons, List.sum_cons, ← Nat.add_assoc] at h
      have hnext : ∀ key items, (c.execute held).2 key = some (.list items) →
          items.length ≤ bound + c.pushes := fun key items hitems => by
        rw [execute_apply] at hitems
        split at hitems
        · exact length_react_le (hheld c.key) hitems
        · exact Nat.le_add_right_of_le (hheld key items hitems)
      refine ih _ hnext h (fun key items hitems => ?_) more hmore
      have hlength := hnext key items hitems
      omega

/-- **List commands are operations on sequences.** Requests that are read as list commands are
carried out one after the other on a store in which no key holds an empty list. They are answered as
the reference answers the commands, and the keys hold afterwards what they hold there. The length of
each list on the way has to be a 64-bit signed integer, as the length of a list in memory is. -/
theorem serveEach_refines (client : Nat) {s : Store Subscriber} {requests : List Request}
    {commands : List ListCommand}
    (hrequests : requests.map Command.ofRequest = commands.map fun c => .ok c.command)
    (hnone : Contents.NoneEmpty s.get)
    (hsized : ∀ done, done <+: commands → Contents.Sized (executeEach s.get done).2) :
    ∃ s', Handler.normal.serveEach client s requests = .ok ((executeEach s.get commands).1, s') ∧
      s'.get = (executeEach s.get commands).2 := by
  induction requests generalizing s commands with
  | nil =>
      obtain rfl := List.map_eq_nil_iff.mp hrequests.symm
      exact ⟨s, rfl, rfl⟩
  | cons request requests ih =>
      obtain ⟨c, cs, rfl, hcommand, hrequests⟩ := List.map_eq_cons_iff.mp hrequests.symm
      have hcommand := hcommand.symm
      obtain ⟨s₁, hreplies, hget⟩ := refines client
        (Command.pushesSome_of_ofRequest hcommand) hnone (hsized [] (List.nil_prefix))
      have hget : s₁.get = (c.execute s.get).2 := by
        funext key
        rw [hget, execute_apply]
      have hrest := ih hrequests.symm (hget ▸ noneEmpty_execute hnone c) fun done hdone =>
        hget ▸ hsized (c :: done) (List.cons_prefix_cons.mpr ⟨rfl, hdone⟩)
      obtain ⟨s', hserve, hget'⟩ := hrest
      refine ⟨s', ?_, hget' ▸ hget ▸ rfl⟩
      have hhandle : Handler.normal.handle request = perform c.command := by
        rw [handle, hcommand]
      rw [Handler.serveEach, hhandle]
      simp only [hreplies.value, hreplies.store, hserve]
      rw [executeEach, ← hget]
      rfl

/-- A store with a byte string under one key. -/
def labelled : Store Subscriber := Store.empty.put [108] (.bytes [108])

/-- Commands on two keys, one of which holds a byte string. -/
def draining : List ListCommand :=
  [.push .tail [107] [[97], [98], [99]], .push .head [107] [[120], [121]],
    .pop .tail [107] (some 2), .range [107] 0 (-1), .pop .head [107] none, .element [107] (-1),
    .pop .tail [107] (some 5), .length [107], .pop .head [107] (some 0), .push .head [108] [[97]],
    .pop .tail [108] (some (-1))]

/-- What a client sends for them. -/
def drainingRequests : List Request :=
  [⟨Bytes.ofString "RPUSH", [[107], [97], [98], [99]]⟩,
    ⟨Bytes.ofString "LPUSH", [[107], [120], [121]]⟩,
    ⟨Bytes.ofString "RPOP", [[107], [50]]⟩,
    ⟨Bytes.ofString "LRANGE", [[107], [48], [45, 49]]⟩,
    ⟨Bytes.ofString "LPOP", [[107]]⟩,
    ⟨Bytes.ofString "LINDEX", [[107], [45, 49]]⟩,
    ⟨Bytes.ofString "RPOP", [[107], [53]]⟩,
    ⟨Bytes.ofString "LLEN", [[107]]⟩,
    ⟨Bytes.ofString "LPOP", [[107], [48]]⟩,
    ⟨Bytes.ofString "LPUSH", [[108], [97]]⟩,
    ⟨Bytes.ofString "RPOP", [[108], [45, 49]]⟩]

/-- The replies to a client that fills a list and drains it again, and is refused by another key. -/
theorem serveEach_refines_draining :
    ∃ replies s', Handler.normal.serveEach 0 labelled drainingRequests = .ok (replies, s') ∧
      replies.map Reply.encode = [":3\r\n", ":5\r\n", "*2\r\n$1\r\nc\r\n$1\r\nb\r\n",
        "*3\r\n$1\r\ny\r\n$1\r\nx\r\n$1\r\na\r\n", "$1\r\ny\r\n", "$1\r\na\r\n",
        "*2\r\n$1\r\na\r\n$1\r\nx\r\n", ":0\r\n", "*-1\r\n",
        "-WRONGTYPE Operation against a key holding the wrong kind of value\r\n",
        "-ERR value is out of range, must be positive\r\n"].map Bytes.ofString ∧
      s'.get [107] = none ∧ s'.get [108] = some (.bytes [108]) := by
  have hlist (key : Bytes) (items : List Bytes) : labelled.get key ≠ some (.list items) := by
    rw [labelled, Store.get, Store.getElem?_entries_put]
    intro hget
    split at hget
    · cases hget
    · cases hget
  obtain ⟨s', hserve, hheld⟩ := @serveEach_refines 0 labelled drainingRequests draining
    (by decide +kernel) (fun key => hlist key [])
    (sized_executeEach 0 (fun key items h => absurd h (hlist key items)) (by decide))
  refine ⟨_, s', hserve, by decide +kernel, ?_, ?_⟩
  · rw [hheld]
    decide +kernel
  · rw [hheld]
    decide +kernel

end ListCommand

end RespStore
