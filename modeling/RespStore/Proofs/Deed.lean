import RespStore.Proofs.Calls
import RespStore.Proofs.ListCommands

/-!
# What pushes and pops do to one list

A push or a pop makes a single call, and the store carries it out in one apply. So whatever several
clients ask for, one thing is done to a list after another. This module says what can be done to the
list of a key, and by which requests.

* `Deed` is one thing that is done: values are pushed, or elements are popped. `Deed.Turns` says
  which list it makes of which.
* `Deed.TurnsEach.perm` and `Deed.TurnsEach.queues` are about deeds one after the other: nothing is
  lost, nothing is there twice, and in a queue the order stays.
* `Handler.answer_of_deals` says that a push or a pop does one deed, and replies what the deed says.
* `Handler.spares_perform` says that other requests leave the list alone, except for those that may
  overwrite the key.
-/

namespace RespStore

/-! ### The list of a key -/

/-- Whether a key that holds this has a list with these elements. An absent key has one without
elements. -/
def Lists : Option Value → List Bytes → Prop
  | none, items => items = []
  | some (.list found), items => found = items
  | some (.bytes _), _ => False

/-- The elements of the list that a key has, if it has one. -/
def itemsOf : Option Value → List Bytes
  | some (.list items) => items
  | _ => []

/-- The elements of a list that is there are read off what the key holds. -/
theorem Lists.itemsOf_eq {held : Option Value} {items : List Bytes} (h : Lists held items) :
    itemsOf held = items := by
  cases held with
  | none => exact h.symm
  | some value =>
      cases value with
      | bytes content => exact h.elim
      | list found => exact h

/-- What was done to the list of a key. -/
inductive Deed where
  /-- Values were pushed, one after the other. Then the list had this length. -/
  | pushed (side : ListEnd) (values : List Bytes) (length : Nat)
  /-- Elements were popped, of which the store answered these, from head to tail. It answered none
  when there was no list. -/
  | popped (side : ListEnd) (count : Option Int64) (taken : Option (List Bytes))
  deriving Repr, DecidableEq

namespace Deed

/-- The values that were pushed, in order. -/
def added : Deed → List Bytes
  | .pushed _ values _ => values
  | .popped _ _ _ => []

/-- The elements that were popped, in the order in which they were. -/
def removed : Deed → List Bytes
  | .pushed _ _ _ => []
  | .popped side _ taken => (taken.map (Execution.inOrderOf side)).getD []

/-- The command for which it was done. -/
def command (key : Bytes) : Deed → Command
  | .pushed side values _ => .push side key values
  | .popped side count _ => .pop side key count

/-- The reply to that command. -/
def reply : Deed → Reply
  | .pushed _ _ length => .count length
  | .popped side count taken => ListCommand.replyTo side count taken

/-- Whether it is what is done to a queue: values come in at the tail, and leave at the head. -/
def Queues : Deed → Prop
  | .pushed side _ _ => side = .tail
  | .popped side _ _ => side = .head

/-- Whether it makes one list of another, as single pushes or pops do. -/
def Turns (items items' : List Bytes) : Deed → Prop
  | .pushed side values length =>
    items' = Deque.pushEach side items values ∧ length = items'.length
  | .popped side count taken =>
    ((taken.map (Execution.inOrderOf side)).getD [], items') =
      Deque.popEach side (count.getD 1).toNatClampNeg items

variable {d : Deed} {items items' : List Bytes}

/-- Nothing is lost, and nothing is there twice. -/
theorem Turns.perm (h : d.Turns items items') : (items ++ d.added).Perm (d.removed ++ items') := by
  cases d with
  | pushed side values length =>
      obtain ⟨rfl, -⟩ := h
      exact (Deque.perm_pushEach side items values).symm
  | popped side count taken =>
      obtain ⟨htaken, hrest⟩ := Prod.mk.inj h
      rw [added, removed, htaken, hrest, List.append_nil]
      exact (Deque.perm_popEach side _ items).symm

/-- In a queue the order stays: what is added goes behind what is there, and the front leaves. -/
theorem Turns.queues (h : d.Turns items items') (hqueues : d.Queues) :
    items ++ d.added = d.removed ++ items' := by
  cases d with
  | pushed side values length =>
      obtain ⟨rfl, -⟩ := h
      obtain rfl : side = .tail := hqueues
      exact ListValue.offer_eq_pushEach .tail items values
  | popped side count taken =>
      obtain rfl : side = .head := hqueues
      have hpop := h.trans (Deque.popEach_head _ items)
      obtain ⟨htaken, hrest⟩ := Prod.mk.inj hpop
      rw [added, removed, htaken, hrest, List.append_nil, List.take_append_drop]

/-- All the values that were pushed, one deed after the other. -/
def addedBy (ds : List Deed) : List Bytes := ds.flatMap added

/-- All the elements that were popped, one deed after the other. -/
def removedBy (ds : List Deed) : List Bytes := ds.flatMap removed

/-- Whether deeds make one list of another, one after the other. -/
def TurnsEach : List Deed → List Bytes → List Bytes → Prop
  | [], items, items' => items' = items
  | d :: ds, items, items' => ∃ mid, d.Turns items mid ∧ TurnsEach ds mid items'

variable {ds more : List Deed} {mid : List Bytes}

/-- Deeds make one list of another in two parts, if each part does its share. -/
theorem TurnsEach.append (h : TurnsEach ds items mid) (hmore : TurnsEach more mid items') :
    TurnsEach (ds ++ more) items items' := by
  induction ds generalizing items with
  | nil =>
      obtain rfl : mid = items := h
      exact hmore
  | cons d ds ih =>
      obtain ⟨next, hturns, h⟩ := h
      exact ⟨next, hturns, ih h⟩

/-- Between two parts of what was done, there is a list that the first part has made. -/
theorem TurnsEach.split (h : TurnsEach (ds ++ more) items items') :
    ∃ mid, TurnsEach ds items mid ∧ TurnsEach more mid items' := by
  induction ds generalizing items with
  | nil => exact ⟨items, rfl, h⟩
  | cons d ds ih =>
      obtain ⟨next, hturns, h⟩ := h
      obtain ⟨mid, hds, hmore⟩ := ih h
      exact ⟨mid, ⟨next, hturns, hds⟩, hmore⟩

/-- Nothing is lost, and nothing is there twice, whatever is done. Induction on the deeds. -/
theorem TurnsEach.perm (h : TurnsEach ds items items') :
    (items ++ addedBy ds).Perm (removedBy ds ++ items') := by
  induction ds generalizing items with
  | nil =>
      obtain rfl : items' = items := h
      rw [addedBy, removedBy, List.flatMap_nil, List.flatMap_nil, List.append_nil, List.nil_append]
  | cons d ds ih =>
      obtain ⟨next, hturns, h⟩ := h
      have hfirst := hturns.perm.append_right (addedBy ds)
      have hrest := (ih h).append_left d.removed
      rw [List.append_assoc, List.append_assoc] at hfirst
      rw [← List.append_assoc d.removed (removedBy ds)] at hrest
      exact hfirst.trans hrest

/-- In a queue the order stays. Induction on the deeds. -/
theorem TurnsEach.queues (h : TurnsEach ds items items') (hqueues : ∀ d ∈ ds, d.Queues) :
    items ++ addedBy ds = removedBy ds ++ items' := by
  induction ds generalizing items with
  | nil =>
      obtain rfl : items' = items := h
      exact List.append_nil _
  | cons d ds ih =>
      obtain ⟨next, hturns, h⟩ := h
      obtain ⟨hfirst, hrest⟩ := List.forall_mem_cons.mp hqueues
      calc items ++ addedBy (d :: ds)
        _ = items ++ d.added ++ addedBy ds := (List.append_assoc _ _ _).symm
        _ = d.removed ++ (next ++ addedBy ds) := by rw [hturns.queues hfirst, List.append_assoc]
        _ = d.removed ++ (removedBy ds ++ items') := by rw [ih h hrest]
        _ = removedBy (d :: ds) ++ items' := (List.append_assoc _ _ _).symm

/-- A push says how long the list is behind it. -/
theorem TurnsEach.length_pushed {front behind : List Deed} {side : ListEnd} {values : List Bytes}
    {length : Nat}
    (h : TurnsEach (front ++ .pushed side values length :: behind) items items') :
    length + (removedBy front).length =
      items.length + (addedBy front).length + values.length := by
  obtain ⟨mid, hfront, next, hturns, -⟩ := h.split
  have hbefore := hfront.perm.length_eq
  have hpush := hturns.perm.length_eq
  have hlength : length = next.length := hturns.2
  rw [List.length_append, List.length_append] at hbefore hpush
  have hadded : (Deed.pushed side values length).added = values := rfl
  have hremoved : (Deed.pushed side values length).removed = [] := rfl
  rw [hadded, hremoved, List.length_nil] at hpush
  omega

end Deed

/-! ### Commands that deal with a list -/

/-- Whether a reply refuses a command, which it does when the connection is a subscriber. -/
def Reply.refuses (command : Command) : Reply → Bool
  | .error text => text = Handler.refusal command
  | _ => false

namespace Command

/-- Whether a command pushes to the list of a key, or pops from it. A pop with a negative count does
neither. -/
def deals (key : Bytes) : Command → Bool
  | .push _ key' _ => key' = key
  | .pop _ key' count => key' = key ∧ ¬ count.getD 1 < 0
  | _ => false

/-- Whether a command may put something else than a list under a key, or take away what is there. -/
def overwrites (key : Bytes) : Command → Bool
  | .set key' _ => key' = key
  | .publish channel _ => channel = key
  | .incrByFloat key' _ => key' = key
  | .del keys => key ∈ keys
  | _ => false

/-- What was done for a command, when its apply had this outcome. -/
def deed? (key : Bytes) (outcome : Outcome Subscriber) : Command → Option Deed
  | .push side _ values =>
    some (.pushed side values (itemsOf (outcome.store.get key)).length)
  | .pop side _ count =>
    match outcome.result with
    | .ok (.elements taken) => some (.popped side count taken)
    | _ => none
  | _ => none

end Command

/-! ### Tasks that spare a list -/

/-- Whether a transform leaves lists alone. -/
def Transform.Spares (transform : Transform) : Prop :=
  ∀ held items, Lists held items → transform.writes held = false

/-- Whether a call leaves the list of a key alone. -/
def Call.Spares (key : Bytes) : Call → Prop
  | .apply key' transform => key' = key → transform.Spares
  | _ => True

/-- A call that leaves a key alone leaves its list alone. -/
theorem Call.Keeps.spares {key : Bytes} {q : Call} (h : q.Keeps key) : q.Spares key := by
  cases q with
  | apply key' transform => exact fun heq held _ _ => h heq held
  | _ => exact trivial

/-- Whether a task leaves the list of a key alone, whatever its calls are answered. -/
def Task.Spares {α : Type} (key : Bytes) : Task α → Prop
  | .done _ => True
  | .call _ q next => q.Spares key ∧ ∀ answer, (next answer).Spares key
  | .aside next => next.Spares key

namespace Task

variable {α : Type} {key : Bytes}

/-- A task leaves the list of a key alone if all its calls do. -/
theorem Calls.spares {p : Call → Prop} {task : Task α} (h : task.Calls p)
    (hp : ∀ q, p q → q.Spares key) : task.Spares key := by
  induction task with
  | done value => exact trivial
  | call owned q next ih => exact ⟨hp q h.1, fun answer => ih answer (h.2 answer)⟩
  | aside next ih => exact ih h

/-- A task that never changes a key leaves the list of every key alone. -/
theorem Silent.spares {task : Task α} (h : task.Silent) : task.Spares key :=
  h.calls.spares fun _ hq => (hq.keeps key).spares

end Task

section Commands

variable {key : Bytes} {command : Command} {q : Call}

/-- A command that neither deals with the list of a key nor overwrites it does not have the key
among its targets, if it makes a call at all. -/
theorem Command.Makes.not_target (h : command.Makes q) (hdeals : command.deals key = false)
    (hkeeps : command.overwrites key = false) : key ∉ command.targets := by
  intro hkey
  cases command with
  | del keys => exact of_decide_eq_false hkeeps hkey
  | incrByFloat _ _ | set _ _ | publish _ _ =>
      exact of_decide_eq_false hkeeps (List.mem_singleton.mp hkey).symm
  | push side _ values => exact of_decide_eq_false hdeals (List.mem_singleton.mp hkey).symm
  | pop side _ count =>
      exact of_decide_eq_false hdeals ⟨(List.mem_singleton.mp hkey).symm, h.1⟩
  | _ => cases hkey

/-- A command that neither deals with the list of a key nor overwrites it leaves it alone. -/
theorem Handler.spares_perform (hdeals : command.deals key = false)
    (hkeeps : command.overwrites key = false) : (perform command).Spares key :=
  (calls_perform command).spares fun _ hmakes =>
    (hmakes.keeps (hmakes.not_target hdeals hkeeps)).spares

end Commands

/-! ### The call of a push or a pop -/

section Calls

variable {key : Bytes} {held : Option Value} {items : List Bytes}

/-- A push finds a list, or none, and leaves the one with the values pushed, one after the other. -/
theorem Transform.offer_of_lists (h : Lists held items) (side : ListEnd) (values : List Bytes) :
    Transform.offer values side held =
      .ok ⟨.put (.list (Deque.pushEach side items values)),
        .size (Deque.pushEach side items values).length⟩ := by
  rw [← ListValue.offer_eq_pushEach]
  cases held with
  | none =>
      obtain rfl : items = [] := h
      rfl
  | some value =>
      cases value with
      | bytes content => exact h.elim
      | list found =>
          obtain rfl : found = items := h
          rfl

/-- What holds elements for a command is a list with these elements, or an absent key. -/
theorem lists_holding (items : List Bytes) : Lists (ListCommand.holding items) items := by
  rw [ListCommand.holding]
  split
  · assumption
  · rfl

/-- A pop takes what single pops would take, and leaves the list that they would leave. -/
theorem Transform.poll_of_lists (h : Lists held items) (side : ListEnd) (n : Nat) :
    ∃ update taken, Transform.poll side n held = .ok ⟨update, .elements taken⟩ ∧
      (taken.map (Execution.inOrderOf side)).getD [] = (Deque.popEach side n items).1 ∧
      Lists (update.leaves held) (Deque.popEach side n items).2 := by
  by_cases hempty : items = []
  · subst hempty
    rw [Deque.popEach_nil]
    cases held with
    | none => exact ⟨.keep, none, rfl, rfl, rfl⟩
    | some value =>
        cases value with
        | bytes content => exact h.elim
        | list found =>
            obtain rfl : found = [] := h
            have hreverse : Execution.inOrderOf side [] = [] := by
              cases side with
              | _ => rfl
            by_cases hzero : n = 0
            · subst hzero
              exact ⟨.keep, some [], rfl, hreverse, rfl⟩
            · refine ⟨.remove, some [], ?_, hreverse, rfl⟩
              simp only [Transform.poll, Transform.listOf, if_neg hzero]
              cases side with
              | _ => rfl
  · cases held with
    | none => exact absurd h hempty
    | some value =>
        cases value with
        | bytes content => exact h.elim
        | list found =>
            obtain rfl : found = items := h
            obtain ⟨update, hpoll, hleaves⟩ := ListCommand.poll_of_ne_nil hempty side n
            have hpop := ListValue.poll_eq_popEach side n found
            exact ⟨update, _, hpoll, congrArg Prod.fst hpop, hleaves ▸ lists_holding _⟩

end Calls

/-- A command that deals with the list of a key asks the store. -/
theorem Handler.perform_of_deals {key : Bytes} {command : Command}
    (hdeals : command.deals key = true) :
    ∃ owned q next, perform command = .call owned q next := by
  cases command with
  | push side key' values => exact ⟨_, _, _, rfl⟩
  | pop side key' count =>
      rw [ListCommand.perform_pop side key' (of_decide_eq_true hdeals).2]
      exact ⟨_, _, _, rfl⟩
  | _ => exact nomatch hdeals

/-- A command that deals with the list of a key makes one call. When the store has answered it, the
list is turned as the command says, and the reply is known. -/
theorem Handler.answer_of_deals {key : Bytes} {command : Command}
    (hdeals : command.deals key = true) {owned : Registry} {q : Call}
    {next : q.Answer → Task (Except Fatal Completion)}
    (htask : perform command = .call owned q next) {s : Store Subscriber} {items : List Bytes}
    (h : Lists (s.get key) items) (client : Nat) :
    ∃ transform deed items', q = .apply key transform ∧
      command.deed? key (s.apply key transform) = some deed ∧ deed.command key = command ∧
      Lists ((s.react client q none).store.get key) items' ∧ deed.Turns items items' ∧
      next (s.react client q none).answer =
        .done (.ok { handler := .normal, reply := deed.reply }) := by
  cases command with
  | push side key' values =>
      obtain rfl : key' = key := of_decide_eq_true hdeals
      have hoffer := Transform.offer_of_lists h side values
      have happly := Store.apply_of_ok hoffer
      have hlists : Lists ((s.apply key' (.offer values side)).store.get key')
          (Deque.pushEach side items values) := by
        rw [happly, Store.get_commit, if_pos rfl]
        rfl
      change Task.call ∅ (.apply key' (.offer values side)) _ = Task.call owned q next at htask
      cases htask
      refine ⟨.offer values side, .pushed side values (Deque.pushEach side items values).length,
        Deque.pushEach side items values, rfl, ?_, rfl, hlists, ⟨rfl, rfl⟩, ?_⟩
      · rw [Command.deed?, hlists.itemsOf_eq]
      · simp only [Store.react, Store.serve, happly]
        rfl
  | pop side key' count =>
      obtain ⟨rfl, hcount⟩ := of_decide_eq_true hdeals
      obtain ⟨update, taken, hpoll, htaken, hleaves⟩ :=
        Transform.poll_of_lists h side (count.getD 1).toNatClampNeg
      have happly := Store.apply_of_ok hpoll
      have hlists : Lists ((s.apply key' (.poll side (count.getD 1).toNatClampNeg)).store.get key')
          (Deque.popEach side (count.getD 1).toNatClampNeg items).2 := by
        rw [happly, Store.get_commit, if_pos rfl]
        exact hleaves
      rw [ListCommand.perform_pop side key' hcount] at htask
      change Task.call ∅ (.apply key' (.poll side (count.getD 1).toNatClampNeg)) _ =
        Task.call owned q next at htask
      cases htask
      refine ⟨.poll side (count.getD 1).toNatClampNeg, .popped side count taken, _, rfl, ?_, rfl,
        hlists, Prod.ext htaken rfl, ?_⟩
      · rw [Command.deed?, happly]
      · simp only [Store.react, Store.serve, happly]
        rfl
  | _ => cases hdeals

/-- The reply to a push or a pop is never a refusal, so it tells what was done. -/
theorem Deed.refuses_reply (d : Deed) (command : Command) : d.reply.refuses command = false := by
  cases d with
  | pushed side values length => rfl
  | popped side count taken =>
      cases count with
      | none =>
          change Reply.refuses command
            (.optional ((taken.map (Execution.inOrderOf side)).bind List.head?)) = false
          cases (taken.map (Execution.inOrderOf side)).bind List.head? with
          | _ => rfl
      | some n =>
          cases taken with
          | _ => rfl

/-- A call that leaves the list of a key alone leaves what the key holds alone. -/
theorem Store.get_react_of_spares {key : Bytes} {q : Call} (hspares : q.Spares key)
    {s : Store Subscriber} {items : List Bytes} (h : Lists (s.get key) items) (client : Nat) :
    (s.react client q none).store.get key = s.get key := by
  cases q with
  | apply key' transform =>
      change (s.apply key' transform).store.get key = s.get key
      by_cases heq : key' = key
      · subst heq
        rw [(Store.apply_of_not_writes (hspares rfl _ _ h)).1]
      · rw [Store.get_apply, if_neg (Ne.symm heq)]
  | _ => rfl

end RespStore
