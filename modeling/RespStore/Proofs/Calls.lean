import RespStore.Proofs.Apply
import RespStore.Proofs.Conversation

/-!
# Which calls commands make

A task asks the store one thing after another, and the answers decide how it goes on. What it asks
for is limited all the same: whatever the answers are, the calls of a command are of a kind that its
arguments tell.

* `Task.Calls` says that all calls of a task are of a kind. There is one rule for each way in which
  tasks are put together.
* `Command.Makes` says which calls a command makes, and `Handler.calls_perform` that it makes no
  others.
* `Command.keys` are the keys that a command names, `Command.targets` those that it may change. Its
  calls are about the former (`Command.Makes.on`), and leave alone what is not among the latter
  (`Command.Makes.keeps`).
-/

namespace RespStore

/-- Whether all calls of a task are of a kind, whatever they are answered. -/
def Task.Calls {α : Type} (p : Call → Prop) : Task α → Prop
  | .done _ => True
  | .call _ q next => p q ∧ ∀ answer, (next answer).Calls p
  | .aside next => next.Calls p

namespace Task

variable {α β ε : Type} {p p' : Call → Prop}

/-- Calls of one kind are calls of every wider kind. -/
theorem Calls.imp {task : Task α} (h : task.Calls p) (himp : ∀ q, p q → p' q) : task.Calls p' := by
  induction task with
  | done value => exact trivial
  | call owned q next ih => exact ⟨himp q h.1, fun answer => ih answer (h.2 answer)⟩
  | aside next ih => exact ih h

/-- A task that is silent makes silent calls only. -/
theorem Silent.calls {task : Task α} (h : task.Silent) : task.Calls Call.IsSilent := by
  induction task with
  | done value => exact trivial
  | call owned q next ih => exact ⟨h.1, fun answer => ih answer (h.2 answer)⟩
  | aside next ih => exact ih h

/-- A task that goes on with another one makes the calls of both. -/
theorem calls_bind {task : Task α} {f : α → Task β} (h : task.Calls p)
    (hf : ∀ value, (f value).Calls p) : (task >>= f).Calls p := by
  change (task.bind f).Calls p
  induction task with
  | done value => exact hf value
  | call owned q next ih => exact ⟨h.1, fun answer => ih answer (h.2 answer)⟩
  | aside next ih => exact ih h

/-- Work that may fail makes the calls of its first part, and those of its second part if the first
one succeeds. -/
theorem calls_run_bind {work : ExceptT ε Task α} {f : α → ExceptT ε Task β}
    (h : work.run.Calls p) (hf : ∀ value, (f value).run.Calls p) : (work >>= f).run.Calls p := by
  refine calls_bind h fun result => ?_
  cases result with
  | error e => exact trivial
  | ok value => exact hf value

/-- A task makes the same calls as work that cannot fail. -/
theorem calls_run_lift {task : Task α} (h : task.Calls p) :
    (ExceptT.lift task : ExceptT ε Task α).run.Calls p :=
  calls_bind h fun _ => trivial

end Task

section Actions

open RespStore.Task

variable {p : Call → Prop} {key : Bytes}

/-- Changing a key is one apply of it. -/
theorem Action.calls_apply {transform : Transform} (h : p (.apply key transform)) :
    (Action.apply key transform).run.Calls p := by
  refine calls_run_bind (calls_run_lift ⟨h, fun _ => trivial⟩) fun answer => ?_
  cases answer with
  | _ => exact trivial

/-- Reading a key is one call for its value. -/
theorem Action.calls_get (h : p (.get key)) : (Action.get key).run.Calls p := by
  refine calls_run_bind (calls_run_lift ⟨h, fun _ => trivial⟩) fun answer => ?_
  cases answer with
  | _ => exact trivial

/-- What a list operation asks for is what the action made of it asks for. -/
theorem Action.calls_ofList {α : Type} {operation : ListMap.Operation α}
    (h : operation.run.Calls p) : (Action.ofList operation).run.Calls p := by
  refine calls_run_bind (calls_run_lift h) fun answer => ?_
  cases answer with
  | _ => exact trivial

/-- A list operation that changes or reads a list through a transform asks for one apply of the
key. -/
theorem ListMap.calls_applied {α : Type} {transform : Transform} {read? : Output → Option α}
    (h : p (.apply key transform)) : (ListMap.applied key transform read?).run.Calls p := by
  refine calls_run_bind (calls_run_lift ⟨h, fun _ => trivial⟩) fun answer => ?_
  cases answer with
  | error e => exact trivial
  | ok output =>
      dsimp only
      split
      · exact trivial
      · exact trivial

/-- The length of a list is found by reading its key. -/
theorem ListMap.calls_size (h : p (.get key)) : (ListMap.size key).run.Calls p := by
  refine calls_run_bind (calls_run_lift ⟨h, fun _ => trivial⟩) fun answer => ?_
  split
  · exact trivial
  · exact trivial
  · exact trivial
  · exact trivial

/-- A pop with a negative count asks for nothing. -/
theorem ListMap.calls_poll (side : ListEnd) {count : Int64}
    (h : ¬ count < 0 → p (.apply key (.poll side count.toNatClampNeg))) :
    (ListMap.poll key side count).run.Calls p := by
  rw [ListMap.poll]
  split
  · exact trivial
  · rename_i hcount
    exact ListMap.calls_applied (h hcount)

/-- Keys are removed by one apply each. -/
theorem Execution.calls_removeEach (count : Nat) {keys : List Bytes}
    (h : ∀ key ∈ keys, p (.apply key .remove)) :
    (Execution.removeEach count keys).run.Calls p := by
  induction keys generalizing count with
  | nil => exact trivial
  | cons first keys ih =>
      obtain ⟨hfirst, hkeys⟩ := List.forall_mem_cons.mp h
      exact calls_run_bind (Action.calls_apply hfirst) fun _ => ih _ hkeys

/-- An operand is found by reading its key. -/
theorem Execution.calls_operand (h : p (.get key)) : (Execution.operand key).run.Calls p := by
  refine calls_run_bind (Action.calls_get h) fun value => ?_
  cases value with
  | none => exact trivial
  | some value =>
      cases value with
      | _ => exact trivial

/-- A comparison of two values reads one key after the other. -/
theorem Execution.calls_lcs {query : LcsQuery} (h₁ : p (.get query.key₁))
    (h₂ : p (.get query.key₂)) : (Execution.lcs query).run.Calls p := by
  refine calls_run_bind (Execution.calls_operand h₁) fun a => ?_
  refine calls_run_bind (Execution.calls_operand h₂) fun b => ?_
  refine calls_run_bind (calls_run_lift trivial) fun _ => ?_
  split
  · exact trivial
  · dsimp only
    split
    · exact trivial
    · split
      · exact trivial
      · exact trivial

/-- Settings are answered without asking the store. -/
theorem Execution.calls_config (subcommand parameter : String) :
    (Execution.config subcommand parameter).run.Calls p := by
  rw [Execution.config]
  split
  · split
    · exact trivial
    · exact trivial
  · split
    · exact trivial
    · exact trivial

/-- What an action asks for is what the command that it carries out asks for. -/
theorem Handler.calls_answer {action : Action Reply} (h : action.run.Calls p) :
    (answer action).Calls p := by
  refine calls_bind h fun result => ?_
  cases result with
  | ok reply => exact trivial
  | error failure =>
      cases failure with
      | _ => exact trivial

end Actions

/-! ### Commands -/

/-- Whether a command may make a call. -/
def Command.Makes (command : Command) (q : Call) : Prop :=
  match command with
  | .del keys => ∃ key ∈ keys, q = .apply key .remove
  | .get key => q = .get key
  | .incrByFloat key increment => q = .apply key (.increment increment)
  | .lcs query => q = .get query.key₁ ∨ q = .get query.key₂
  | .set key value => q = .apply key (.put value)
  | .lindex key index => q = .apply key (.index index)
  | .llen key => q = .get key
  | .pop side key count =>
    ¬ count.getD 1 < 0 ∧ q = .apply key (.poll side (count.getD 1).toNatClampNeg)
  | .push side key values => q = .apply key (.offer values side)
  | .lrange key start stop => q = .apply key (.sublist start stop)
  | .publish channel message => q = .apply channel (.put message)
  | .subscribe _ => q.IsSilent
  | .unsubscribe _ => q.IsSilent
  | _ => False

namespace Handler

open RespStore.Task

/-- A command makes no other calls. -/
theorem calls_perform (command : Command) : (perform command).Calls command.Makes := by
  cases command with
  | del keys =>
      exact calls_answer (calls_run_bind (Execution.calls_removeEach 0 fun key hkey =>
        ⟨key, hkey, rfl⟩) fun _ => trivial)
  | get key =>
      refine calls_answer (calls_run_bind (Action.calls_get rfl) fun value => ?_)
      cases value with
      | none => exact trivial
      | some value =>
          cases value with
          | _ => exact trivial
  | incrByFloat key increment =>
      refine calls_answer (calls_run_bind (Action.calls_apply rfl) fun output => ?_)
      cases output with
      | _ => exact trivial
  | lcs query => exact calls_answer (Execution.calls_lcs (.inl rfl) (.inr rfl))
  | set key value => exact calls_answer (calls_run_bind (Action.calls_apply rfl) fun _ => trivial)
  | lindex key index =>
      exact calls_answer (calls_run_bind (Action.calls_ofList (ListMap.calls_applied rfl))
        fun _ => trivial)
  | llen key =>
      exact calls_answer (calls_run_bind (Action.calls_ofList (ListMap.calls_size rfl))
        fun _ => trivial)
  | pop side key count =>
      refine calls_answer (calls_run_bind (Action.calls_ofList
        (ListMap.calls_poll side fun hcount => ⟨hcount, rfl⟩)) fun taken => ?_)
      split
      · exact trivial
      · exact trivial
      · exact trivial
  | push side key values =>
      exact calls_answer (calls_run_bind (Action.calls_ofList (ListMap.calls_applied rfl))
        fun _ => trivial)
  | lrange key start stop =>
      exact calls_answer (calls_run_bind (Action.calls_ofList (ListMap.calls_applied rfl))
        fun _ => trivial)
  | publish channel message =>
      exact calls_answer (calls_run_bind (Action.calls_apply rfl) fun _ => trivial)
  | subscribe channels => exact ((Registry.silent_subscribe ∅ [] channels).map _).calls
  | unsubscribe channels => exact ((Registry.silent_unsubscribe ∅ channels).map _).calls
  | config subcommand parameter => exact calls_answer (Execution.calls_config subcommand parameter)
  | _ => exact trivial

end Handler

/-! ### Keys -/

/-- The keys that a command names. -/
def Command.keys : Command → List Bytes
  | .del keys => keys
  | .get key => [key]
  | .incrByFloat key _ => [key]
  | .lcs query => [query.key₁, query.key₂]
  | .set key _ => [key]
  | .lindex key _ => [key]
  | .llen key => [key]
  | .pop _ key _ => [key]
  | .push _ key _ => [key]
  | .lrange key _ _ => [key]
  | .publish channel _ => [channel]
  | _ => []

/-- The keys that a command may change. -/
def Command.targets : Command → List Bytes
  | .del keys => keys
  | .incrByFloat key _ => [key]
  | .set key _ => [key]
  | .pop _ key _ => [key]
  | .push _ key _ => [key]
  | .publish channel _ => [channel]
  | _ => []

/-- A command names every key that it may change. -/
theorem Command.mem_keys_of_target {command : Command} {key : Bytes} (h : key ∈ command.targets) :
    key ∈ command.keys := by
  cases command with
  | del _ | incrByFloat _ _ | set _ _ | pop _ _ _ | push _ _ _ | publish _ _ => exact h
  | _ => cases h

/-- Whether a call reads or changes one of these keys. -/
def Call.On (keys : List Bytes) : Call → Prop
  | .get key => key ∈ keys
  | .apply key _ => key ∈ keys
  | _ => False

/-- A command that does not change subscriptions makes calls about the keys that it names. -/
theorem Command.Makes.on {command : Command} {q : Call} (h : command.Makes q)
    (hsubscribe : ∀ channels, command ≠ .subscribe channels)
    (hunsubscribe : ∀ channels, command ≠ .unsubscribe channels) : q.On command.keys := by
  cases command with
  | del keys =>
      obtain ⟨key, hmem, rfl⟩ := h
      exact hmem
  | get key | llen key =>
      obtain rfl : q = .get key := h
      exact List.mem_singleton_self key
  | lcs query =>
      rcases h with rfl | rfl
      · exact List.mem_cons_self
      · exact List.mem_cons_of_mem _ List.mem_cons_self
  | pop side key count =>
      obtain ⟨-, rfl⟩ := h
      exact List.mem_singleton_self key
  | incrByFloat key _ | set key _ | lindex key _ | push _ key _ | lrange key _ _ | publish key _ =>
      cases h
      exact List.mem_singleton_self key
  | subscribe channels => exact absurd rfl (hsubscribe channels)
  | unsubscribe channels => exact absurd rfl (hunsubscribe channels)
  | _ => exact h.elim

/-- Whether a call leaves a key alone. -/
def Call.Keeps (key : Bytes) : Call → Prop
  | .apply key' transform => key' = key → ∀ held, transform.writes held = false
  | _ => True

/-- A silent call applies nothing, so that it leaves every key alone. -/
theorem Call.IsSilent.keeps {q : Call} (h : q.IsSilent) (key : Bytes) : q.Keeps key := by
  cases q with
  | apply key' transform => exact h.elim
  | _ => exact trivial

/-- Looking an element up changes nothing, whatever the key holds. -/
theorem Transform.index_writes (offset : Int64) (held : Option Value) :
    (Transform.index offset).writes held = false := by
  rcases held with _ | (content | items)
  · rfl
  · rfl
  · rfl

/-- Reading a part of a list changes nothing, whatever the key holds. -/
theorem Transform.sublist_writes (first last : Int64) (held : Option Value) :
    (Transform.sublist first last).writes held = false := by
  rcases held with _ | (content | items)
  · rfl
  · rfl
  · rfl

/-- The calls of a command leave every key alone that is not among its targets. -/
theorem Command.Makes.keeps {command : Command} {q : Call} {key : Bytes} (h : command.Makes q)
    (hkey : key ∉ command.targets) : q.Keeps key := by
  cases command with
  | del keys =>
      obtain ⟨key', hmem, rfl⟩ := h
      exact fun heq => absurd (heq ▸ hmem) hkey
  | incrByFloat key' increment =>
      obtain rfl : q = .apply key' (.increment increment) := h
      exact fun heq => absurd (List.mem_singleton.mpr heq.symm) hkey
  | set key' value =>
      obtain rfl : q = .apply key' (.put value) := h
      exact fun heq => absurd (List.mem_singleton.mpr heq.symm) hkey
  | publish channel message =>
      obtain rfl : q = .apply channel (.put message) := h
      exact fun heq => absurd (List.mem_singleton.mpr heq.symm) hkey
  | push side key' values =>
      obtain rfl : q = .apply key' (.offer values side) := h
      exact fun heq => absurd (List.mem_singleton.mpr heq.symm) hkey
  | pop side key' count =>
      obtain ⟨-, rfl⟩ := h
      exact fun heq => absurd (List.mem_singleton.mpr heq.symm) hkey
  | lindex key' index =>
      obtain rfl : q = .apply key' (.index index) := h
      exact fun _ => Transform.index_writes index
  | lrange key' start stop =>
      obtain rfl : q = .apply key' (.sublist start stop) := h
      exact fun _ => Transform.sublist_writes start stop
  | get key' | llen key' =>
      obtain rfl : q = .get key' := h
      exact trivial
  | lcs query =>
      rcases h with rfl | rfl
      · exact trivial
      · exact trivial
  | subscribe channels | unsubscribe channels => exact Call.IsSilent.keeps h key
  | _ => exact h.elim

end RespStore
