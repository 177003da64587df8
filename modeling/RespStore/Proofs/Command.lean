import RespStore.Command.Parser

/-!
# What readers find

Every command is read by an entry of the command table, so what is true of what each entry finds is
true of every command that a request asks for.

* Some replies repeat what the client sent. `Command.echoed` collects the byte strings that the
  reply to a command can repeat as payloads; `Command.mem_args_of_mem_echoed` finds each of them
  among the arguments of the request.
* `Command.finds_of_mem_table` is for what is checked while a command is read.
  `Command.pushesSome_of_ofRequest`: a request that pushes has something to push.
  `Command.asksOnce_of_ofRequest`: a request that compares asks for one thing only.
-/

namespace RespStore.Command

/-- The byte strings that the reply to a command can repeat as payloads. -/
def echoed : Command → List Bytes
  | .echo message => [message]
  | .ping payload => payload.toList
  | .subscribe channels => channels
  | .unsubscribe channels => channels
  | _ => []

namespace Reader

variable {α β : Type}

/-- To make something of what a reader finds, it must find it. -/
theorem giving_eq_ok {reader : Reader α} {f : α → β} {args rest : List Bytes} {value : β} :
    reader.giving f args = .ok (value, rest) ↔
      ∃ found, reader args = .ok (found, rest) ∧ f found = value := by
  rw [giving]
  cases reader args with
  | error e => simp [Except.map]
  | ok p =>
      obtain ⟨found, left⟩ := p
      simp only [Except.map, Except.ok.injEq, Prod.mk.injEq]
      constructor
      · rintro ⟨hvalue, hrest⟩
        exact ⟨found, ⟨rfl, hrest⟩, hvalue⟩
      · rintro ⟨_, ⟨rfl, hrest⟩, hvalue⟩
        exact ⟨hvalue, hrest⟩

/-- A reader whose value something is made of is refused as it is without that. -/
theorem giving_eq_error {reader : Reader α} {f : α → β} {args : List Bytes} {e : CommandError} :
    reader.giving f args = .error e ↔ reader args = .error e := by
  rw [giving]
  cases reader args with
  | error e => simp [Except.map]
  | ok p => simp [Except.map]

/-- Two readers, one behind the other, find what the second one finds behind the first one. -/
theorem andThen_eq_ok {first : Reader α} {second : α → Reader β} {args rest : List Bytes}
    {value : β} : first.andThen second args = .ok (value, rest) ↔
      ∃ found mid, first args = .ok (found, mid) ∧ second found mid = .ok (value, rest) := by
  rw [andThen]
  cases first args with
  | error e => simp
  | ok p =>
      obtain ⟨found, left⟩ := p
      simp only [Except.ok.injEq, Prod.mk.injEq]
      constructor
      · intro h
        exact ⟨found, left, ⟨rfl, rfl⟩, h⟩
      · rintro ⟨_, _, ⟨rfl, rfl⟩, h⟩
        exact h

/-- Whether a reader finds only commands of a kind. -/
def Finds (p : Command → Prop) (reader : Reader Command) : Prop :=
  ∀ args rest command, reader args = .ok (command, rest) → p command

/-- Whether the commands that a reader finds repeat arguments only. -/
def Faithful (reader : Reader Command) : Prop :=
  ∀ args rest command, reader args = .ok (command, rest) → ∀ b ∈ command.echoed, b ∈ args

section Finds

variable {p : Command → Prop}

/-- A reader finds commands of a kind if that is all that is made of its values. -/
theorem finds_giving {reader : Reader α} {f : α → Command} (h : ∀ value, p (f value)) :
    Finds p (reader.giving f) := by
  intro args rest command hread
  obtain ⟨found, -, rfl⟩ := giving_eq_ok.mp hread
  exact h found

/-- Two readers, one behind the other, find commands of a kind if the second one does. -/
theorem finds_andThen {first : Reader α} {second : α → Reader Command}
    (h : ∀ value, Finds p (second value)) : Finds p (first.andThen second) := by
  intro args rest command hread
  obtain ⟨found, mid, -, hsecond⟩ := andThen_eq_ok.mp hread
  exact h found mid rest command hsecond

/-- A reader that reads nothing finds the one command that it is made for. -/
theorem finds_nothing {command : Command} (h : p command) : Finds p (nothing command) := by
  intro args rest command' hread
  exact (Prod.mk.inj (Except.ok.inj hread)).1 ▸ h

end Finds

/-- A reader that finds only commands that repeat nothing. -/
theorem Finds.faithful {reader : Reader Command} (h : Finds (fun c => c.echoed = []) reader) :
    Faithful reader := by
  intro args rest command hread b hb
  rw [h args rest command hread] at hb
  exact nomatch hb

/-- A reader that finds what a command repeats. -/
theorem faithful_giving {reader : Reader α} {f : α → Command}
    (h : ∀ {args rest : List Bytes} {value : α}, reader args = .ok (value, rest) →
      ∀ b ∈ (f value).echoed, b ∈ args) : Faithful (reader.giving f) := by
  intro args rest command hread
  obtain ⟨found, hfound, rfl⟩ := giving_eq_ok.mp hread
  exact h hfound

end Reader

open Reader

/-- `ECHO` repeats its argument. -/
theorem faithful_echo : Faithful (Reader.bytes.giving .echo) :=
  faithful_giving fun {args rest message} hread b hb => by
    cases args with
    | nil => exact nomatch hread
    | cons arg args =>
        obtain ⟨rfl, -⟩ := Prod.mk.inj (Except.ok.inj hread)
        exact List.mem_singleton.mp hb ▸ List.mem_cons_self

/-- `PING` repeats its argument, if there is one. -/
theorem faithful_ping : Faithful (Reader.bytes.optional.giving .ping) :=
  faithful_giving fun {args rest payload} hread b hb => by
    cases args with
    | nil =>
        obtain ⟨rfl, -⟩ := Prod.mk.inj (Except.ok.inj hread)
        exact nomatch hb
    | cons arg args =>
        obtain ⟨rfl, -⟩ := Prod.mk.inj (Except.ok.inj hread)
        exact List.mem_singleton.mp hb ▸ List.mem_cons_self

/-- `SUBSCRIBE` repeats its channels. -/
theorem faithful_subscribe : Faithful (Reader.someRemaining.giving .subscribe) :=
  faithful_giving fun {args rest channels} hread b hb => by
    cases args with
    | nil => exact nomatch hread
    | cons arg args =>
        obtain ⟨rfl, -⟩ := Prod.mk.inj (Except.ok.inj hread)
        exact hb

/-- `UNSUBSCRIBE` repeats its channels. -/
theorem faithful_unsubscribe : Faithful (Reader.remaining.giving .unsubscribe) :=
  faithful_giving fun {args rest channels} hread b hb => by
    obtain ⟨rfl, -⟩ := Prod.mk.inj (Except.ok.inj hread)
    exact hb

/-- Every entry of the command table repeats arguments only. -/
theorem faithful_of_mem_table : ∀ spec ∈ table, Faithful spec.read := by
  have hsilent : ∀ {α : Type} {reader : Reader α} {f : α → Command},
      (∀ value, (f value).echoed = []) → Faithful (reader.giving f) :=
    fun h => (finds_giving h).faithful
  have hsilent₂ : ∀ {α β : Type} {first : Reader α} {reader : Reader β} {f : α → β → Command},
      (∀ x y, (f x y).echoed = []) →
        Faithful (first.andThen fun value => reader.giving (f value)) :=
    fun h => (finds_andThen fun value => finds_giving (h value)).faithful
  have hsilent₃ : ∀ {α β γ : Type} {first : Reader α} {second : Reader β} {reader : Reader γ}
      {f : α → β → γ → Command}, (∀ x y z, (f x y z).echoed = []) →
        Faithful (first.andThen fun x => second.andThen fun y => reader.giving (f x y)) :=
    fun h => (finds_andThen fun x => finds_andThen fun y => finds_giving (h x y)).faithful
  have hnone : ∀ {command : Command}, command.echoed = [] → Faithful (nothing command) :=
    fun h => (finds_nothing h).faithful
  simp only [table, List.forall_mem_cons]
  refine ⟨hsilent₂ fun _ _ => rfl, hsilent₃ fun _ _ _ => rfl, hsilent fun _ => rfl,
    faithful_echo, hsilent fun _ => rfl, hsilent₂ fun _ _ => rfl, hsilent fun _ => rfl,
    hsilent₂ fun _ _ => rfl, hsilent fun _ => rfl, hsilent₂ fun _ _ => rfl,
    hsilent₂ fun _ _ => rfl, hsilent₃ fun _ _ _ => rfl, faithful_ping, hsilent₂ fun _ _ => rfl,
    hnone rfl, hnone rfl, hnone rfl, hsilent₂ fun _ _ => rfl, hsilent₂ fun _ _ => rfl,
    hsilent₂ fun _ _ => rfl, faithful_subscribe, faithful_unsubscribe, fun _ h => nomatch h⟩

/-- Every entry of the command table finds commands of its name. -/
theorem name_of_mem_table :
    ∀ spec ∈ table, Finds (fun command => command.name = spec.name) spec.read := by
  simp only [table, List.forall_mem_cons]
  refine ⟨finds_andThen fun _ => finds_giving fun _ => rfl,
    finds_andThen fun _ => finds_andThen fun _ => finds_giving fun _ => rfl,
    finds_giving fun _ => rfl, finds_giving fun _ => rfl, finds_giving fun _ => rfl,
    finds_andThen fun _ => finds_giving fun _ => rfl, finds_giving fun _ => rfl,
    finds_andThen fun _ => finds_giving fun _ => rfl, finds_giving fun _ => rfl,
    finds_andThen fun _ => finds_giving fun _ => rfl,
    finds_andThen fun _ => finds_giving fun _ => rfl,
    finds_andThen fun _ => finds_andThen fun _ => finds_giving fun _ => rfl,
    finds_giving fun _ => rfl, finds_andThen fun _ => finds_giving fun _ => rfl,
    finds_nothing rfl, finds_nothing rfl, finds_nothing rfl,
    finds_andThen fun _ => finds_giving fun _ => rfl,
    finds_andThen fun _ => finds_giving fun _ => rfl,
    finds_andThen fun _ => finds_giving fun _ => rfl, finds_giving fun _ => rfl,
    finds_giving fun _ => rfl, fun _ h => nomatch h⟩

/-- The entry of the table that a command was read by. -/
theorem exists_spec_of_ofRequest {request : Request} {command : Command}
    (h : ofRequest request = .ok command) :
    ∃ spec ∈ table, spec.arity.accepts request.args.length = true ∧
      ∃ rest, spec.read request.args = .ok (command, rest) := by
  rw [ofRequest] at h
  cases hlookup : lookup request.name with
  | none =>
      rw [hlookup] at h
      exact nomatch h
  | some spec =>
      rw [hlookup] at h
      simp only at h
      split at h
      · rename_i harity
        cases hread : spec.read request.args with
        | error e =>
            rw [hread] at h
            exact nomatch h
        | ok p =>
            rw [hread] at h
            obtain ⟨found, rest⟩ := p
            obtain rfl : found = command := Except.ok.inj h
            exact ⟨spec, List.mem_of_find?_eq_some hlookup, harity, rest, hread⟩
      · exact nomatch h

/-- No two entries of the table have one name. -/
theorem pairwise_names :
    table.Pairwise fun spec other => Bytes.ofString spec.name ≠ Bytes.ofString other.name := by
  decide +kernel

/-- An entry is found by its name, in any case. -/
theorem lookup_eq_some_iff {name : Bytes} {spec : Spec} :
    lookup name = some spec ↔ spec ∈ table ∧ Bytes.lower name = Bytes.ofString spec.name := by
  rw [lookup, List.find?_eq_some_iff_append, beq_iff_eq]
  constructor
  · rintro ⟨hname, before, behind, htable, -⟩
    exact ⟨htable ▸ List.mem_append_right before List.mem_cons_self, hname.symm⟩
  · rintro ⟨hspec, hname⟩
    obtain ⟨before, behind, htable⟩ := List.append_of_mem hspec
    refine ⟨hname.symm, before, behind, htable, fun other hother => ?_⟩
    have hne := (List.pairwise_append.mp (htable ▸ pairwise_names)).2.2 other hother spec
      List.mem_cons_self
    rw [hname, Bool.not_eq_true', beq_eq_false_iff_ne]
    exact hne

/-- A request whose arguments are as many as they must be is read by the entry of its name. -/
theorem ofRequest_eq_map {request : Request} {spec : Spec}
    (hlookup : lookup request.name = some spec)
    (harity : spec.arity.accepts request.args.length = true) :
    ofRequest request = (spec.read request.args).map Prod.fst := by
  rw [ofRequest, hlookup]
  exact if_pos harity

/-- A request whose arguments are as many as they must be is the command that the entry of its name
finds. -/
theorem ofRequest_eq_ok_iff {request : Request} {spec : Spec} {command : Command}
    (hlookup : lookup request.name = some spec)
    (harity : spec.arity.accepts request.args.length = true) :
    ofRequest request = .ok command ↔ ∃ rest, spec.read request.args = .ok (command, rest) := by
  rw [ofRequest_eq_map hlookup harity]
  cases spec.read request.args with
  | error e =>
      constructor
      · exact fun h => nomatch h
      · exact fun ⟨rest, h⟩ => nomatch h
  | ok p =>
      obtain ⟨found, rest⟩ := p
      constructor
      · intro h
        obtain rfl : found = command := Except.ok.inj h
        exact ⟨rest, rfl⟩
      · rintro ⟨rest', h⟩
        rw [h]
        rfl

/-- A request whose arguments are as many as they must be is refused as the entry of its name
refuses them. -/
theorem ofRequest_eq_error_iff {request : Request} {spec : Spec} {e : CommandError}
    (hlookup : lookup request.name = some spec)
    (harity : spec.arity.accepts request.args.length = true) :
    ofRequest request = .error e ↔ spec.read request.args = .error e := by
  rw [ofRequest_eq_map hlookup harity]
  cases spec.read request.args with
  | error e => simp [Except.map]
  | ok p => simp [Except.map]

/-- What a reply repeats as a payload is an argument of the request. -/
theorem mem_args_of_mem_echoed {request : Request} {command : Command}
    (h : ofRequest request = .ok command) {b : Bytes} (hb : b ∈ command.echoed) :
    b ∈ request.args := by
  obtain ⟨spec, hspec, -, rest, hread⟩ := exists_spec_of_ofRequest h
  exact faithful_of_mem_table spec hspec _ rest command hread b hb

/-! ### What is checked -/

/-- Whether a command is read without a check of what its arguments have to do with each other, or
of how many there are. -/
def Unchecked : Command → Prop
  | .push _ _ _ => False
  | .lcs _ => False
  | _ => True

/-- What holds of unchecked commands, and is checked of the others, holds of every command that an
entry of the table finds. -/
theorem finds_of_mem_table {p : Command → Prop} (h : ∀ command : Command, command.Unchecked →
      p command) (hlcs : Finds p (lcsQuery.giving .lcs))
    (hpush : ∀ side, Finds p (Reader.bytes.andThen fun key =>
      Reader.someRemaining.giving (.push side key))) :
    ∀ spec ∈ table, Finds p spec.read := by
  simp only [table, List.forall_mem_cons]
  refine ⟨finds_andThen fun _ => finds_giving fun _ => h _ trivial,
    finds_andThen fun _ => finds_andThen fun _ => finds_giving fun _ => h _ trivial,
    finds_giving fun _ => h _ trivial, finds_giving fun _ => h _ trivial,
    finds_giving fun _ => h _ trivial, finds_andThen fun _ => finds_giving fun _ => h _ trivial,
    hlcs, finds_andThen fun _ => finds_giving fun _ => h _ trivial,
    finds_giving fun _ => h _ trivial, finds_andThen fun _ => finds_giving fun _ => h _ trivial,
    hpush .head,
    finds_andThen fun _ => finds_andThen fun _ => finds_giving fun _ => h _ trivial,
    finds_giving fun _ => h _ trivial, finds_andThen fun _ => finds_giving fun _ => h _ trivial,
    finds_nothing (h _ trivial), finds_nothing (h _ trivial), finds_nothing (h _ trivial),
    finds_andThen fun _ => finds_giving fun _ => h _ trivial, hpush .tail,
    finds_andThen fun _ => finds_giving fun _ => h _ trivial, finds_giving fun _ => h _ trivial,
    finds_giving fun _ => h _ trivial, fun _ h => nomatch h⟩

/-- What holds of every command that an entry of the table finds holds of those that requests ask
for. -/
theorem of_ofRequest {p : Command → Prop} (h : ∀ spec ∈ table, Finds p spec.read)
    {request : Request} {command : Command} (hrequest : ofRequest request = .ok command) :
    p command := by
  obtain ⟨spec, hspec, -, rest, hread⟩ := exists_spec_of_ofRequest hrequest
  exact h spec hspec _ rest command hread

/-- Whether a command that pushes has something to push. -/
def PushesSome : Command → Prop
  | .push _ _ values => values ≠ []
  | _ => True

/-- A push is read with at least one value. -/
theorem finds_push (side : ListEnd) : Reader.Finds PushesSome (Reader.bytes.andThen fun key =>
    Reader.someRemaining.giving (.push side key)) := by
  refine finds_andThen fun key args rest command hread => ?_
  obtain ⟨values, hvalues, rfl⟩ := giving_eq_ok.mp hread
  cases args with
  | nil => exact nomatch hvalues
  | cons arg args =>
      obtain ⟨rfl, -⟩ := Prod.mk.inj (Except.ok.inj hvalues)
      exact List.cons_ne_nil arg args

/-- A request that pushes has something to push. -/
theorem pushesSome_of_ofRequest {request : Request} {command : Command}
    (h : ofRequest request = .ok command) : command.PushesSome := by
  refine of_ofRequest (finds_of_mem_table (fun command hunchecked => ?_)
    (finds_giving fun _ => trivial) finds_push) h
  cases command with
  | push side key values => exact hunchecked.elim
  | _ => trivial

/-- Whether a comparison asks for one thing only. -/
def AsksOnce : Command → Prop
  | .lcs query => ¬ (query.onlyLength = true ∧ query.ranges = true)
  | _ => True

/-- A comparison that asks for its length and for its ranges is refused when it is read. -/
theorem finds_lcs : Reader.Finds AsksOnce (lcsQuery.giving .lcs) := by
  intro args rest command hread
  obtain ⟨query, hquery, rfl⟩ := giving_eq_ok.mp hread
  obtain ⟨key₁, mid, -, hquery⟩ := andThen_eq_ok.mp hquery
  obtain ⟨key₂, args, -, hquery⟩ := andThen_eq_ok.mp hquery
  split at hquery
  · exact nomatch hquery
  · split at hquery
    · exact nomatch hquery
    · rename_i hboth
      obtain ⟨rfl, -⟩ := Prod.mk.inj (Except.ok.inj hquery)
      exact hboth

/-- A request that asks for a comparison asks for its length or for its ranges, or for neither. -/
theorem asksOnce_of_ofRequest {request : Request} {query : LcsQuery}
    (h : ofRequest request = .ok (.lcs query)) :
    ¬ (query.onlyLength = true ∧ query.ranges = true) := by
  refine of_ofRequest (p := AsksOnce) (finds_of_mem_table (fun command hunchecked => ?_) finds_lcs
    fun side => finds_andThen fun _ => finds_giving fun _ => trivial) h
  cases command with
  | lcs query => exact hunchecked.elim
  | _ => trivial

end RespStore.Command
