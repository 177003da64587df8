import RespStore.Proofs.Options

/-!
# What becomes of arguments

The command table says of each command how many arguments it takes, and, next to it, how they are
read. Here the two are shown to agree: nothing is missing when the number is right, and nothing is
left over.

* `Command.MadeOf` says of each command which arguments it is made of, and `Command.SkipsRest` which
  commands do not look at those behind them.
* `Reader.Suits` says that a reader suits an arity. There is one rule for each way to put readers
  together, and `Arity.succ` is what one more argument does to an arity. With these rules,
  `Command.suits_of_mem_table` goes through the table.
* Comparisons are not in reach of the rules, because the value that belongs to an option can be
  missing whatever the number of arguments. `Command.lcs_uses` and `Command.lcs_short_iff` are about
  them.
* `Command.exists_entry` is the other direction: a command that is made of arguments is found in
  them.
* `Command.arguments_used` is the main result, about all requests.
-/

namespace RespStore

/-- The arity of a command that takes one more argument. -/
def Arity.succ : Arity → Arity
  | .exactly n => .exactly (n + 1)
  | .atLeast n => .atLeast (n + 1)
  | .between least most => .between (least + 1) (most + 1)

/-- One argument is there, and the others are as many as they must be without it. -/
theorem Arity.accepts_succ (arity : Arity) {args : List Bytes}
    (h : arity.succ.accepts args.length = true) :
    ∃ word rest, args = word :: rest ∧ arity.accepts rest.length = true := by
  cases args with
  | nil =>
      cases arity with
      | _ => simp [succ, accepts] at h
  | cons word rest =>
      refine ⟨word, rest, rfl, ?_⟩
      cases arity with
      | _ => simpa [succ, accepts] using h

namespace Command

open LcsOption

/-! ### What commands are made of -/

/-- Whether a command is made of some arguments, of every one of them, in this order. -/
def MadeOf : Command → List Bytes → Prop
  | .del keys, args => args = keys
  | .get key, args => args = [key]
  | .incrByFloat key increment, args =>
    ∃ number, args = [key, number] ∧ Reader.number? number = some increment
  | .lcs query, args =>
    ∃ key₁ key₂ options words, args = key₁ :: key₂ :: words ∧
      Spelled Bytes.folded options words ∧ ¬ (.onlyLength ∈ options ∧ .ranges ∈ options) ∧
      query = .asking key₁ key₂ options
  | .set key value, args => args = [key, value]
  | .lindex key index, args =>
    ∃ number, args = [key, number] ∧ Decimal.readInt64? number = some index
  | .llen key, args => args = [key]
  | .pop _ key count, args =>
    ∃ numbers, args = key :: numbers ∧ numbers.map Decimal.readInt64? = count.toList.map some
  | .push _ key values, args => args = key :: values
  | .lrange key start stop, args =>
    ∃ first last, args = [key, first, last] ∧ Decimal.readInt64? first = some start ∧
      Decimal.readInt64? last = some stop
  | .publish channel message, args => args = [channel, message]
  | .subscribe channels, args => args = channels
  | .unsubscribe channels, args => args = channels
  | .client subcommand, args => args = [subcommand]
  | .config subcommand parameter, args =>
    args = [Bytes.ofString subcommand, Bytes.ofString parameter]
  | .echo message, args => args = [message]
  | .ping payload, args => args = payload.toList
  | .quit, args => args = []
  | .readOnly, args => args = []
  | .readWrite, args => args = []

/-- Whether a command does not look at the arguments behind those it is made of. -/
def SkipsRest : Command → Prop
  | .client _ => True
  | .config _ _ => True
  | _ => False

/-- Whether arguments are what a command is made of, with nothing behind them but what the command
skips. -/
def Uses (command : Command) (args : List Bytes) : Prop :=
  ∃ used skipped, args = used ++ skipped ∧ command.MadeOf used ∧ (skipped ≠ [] → command.SkipsRest)

/-- A command that looks at all of its arguments is made of those that it uses. -/
theorem Uses.madeOf {command : Command} {args : List Bytes} (h : command.Uses args)
    (hskips : ¬ command.SkipsRest) : command.MadeOf args := by
  obtain ⟨used, skipped, rfl, hmade, hskipped⟩ := h
  obtain rfl : skipped = [] := by_contra fun hne => hskips (hskipped hne)
  rwa [List.append_nil]

/-- A command uses the arguments that it is made of. -/
theorem MadeOf.uses {command : Command} {args : List Bytes} (h : command.MadeOf args) :
    command.Uses args :=
  ⟨args, [], args.append_nil.symm, h, fun hne => absurd rfl hne⟩

/-! ### Readers and arities -/

namespace Reader

variable {α β : Type} {arity : Arity} {used : β → List Bytes → Prop}

/-- Whether a reader suits an arity: with so many arguments it neither runs out of them nor leaves
any, and what it finds uses them. -/
structure Suits (arity : Arity) (used : β → List Bytes → Prop) (reader : Reader β) : Prop where
  /-- There are enough arguments. -/
  enough {args : List Bytes} : arity.accepts args.length = true →
    reader args ≠ .error .endOfArguments
  /-- Every argument is used. -/
  uses {args rest : List Bytes} {value : β} : arity.accepts args.length = true →
    reader args = .ok (value, rest) → rest = [] ∧ used value args

variable {read? : Bytes → Option α} {fault : CommandError}

/-- One argument is read, and the others as they must be without it. -/
theorem suits_reading_andThen {second : α → Reader β} (hfault : fault ≠ .endOfArguments)
    (h : ∀ word value, read? word = some value →
      Suits arity (fun found args => used found (word :: args)) (second value)) :
    Suits arity.succ used ((reading read? fault).andThen second) := by
  constructor
  · intro args haccepts
    obtain ⟨word, rest, rfl, hrest⟩ := Arity.accepts_succ arity haccepts
    simp only [andThen, reading]
    cases hread : read? word with
    | none => exact fun h => hfault (Except.error.inj h)
    | some value => exact (h word value hread).enough hrest
  · intro args left found haccepts hfound
    obtain ⟨word, rest, rfl, hrest⟩ := Arity.accepts_succ arity haccepts
    simp only [andThen, reading] at hfound
    cases hread : read? word with
    | none =>
        simp [hread] at hfound
    | some value =>
        rw [hread] at hfound
        exact (h word value hread).uses hrest hfound

/-- A reader that reads nothing suits a command without arguments. -/
theorem suits_nothing {value : β} (h : used value []) :
    Suits (.exactly 0) used (nothing value) := by
  constructor
  · exact fun haccepts h => nomatch h
  · intro args rest found haccepts hfound
    obtain rfl := List.eq_nil_of_length_eq_zero (of_decide_eq_true haccepts)
    obtain ⟨rfl, rfl⟩ := Prod.mk.inj (Except.ok.inj hfound)
    exact ⟨rfl, h⟩

/-- To read one thing and make something of it is to read it and nothing behind it. -/
theorem giving_eq_andThen (reader : Reader α) (f : α → β) :
    reader.giving f = reader.andThen fun value => nothing (f value) := by
  funext args
  rw [giving, andThen]
  cases reader args with
  | error e => rfl
  | ok p => rfl

/-- A reader of one argument suits a command with one. -/
theorem suits_reading_giving {f : α → β} (hfault : fault ≠ .endOfArguments)
    (h : ∀ word value, read? word = some value → used (f value) [word]) :
    Suits (.exactly 1) used ((reading read? fault).giving f) := by
  rw [giving_eq_andThen]
  exact suits_reading_andThen hfault fun word value hread => suits_nothing (h word value hread)

/-- A reader of an argument that may be missing suits a command with one or none. -/
theorem suits_optional_giving {f : Option α → β} (hfault : fault ≠ .endOfArguments)
    (hnone : used (f none) [])
    (hsome : ∀ word value, read? word = some value → used (f (some value)) [word]) :
    Suits (.between 0 1) used ((reading read? fault).optional.giving f) := by
  have hone := suits_reading_giving (f := fun value => f (some value)) hfault hsome
  have hcons : ∀ word rest, (reading read? fault).optional.giving f (word :: rest) =
      (reading read? fault).giving (fun value => f (some value)) (word :: rest) := by
    intro word rest
    simp only [giving, optional]
    cases reading read? fault (word :: rest) with
    | error e => rfl
    | ok p => rfl
  constructor
  · intro args haccepts
    cases args with
    | nil => simp [giving, Reader.optional, Except.map]
    | cons word rest =>
        rw [hcons]
        exact hone.enough (by simpa [Arity.accepts] using haccepts)
  · intro args left found haccepts hfound
    cases args with
    | nil =>
        obtain ⟨rfl, rfl⟩ := Prod.mk.inj (Except.ok.inj hfound)
        exact ⟨rfl, hnone⟩
    | cons word rest =>
        rw [hcons] at hfound
        exact hone.uses (by simpa [Arity.accepts] using haccepts) hfound

/-- A reader of all arguments that are left suits any number of them. -/
theorem suits_remaining {f : List Bytes → β} (h : ∀ args, used (f args) args) :
    Suits (.atLeast 0) used (remaining.giving f) := by
  constructor
  · exact fun haccepts h => nomatch h
  · intro args rest found haccepts hfound
    obtain ⟨rfl, rfl⟩ := Prod.mk.inj (Except.ok.inj hfound)
    exact ⟨rfl, h args⟩

/-- A reader of all arguments that are left, of one at least, suits that many. -/
theorem suits_someRemaining {f : List Bytes → β} (h : ∀ args, used (f args) args) :
    Suits (.atLeast 1) used (someRemaining.giving f) := by
  constructor
  · intro args haccepts
    obtain ⟨word, rest, rfl, -⟩ := Arity.accepts_succ (.atLeast 0) haccepts
    exact fun h => nomatch h
  · intro args left found haccepts hfound
    obtain ⟨word, rest, rfl, -⟩ := Arity.accepts_succ (.atLeast 0) haccepts
    obtain ⟨rfl, rfl⟩ := Prod.mk.inj (Except.ok.inj hfound)
    exact ⟨rfl, h _⟩

/-- To read an argument as it is is to read it in a way that does not fail. -/
theorem bytes_eq_reading : bytes = reading some .badSyntax := by
  funext args
  cases args with
  | nil => rfl
  | cons arg rest => rfl

/-- An argument is read as it is, and the others as they must be without it. -/
theorem suits_bytes_andThen {second : Bytes → Reader β}
    (h : ∀ word, Suits arity (fun found args => used found (word :: args)) (second word)) :
    Suits arity.succ used (bytes.andThen second) := by
  rw [bytes_eq_reading]
  refine suits_reading_andThen (by decide) fun word value hread => ?_
  obtain rfl := Option.some.inj hread
  exact h word

/-- A reader of one argument as it is suits a command with one. -/
theorem suits_bytes_giving {f : Bytes → β} (h : ∀ word, used (f word) [word]) :
    Suits (.exactly 1) used (bytes.giving f) := by
  rw [giving_eq_andThen]
  exact suits_bytes_andThen fun word => suits_nothing (h word)

end Reader

open Reader

/-! ### The table -/

/-- A command that is made of one argument, as it is, uses it. -/
theorem suits_bytes {f : Bytes → Command} (h : ∀ word, (f word).MadeOf [word]) :
    Suits (.exactly 1) Uses (bytes.giving f) :=
  suits_bytes_giving fun word => (h word).uses

/-- A command that is made of two arguments, as they are, uses both. -/
theorem suits_bytes₂ {f : Bytes → Bytes → Command}
    (h : ∀ word next, (f word next).MadeOf [word, next]) :
    Suits (.exactly 2) Uses (bytes.andThen fun word => bytes.giving (f word)) :=
  suits_bytes_andThen fun word => suits_bytes_giving fun next => (h word next).uses

/-- A pop uses a key, and a count if there is one. -/
theorem suits_pop (side : ListEnd) : Suits (.between 1 2) Uses
    (bytes.andThen fun key => integer.optional.giving (.pop side key)) := by
  refine suits_bytes_andThen fun key => suits_optional_giving (by decide) ?_
    fun word count hread => ?_
  · exact MadeOf.uses ⟨[], rfl, rfl⟩
  · exact MadeOf.uses ⟨[word], rfl, congrArg (fun number => [number]) hread⟩

/-- A push uses a key, and all values behind it. -/
theorem suits_push (side : ListEnd) : Suits (.atLeast 2) Uses
    (bytes.andThen fun key => someRemaining.giving (.push side key)) := by
  refine suits_bytes_andThen fun key => suits_someRemaining fun values => ?_
  exact MadeOf.uses rfl

/-- `CONFIG` uses two arguments, and skips those behind them. -/
theorem suits_config : Suits (.atLeast 2) Uses
    (text.andThen fun subcommand => text.andThen fun parameter =>
      remaining.giving fun _ => .config subcommand parameter) := by
  refine suits_reading_andThen (by decide) fun word subcommand hword =>
    suits_reading_andThen (by decide) fun word' parameter hword' => suits_remaining fun args => ?_
  rw [Bytes.toString?_eq_some_iff] at hword hword'
  exact ⟨[word, word'], args, rfl, hword ▸ hword' ▸ rfl, fun _ => trivial⟩

/-- Every entry of the table suits its arity, except that of comparisons. -/
theorem suits_of_mem_table : ∀ spec ∈ table, spec.name ≠ "lcs" →
    Suits spec.arity Uses spec.read := by
  simp only [table, List.forall_mem_cons]
  refine ⟨fun _ => ?client, fun _ => suits_config, fun _ => ?del,
    fun _ => suits_bytes fun _ => rfl, fun _ => suits_bytes fun _ => rfl,
    fun _ => ?incrByFloat, fun h => absurd rfl h, fun _ => ?lindex,
    fun _ => suits_bytes fun _ => rfl, fun _ => suits_pop .head, fun _ => suits_push .head,
    fun _ => ?lrange, fun _ => ?ping, fun _ => suits_bytes₂ fun _ _ => rfl,
    fun _ => suits_nothing (MadeOf.uses rfl), fun _ => suits_nothing (MadeOf.uses rfl),
    fun _ => suits_nothing (MadeOf.uses rfl), fun _ => suits_pop .tail, fun _ => suits_push .tail,
    fun _ => suits_bytes₂ fun _ _ => rfl, fun _ => ?subscribe, fun _ => ?unsubscribe,
    fun _ h => absurd h List.not_mem_nil⟩
  case client =>
    refine suits_bytes_andThen fun subcommand => suits_remaining fun args => ?_
    exact ⟨[subcommand], args, rfl, rfl, fun _ => trivial⟩
  case del =>
    refine suits_someRemaining fun keys => ?_
    exact MadeOf.uses rfl
  case incrByFloat =>
    refine suits_bytes_andThen fun key => suits_reading_giving (by decide)
      fun word increment hread => ?_
    exact MadeOf.uses ⟨word, rfl, hread⟩
  case lindex =>
    refine suits_bytes_andThen fun key => suits_reading_giving (by decide)
      fun word index hread => ?_
    exact MadeOf.uses ⟨word, rfl, hread⟩
  case lrange =>
    refine suits_bytes_andThen fun key => suits_reading_andThen (by decide)
      fun first start hstart => suits_reading_giving (by decide) fun last stop hstop => ?_
    exact MadeOf.uses ⟨first, last, rfl, hstart, hstop⟩
  case ping =>
    rw [bytes_eq_reading]
    refine suits_optional_giving (by decide) (MadeOf.uses rfl) fun word payload hread => ?_
    obtain rfl := Option.some.inj hread
    exact MadeOf.uses rfl
  case subscribe =>
    refine suits_someRemaining fun channels => ?_
    exact MadeOf.uses rfl
  case unsubscribe =>
    refine suits_remaining fun channels => ?_
    exact MadeOf.uses rfl

/-! ### Comparisons -/

variable {args : List Bytes}

/-- Whether arguments end with the keyword of a least length, behind two keys and other options. -/
def LacksLength (args : List Bytes) : Prop :=
  ∃ key₁ key₂ front word options, args = key₁ :: key₂ :: (front ++ [word]) ∧
    Spelled Bytes.folded options front ∧ word.folded = (Bytes.ofString "MINMATCHLEN").folded

/-- A comparison with enough arguments has two keys. -/
theorem exists_keys (haccepts : (Arity.atLeast 2).accepts args.length = true) :
    ∃ key₁ key₂ rest, args = key₁ :: key₂ :: rest := by
  obtain ⟨key₁, behind, rfl, hbehind⟩ := Arity.accepts_succ (.atLeast 1) haccepts
  obtain ⟨key₂, rest, rfl, -⟩ := Arity.accepts_succ (.atLeast 0) hbehind
  exact ⟨key₁, key₂, rest, rfl⟩

/-- What a comparison is read from is used. -/
theorem lcs_uses {rest : List Bytes} {command : Command}
    (haccepts : (Arity.atLeast 2).accepts args.length = true)
    (h : lcsQuery.giving Command.lcs args = .ok (command, rest)) :
    rest = [] ∧ command.Uses args := by
  obtain ⟨key₁, key₂, args, rfl⟩ := exists_keys haccepts
  obtain ⟨options, hspelled, hone, rfl, hrest⟩ := lcsQuery_giving_eq_ok_iff.mp h
  exact ⟨hrest, MadeOf.uses ⟨key₁, key₂, options, args, rfl, hspelled, hone, rfl⟩⟩

/-- A comparison runs out of arguments if and only if a least length is missing at their end. -/
theorem lcs_short_iff (haccepts : (Arity.atLeast 2).accepts args.length = true) :
    lcsQuery.giving Command.lcs args = .error .endOfArguments ↔ LacksLength args := by
  obtain ⟨key₁, key₂, args, rfl⟩ := exists_keys haccepts
  rw [giving_eq_error, lcsQuery_short_iff, lcsOptions_eq_error_iff]
  constructor
  · rintro ⟨options, front, rest, rfl, hfront, hrest⟩
    cases hrest with
    | missing hword => exact ⟨key₁, key₂, front, _, options, rfl, hfront, hword⟩
  · rintro ⟨key₁', key₂', front, word, options, heq, hfront, hword⟩
    obtain ⟨-, -, rfl⟩ : key₁ = key₁' ∧ key₂ = key₂' ∧ args = front ++ [word] := by
      simpa only [List.cons.injEq] using heq
    exact ⟨options, front, [word], rfl, hfront, @Stuck.missing word 0 hword⟩

/-! ### What is found -/

/-- A pop is found in the arguments that it uses. -/
theorem read_pop {side : ListEnd} {key : Bytes} {count : Option Int64} {args : List Bytes}
    (huses : (Command.pop side key count).Uses args) :
    (bytes.andThen fun key => integer.optional.giving (Command.pop side key)) args =
      .ok (.pop side key count, []) := by
  obtain ⟨numbers, rfl, hnumbers⟩ := huses.madeOf id
  cases count with
  | none =>
      obtain rfl := List.map_eq_nil_iff.mp hnumbers
      rfl
  | some count =>
      obtain ⟨number, rfl, hnumber⟩ := List.map_eq_singleton_iff.mp hnumbers
      simp [andThen, giving, bytes, Reader.optional, integer, reading, hnumber, Except.map]

/-- A push is found in the arguments that it uses. -/
theorem read_push {side : ListEnd} {key : Bytes} {values args : List Bytes}
    (haccepts : (Arity.atLeast 2).accepts args.length = true)
    (huses : (Command.push side key values).Uses args) :
    (bytes.andThen fun key => someRemaining.giving (Command.push side key)) args =
      .ok (.push side key values, []) := by
  obtain rfl := huses.madeOf id
  cases values with
  | nil => simp [Arity.accepts] at haccepts
  | cons value values => rfl

/-- Every command is found by the entry of its name in the arguments that it uses. -/
theorem exists_entry (command : Command) :
    ∃ entry, table.find? (fun spec => spec.name == command.name) = some entry ∧
      ∀ args, entry.arity.accepts args.length = true → command.Uses args →
        entry.read args = .ok (command, []) := by
  cases command with
  | del keys =>
      refine ⟨_, rfl, fun args haccepts huses => ?_⟩
      obtain rfl := huses.madeOf id
      cases args with
      | nil => simp [Arity.accepts] at haccepts
      | cons key keys => rfl
  | get key =>
      refine ⟨_, rfl, fun args _ huses => ?_⟩
      obtain rfl := huses.madeOf id
      rfl
  | incrByFloat key increment =>
      refine ⟨_, rfl, fun args _ huses => ?_⟩
      obtain ⟨number, rfl, hnumber⟩ := huses.madeOf id
      simp [andThen, giving, bytes, Reader.number, reading, hnumber, Except.map]
  | lcs query =>
      refine ⟨_, rfl, fun args _ huses => ?_⟩
      obtain ⟨key₁, key₂, options, words, rfl, hspelled, hone, rfl⟩ := huses.madeOf id
      exact lcsQuery_giving_eq_ok_iff.mpr ⟨options, hspelled, hone, rfl, rfl⟩
  | set key value =>
      refine ⟨_, rfl, fun args _ huses => ?_⟩
      obtain rfl := huses.madeOf id
      rfl
  | lindex key index =>
      refine ⟨_, rfl, fun args _ huses => ?_⟩
      obtain ⟨number, rfl, hnumber⟩ := huses.madeOf id
      simp [andThen, giving, bytes, integer, reading, hnumber, Except.map]
  | llen key =>
      refine ⟨_, rfl, fun args _ huses => ?_⟩
      obtain rfl := huses.madeOf id
      rfl
  | pop side key count =>
      cases side with
      | head => exact ⟨_, rfl, fun args _ huses => read_pop huses⟩
      | tail => exact ⟨_, rfl, fun args _ huses => read_pop huses⟩
  | push side key values =>
      cases side with
      | head => exact ⟨_, rfl, fun _ => read_push⟩
      | tail => exact ⟨_, rfl, fun _ => read_push⟩
  | lrange key start stop =>
      refine ⟨_, rfl, fun args _ huses => ?_⟩
      obtain ⟨first, last, rfl, hfirst, hlast⟩ := huses.madeOf id
      simp [andThen, giving, bytes, integer, reading, hfirst, hlast, Except.map]
  | publish channel message =>
      refine ⟨_, rfl, fun args _ huses => ?_⟩
      obtain rfl := huses.madeOf id
      rfl
  | subscribe channels =>
      refine ⟨_, rfl, fun args haccepts huses => ?_⟩
      obtain rfl := huses.madeOf id
      cases args with
      | nil => simp [Arity.accepts] at haccepts
      | cons channel channels => rfl
  | unsubscribe channels =>
      refine ⟨_, rfl, fun args _ huses => ?_⟩
      obtain rfl := huses.madeOf id
      rfl
  | client subcommand =>
      refine ⟨_, rfl, fun args _ huses => ?_⟩
      obtain ⟨_, skipped, rfl, rfl, -⟩ := huses
      rfl
  | config subcommand parameter =>
      refine ⟨_, rfl, fun args _ huses => ?_⟩
      obtain ⟨_, skipped, rfl, rfl, -⟩ := huses
      simp [andThen, giving, text, remaining, reading, Bytes.toString?_ofString, Except.map]
  | echo message =>
      refine ⟨_, rfl, fun args _ huses => ?_⟩
      obtain rfl := huses.madeOf id
      rfl
  | ping payload =>
      refine ⟨_, rfl, fun args _ huses => ?_⟩
      obtain rfl := huses.madeOf id
      cases payload with
      | none => rfl
      | some payload => rfl
  | quit =>
      refine ⟨_, rfl, fun args _ huses => ?_⟩
      obtain rfl := huses.madeOf id
      rfl
  | readOnly =>
      refine ⟨_, rfl, fun args _ huses => ?_⟩
      obtain rfl := huses.madeOf id
      rfl
  | readWrite =>
      refine ⟨_, rfl, fun args _ huses => ?_⟩
      obtain rfl := huses.madeOf id
      rfl

/-- No other entry has the name by which an entry is found. -/
theorem eq_of_lookup {name : Bytes} {spec entry : Spec} (hlookup : lookup name = some spec)
    (hentry : entry ∈ table) (hname : entry.name = spec.name) : spec = entry := by
  have hfound := (lookup_eq_some_iff.mp hlookup).2
  exact Option.some.inj (hlookup.symm.trans (lookup_eq_some_iff.mpr ⟨hentry, hname ▸ hfound⟩))

section Lookup

variable {name : Bytes} {spec : Spec} (hlookup : lookup name = some spec)
  (haccepts : spec.arity.accepts args.length = true)
include hlookup haccepts

/-- Only a comparison runs out of arguments, and arguments are used by what is found in them. -/
theorem read_of_lookup :
    (spec.read args = .error .endOfArguments ↔ spec.name = "lcs" ∧ LacksLength args) ∧
      ∀ {command rest}, spec.read args = .ok (command, rest) → rest = [] ∧ command.Uses args := by
  by_cases hname : spec.name = "lcs"
  · obtain rfl := eq_of_lookup hlookup lcs_mem_table hname.symm
    refine ⟨?_, lcs_uses haccepts⟩
    rw [and_iff_right rfl]
    exact lcs_short_iff haccepts
  · have hsuits := suits_of_mem_table spec (lookup_eq_some_iff.mp hlookup).1 hname
    refine ⟨?_, hsuits.uses haccepts⟩
    constructor
    · exact fun h => absurd h (hsuits.enough haccepts)
    · exact fun h => absurd h.1 hname

/-- A command of the name that is looked up is found in the arguments that it uses. -/
theorem read_of_uses {command : Command} (hname : command.name = spec.name)
    (huses : command.Uses args) : spec.read args = .ok (command, []) := by
  obtain ⟨entry, hentry, hread⟩ := exists_entry command
  have hentryname : entry.name = command.name :=
    beq_iff_eq.mp (List.find?_some (p := fun spec : Spec => spec.name == command.name) hentry)
  obtain rfl := eq_of_lookup hlookup (List.mem_of_find?_eq_some hentry) (hentryname.trans hname)
  exact hread args haccepts huses

end Lookup

/-- **No argument is missing, and none is left over.** When a request has as many arguments as the
table says, reading them runs out of arguments if and only if a comparison lacks the value of the
option at its end. A command is found if and only if it has the name of the request and is made of
all its arguments, except for those that its kind of command skips. No argument is left unread. -/
theorem arguments_used {request : Request} {spec : Spec} (hlookup : lookup request.name = some spec)
    (harity : spec.arity.accepts request.args.length = true) :
    (ofRequest request = .error .endOfArguments ↔ spec.name = "lcs" ∧ LacksLength request.args) ∧
      (∀ command, ofRequest request = .ok command ↔
        command.name = spec.name ∧
          ∃ used skipped, request.args = used ++ skipped ∧ command.MadeOf used ∧
            (skipped ≠ [] → command.SkipsRest)) ∧
      ∀ command rest, spec.read request.args = .ok (command, rest) → rest = [] := by
  obtain ⟨hshort, huses⟩ := read_of_lookup hlookup harity
  refine ⟨(ofRequest_eq_error_iff hlookup harity).trans hshort, fun command => ?_,
    fun command rest hread => (huses hread).1⟩
  rw [ofRequest_eq_ok_iff hlookup harity]
  constructor
  · rintro ⟨rest, hread⟩
    have hspec := (lookup_eq_some_iff.mp hlookup).1
    exact ⟨name_of_mem_table spec hspec _ rest command hread, (huses hread).2⟩
  · rintro ⟨hname, hused⟩
    exact ⟨[], read_of_uses hlookup harity hname hused⟩

/-- A comparison without the value that belongs to its option. -/
theorem arguments_used_lacking :
    lookup (Bytes.ofString "LCS") = some ⟨"lcs", .atLeast 2, lcsQuery.giving .lcs⟩ ∧
      (Arity.atLeast 2).accepts 3 = true ∧
      ofRequest ⟨Bytes.ofString "LCS", [[97], [98], Bytes.ofString "MinMatchLen"]⟩ =
        .error .endOfArguments := by
  have hlookup : lookup (Bytes.ofString "LCS") =
      some ⟨"lcs", .atLeast 2, lcsQuery.giving .lcs⟩ :=
    lookup_eq_some_iff.mpr ⟨lcs_mem_table, by decide +kernel⟩
  refine ⟨hlookup, rfl, (@arguments_used ⟨_, _⟩ _ hlookup rfl).1.mpr ?_⟩
  exact ⟨rfl, [97], [98], [], _, [], rfl, .nil, by decide +kernel⟩

end Command
end RespStore
