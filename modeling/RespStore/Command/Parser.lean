import RespStore.Command
import RespStore.Decimal.Real
import RespStore.Text.Upper

/-!
# Reading commands

Every command has an entry in the table: its name, how many arguments it takes, and how they
are read. Names are found whatever the case of their ASCII letters. A reader takes arguments
off the front of the list and leaves the rest, so it can be said of each whether it uses all
of them.
-/

namespace RespStore.Command

/-- Reads arguments off the front of a list. -/
abbrev Reader (α : Type) := List Bytes → Except CommandError (α × List Bytes)

namespace Reader

variable {α β : Type}

/-- The next argument, as it is. -/
def bytes : Reader Bytes
  | [] => .error .endOfArguments
  | arg :: rest => .ok (arg, rest)

/-- The next argument, read by a function, or an error when that fails. -/
def reading (read? : Bytes → Option α) (fault : CommandError) : Reader α
  | [] => .error .endOfArguments
  | arg :: rest =>
    match read? arg with
    | none => .error fault
    | some value => .ok (value, rest)

/-- The next argument, as text. -/
def text : Reader String := reading Bytes.toString? .badSyntax

/-- The next argument, as a 64-bit signed integer. -/
def integer : Reader Int64 := reading Decimal.readInt64? .notAnInteger

/-- A number, and not the one that is not a number. -/
def number? (arg : Bytes) : Option Float := (Decimal.Real.read? arg).filter fun x => !x.isNaN

/-- The next argument, as a number. -/
def number : Reader Float := reading number? .notAFloat

/-- What a reader finds, or nothing when there is no argument left. -/
def optional (reader : Reader α) : Reader (Option α)
  | [] => .ok (none, [])
  | args => (reader args).map fun (value, rest) => (some value, rest)

/-- All arguments that are left. -/
def remaining : Reader (List Bytes) := fun args => .ok (args, [])

/-- All arguments that are left, of which there must be one. -/
def someRemaining : Reader (List Bytes)
  | [] => .error .endOfArguments
  | args => .ok (args, [])

/-- Reads nothing. -/
def nothing (value : α) : Reader α := fun args => .ok (value, args)

/-- Reads one thing after the other. -/
def andThen (first : Reader α) (second : α → Reader β) : Reader β := fun args =>
  match first args with
  | .error e => .error e
  | .ok (value, rest) => second value rest

/-- Reads one thing and makes something of it. -/
def giving (reader : Reader α) (f : α → β) : Reader β := fun args =>
  (reader args).map fun (value, rest) => (f value, rest)

end Reader

/-- Reads the options behind the two keys of a comparison, up to the last argument. -/
def lcsOptions (query : LcsQuery) : List Bytes → Except CommandError LcsQuery
  | [] => .ok query
  | option :: rest =>
    match Bytes.toString? option with
    | none => .error .badSyntax
    | some word =>
      if Upper.spells word "LEN" then lcsOptions { query with onlyLength := true } rest
      else if Upper.spells word "IDX" then lcsOptions { query with ranges := true } rest
      else if Upper.spells word "WITHMATCHLEN" then
        lcsOptions { query with withLengths := true } rest
      else if Upper.spells word "MINMATCHLEN" then
        match rest with
        | [] => .error .endOfArguments
        | length :: rest =>
          match Decimal.readInt64? length with
          | none => .error .notAnInteger
          | some length => lcsOptions { query with minLength := length.toNatClampNeg } rest
      else .error .badSyntax

/-- Reads a comparison. Only one of length and ranges can be asked for. -/
def lcsQuery : Reader LcsQuery :=
  Reader.bytes.andThen fun key₁ => Reader.bytes.andThen fun key₂ args =>
    match lcsOptions { key₁, key₂ } args with
    | .error e => .error e
    | .ok query =>
      if query.onlyLength ∧ query.ranges then
        .error (.invalid "If you want both the length and indexes, please just use IDX.")
      else .ok (query, [])

/-- An entry of the command table. -/
structure Spec where
  /-- The name of the command, in lower case. -/
  name : String
  /-- How many arguments it takes. -/
  arity : Arity
  /-- How its arguments are read. -/
  read : Reader Command

/-- The command table. -/
def table : List Spec :=
  [ ⟨"client", .atLeast 1, Reader.bytes.andThen fun subcommand =>
      Reader.remaining.giving fun _ => .client subcommand⟩,
    ⟨"config", .atLeast 2, Reader.text.andThen fun subcommand =>
      Reader.text.andThen fun parameter =>
        Reader.remaining.giving fun _ => .config subcommand parameter⟩,
    ⟨"del", .atLeast 1, Reader.someRemaining.giving .del⟩,
    ⟨"echo", .exactly 1, Reader.bytes.giving .echo⟩,
    ⟨"get", .exactly 1, Reader.bytes.giving .get⟩,
    ⟨"incrbyfloat", .exactly 2, Reader.bytes.andThen fun key =>
      Reader.number.giving (.incrByFloat key)⟩,
    ⟨"lcs", .atLeast 2, lcsQuery.giving .lcs⟩,
    ⟨"lindex", .exactly 2, Reader.bytes.andThen fun key => Reader.integer.giving (.lindex key)⟩,
    ⟨"llen", .exactly 1, Reader.bytes.giving .llen⟩,
    ⟨"lpop", .between 1 2, Reader.bytes.andThen fun key =>
      Reader.integer.optional.giving (.pop .head key)⟩,
    ⟨"lpush", .atLeast 2, Reader.bytes.andThen fun key =>
      Reader.someRemaining.giving (.push .head key)⟩,
    ⟨"lrange", .exactly 3, Reader.bytes.andThen fun key => Reader.integer.andThen fun start =>
      Reader.integer.giving (.lrange key start)⟩,
    ⟨"ping", .between 0 1, Reader.bytes.optional.giving .ping⟩,
    ⟨"publish", .exactly 2, Reader.bytes.andThen fun channel =>
      Reader.bytes.giving (.publish channel)⟩,
    ⟨"quit", .exactly 0, Reader.nothing .quit⟩,
    ⟨"readonly", .exactly 0, Reader.nothing .readOnly⟩,
    ⟨"readwrite", .exactly 0, Reader.nothing .readWrite⟩,
    ⟨"rpop", .between 1 2, Reader.bytes.andThen fun key =>
      Reader.integer.optional.giving (.pop .tail key)⟩,
    ⟨"rpush", .atLeast 2, Reader.bytes.andThen fun key =>
      Reader.someRemaining.giving (.push .tail key)⟩,
    ⟨"set", .exactly 2, Reader.bytes.andThen fun key => Reader.bytes.giving (.set key)⟩,
    ⟨"subscribe", .atLeast 1, Reader.someRemaining.giving .subscribe⟩,
    ⟨"unsubscribe", .atLeast 0, Reader.remaining.giving .unsubscribe⟩ ]

/-- The entry of a command, found by its name in any case. -/
def lookup (name : Bytes) : Option Spec :=
  table.find? fun spec => Bytes.ofString spec.name == Bytes.lower name

/-- The command that a request asks for. -/
def ofRequest (request : Request) : Except CommandError Command :=
  match lookup request.name with
  | none => .error (.unknownCommand request.name request.args)
  | some spec =>
    if spec.arity.accepts request.args.length then (spec.read request.args).map Prod.fst
    else .error (.wrongArity spec.name)

end RespStore.Command
