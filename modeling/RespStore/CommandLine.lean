import RespStore.Address
import RespStore.Settings

/-!
# The command line

Every setting is given by an option: a long name behind two dashes, or a short one behind a
single dash, and its value either attached or as the next argument. A setting that is not
given there is taken from the environment, and else has its default. No setting can be given
twice, and no argument can stand alone.

A value that is an argument of its own is only used once the next option turns up, or at the
end. That decides which of two errors is reported.
-/

namespace RespStore

/-- The settings of the program. -/
structure Config where
  /-- The port to listen on. -/
  port : UInt16 := 6379
  /-- The address to listen at. -/
  bind : Address := .v4 127 0 0 1
  /-- The sizes that connections work with. -/
  sizes : Settings := {}
  deriving Repr, DecidableEq

namespace CommandLine

/-- A setting that can be given. -/
inductive Setting where
  /-- The port to listen on. -/
  | port
  /-- The address to listen at. -/
  | bind
  /-- The least room given to a chunk of replies. -/
  | minimumBufferSize
  /-- The write budget. -/
  | writeBufferHighWaterMark
  /-- The largest request accepted. -/
  | maxFrameSize
  /-- How many messages wait for a connection. -/
  | deliveryQueueCapacity
  deriving Repr, DecidableEq

namespace Setting

/-- Every setting. -/
def all : List Setting :=
  [.port, .bind, .minimumBufferSize, .writeBufferHighWaterMark, .maxFrameSize,
    .deliveryQueueCapacity]

/-- The long name of the option. -/
def long : Setting → String
  | .port => "port"
  | .bind => "bind"
  | .minimumBufferSize => "minimum-buffer-size"
  | .writeBufferHighWaterMark => "write-buffer-high-water-mark"
  | .maxFrameSize => "max-frame-size"
  | .deliveryQueueCapacity => "delivery-queue-capacity"

/-- The short name of the option, for the two settings that have one. -/
def short? : Setting → Option Char
  | .port => some 'p'
  | .bind => some 'b'
  | _ => none

/-- The name of the environment variable, behind what all of them start with. -/
def envName : Setting → String
  | .port => "PORT"
  | .bind => "BIND"
  | .minimumBufferSize => "MINIMUM_BUFFER_SIZE"
  | .writeBufferHighWaterMark => "WRITE_BUFFER_HIGH_WATER_MARK"
  | .maxFrameSize => "MAX_FRAME_SIZE"
  | .deliveryQueueCapacity => "DELIVERY_QUEUE_CAPACITY"

/-- A port number. -/
def port? (value : String) : Option UInt16 :=
  (Decimal.readInt64? (Bytes.ofString value)).bind fun n =>
    if 0 ≤ n.toInt ∧ n.toInt < UInt16.size then some (.ofNat n.toInt.toNat) else none

/-- A size. -/
def size? (value : String) : Option Nat :=
  (Decimal.readUInt64? (Bytes.ofString value)).map UInt64.toNat

/-- The configuration with a setting changed, if the value is one for the setting. -/
def assign (s : Setting) (value : String) (c : Config) : Option Config :=
  match s with
  | .port => (port? value).map fun port => { c with port }
  | .bind => (Address.read? value).map fun bind => { c with bind }
  | .minimumBufferSize =>
    (size? value).map fun n => { c with sizes := { c.sizes with minimumBuffer := n } }
  | .writeBufferHighWaterMark =>
    (size? value).map fun n => { c with sizes := { c.sizes with writeBudget := n } }
  | .maxFrameSize =>
    (size? value).map fun n => { c with sizes := { c.sizes with maxFrame := n } }
  | .deliveryQueueCapacity =>
    (size? value).map fun n => { c with sizes := { c.sizes with queueCapacity := n } }

end Setting

/-- Why there is no configuration. -/
inductive Stop where
  /-- A value is not one for its setting. -/
  | badValue (setting : Setting)
  /-- An argument is no option and no value of one. -/
  | unknownArgument (argument : String)
  /-- An option has no value. -/
  | missingValue (setting : Setting)
  /-- An option that takes no value has one. -/
  | unneededValue (option : String)
  /-- A setting is given twice. -/
  | repeated (setting : Setting)
  /-- The user asks what the options are. -/
  | help
  /-- The user asks for the version. -/
  | version
  deriving Repr, DecidableEq

/-- How far the arguments have been read. -/
structure Progress where
  /-- The configuration as far as it is known. -/
  config : Config := {}
  /-- The settings that have been given. -/
  given : List Setting := []
  /-- An option that was read last, with its value if that was an argument of its own. -/
  pending : Option (Setting × Option String) := none
  deriving Repr, DecidableEq

namespace Progress

/-- Gives a setting its value. -/
def give (p : Progress) (s : Setting) (value : String) : Except Stop Progress :=
  match s.assign value p.config with
  | none => .error (.badValue s)
  | some config => .ok { p with config, given := s :: p.given }

/-- Gives a setting its value on the command line, where no setting can be given twice. -/
def giveOnce (p : Progress) (s : Setting) (value : String) : Except Stop Progress :=
  if s ∈ p.given then .error (.repeated s) else p.give s value

/-- Uses the option that was read last. -/
def settle (p : Progress) : Except Stop Progress :=
  match p.pending with
  | none => .ok p
  | some (s, none) => .error (.missingValue s)
  | some (s, some value) => { p with pending := none }.giveOnce s value

/-- Reads an option with its value attached, or one whose value is to come. -/
def option (p : Progress) (s : Setting) (attached : Option String) : Except Stop Progress := do
  let p ← p.settle
  match attached with
  | some value => p.giveOnce s value
  | none => return { p with pending := some (s, none) }

/-- Stops for something that was asked for, unless the option before it has an error. -/
def ask (p : Progress) (wish : Stop) : Except Stop Progress := do
  let _ ← p.settle
  throw wish

/-- Reads an argument behind two dashes. -/
def long (p : Progress) (argument : String) (body : List Char) : Except Stop Progress :=
  let name := String.ofList (body.takeWhile (· ≠ '='))
  let attached := match body.dropWhile (· ≠ '=') with
    | [] => none
    | _ :: value => some (String.ofList value)
  match Setting.all.find? fun s => s.long = name with
  | some s => p.option s attached
  | none =>
    if name = "help" ∨ name = "version" then
      match attached with
      | some _ => .error (.unneededValue argument)
      | none => p.ask (if name = "help" then .help else .version)
    else .error (.unknownArgument argument)

/-- Reads an argument behind one dash. What follows the name of the option is its value; an
equals sign in front of it is not part of it. -/
def short (p : Progress) (argument : String) : List Char → Except Stop Progress
  | [] => .ok p
  | c :: rest =>
    match Setting.all.find? fun s => s.short? = some c with
    | some s =>
      p.option s <| match rest with
        | [] => none
        | '=' :: value => some (String.ofList value)
        | value => some (String.ofList value)
    | none =>
      if c = 'h' then p.ask .help
      else if c = 'V' then p.ask .version
      else .error (.unknownArgument argument)

/-- Reads arguments up to the end. Behind two dashes alone no argument is an option or a value
any more. -/
def arguments (p : Progress) : List String → Except Stop Progress
  | [] => p.settle
  | argument :: rest =>
    match argument.toList with
    | ['-', '-'] =>
      match rest with
      | [] => p.settle
      | extra :: _ => .error (.unknownArgument extra)
    | '-' :: '-' :: body => do (← p.long argument body).arguments rest
    | '-' :: c :: body => do (← p.short argument (c :: body)).arguments rest
    | _ =>
      match p.pending with
      | some (s, none) => { p with pending := some (s, some argument) }.arguments rest
      | _ => .error (.unknownArgument argument)

/-- Takes settings that were not given from the environment. -/
def environment (p : Progress) (look : String → Option String) :
    List Setting → Except Stop Progress
  | [] => .ok p
  | s :: settings =>
    if s ∈ p.given then p.environment look settings
    else
      match look s.envName with
      | none => p.environment look settings
      | some value => do (← p.give s value).environment look settings

end Progress

/-- The configuration that arguments and environment variables give. The names of the
variables are looked up without what all of them start with. -/
def parse (arguments : List String) (look : String → Option String) : Except Stop Config := do
  let p ← ({} : Progress).arguments arguments
  let p ← p.environment look Setting.all
  return p.config

end CommandLine

end RespStore
