import RespStore.CommandLine

/-!
# What the program says about its command line

The help text has a line for every setting: its options, what it is for, the environment
variable that is looked at when no option is given, and the default.
-/

namespace RespStore.CommandLine

/-- The name of the program. -/
def programName : String := "respgrid"

/-- The version of the program. -/
def programVersion : String := "0.1.0"

/-- What the names of all environment variables start with. -/
def environmentStart : String := "RESPGRID_"

namespace Setting

/-- What a setting is for. -/
def purpose : Setting → String
  | .port => "The port to listen on"
  | .bind => "The address to listen at"
  | .minimumBufferSize => "Least room for a chunk of replies, in bytes"
  | .writeBufferHighWaterMark => "Reply bytes above which nothing is read until they are written"
  | .maxFrameSize => "Largest request accepted, in bytes"
  | .deliveryQueueCapacity => "Messages that wait for a connection before new ones are lost"

/-- The value of a setting, as it would be given. -/
def value (c : Config) : Setting → String
  | .port => Decimal.text c.port.toNat
  | .bind => c.bind.text
  | .minimumBufferSize => Decimal.text c.sizes.minimumBuffer
  | .writeBufferHighWaterMark => Decimal.text c.sizes.writeBudget
  | .maxFrameSize => Decimal.text c.sizes.maxFrame
  | .deliveryQueueCapacity => Decimal.text c.sizes.queueCapacity

/-- The options for a setting. -/
def options (s : Setting) : String :=
  match s.short? with
  | none => "    --" ++ s.long
  | some c => String.ofList ['-', c] ++ ", --" ++ s.long

/-- The help text of a setting. -/
def help (s : Setting) : String :=
  "  " ++ s.options ++ " <VALUE>\n          " ++ s.purpose ++
    " [env: " ++ environmentStart ++ s.envName ++ "] [default: " ++ s.value {} ++ "]\n"

end Setting

/-- The help text. -/
def helpText : String :=
  "Usage: " ++ programName ++ " [OPTIONS]\n\nOptions:\n" ++
    String.join (Setting.all.map Setting.help) ++
    "  -h, --help\n          Print help\n  -V, --version\n          Print version\n"

/-- What is said when there is no configuration. -/
def Stop.message : Stop → String
  | .badValue s => "error: invalid value for --" ++ s.long ++ "\n"
  | .unknownArgument argument => "error: unexpected argument '" ++ argument ++ "'\n"
  | .missingValue s => "error: a value is required for --" ++ s.long ++ "\n"
  | .unneededValue option => "error: unexpected value in '" ++ option ++ "'\n"
  | .repeated s => "error: --" ++ s.long ++ " cannot be used multiple times\n"
  | .help => helpText
  | .version => programName ++ " " ++ programVersion ++ "\n"

/-- Whether the user got what was asked for. -/
def Stop.isWish : Stop → Bool
  | .help => true
  | .version => true
  | _ => false

end RespStore.CommandLine
