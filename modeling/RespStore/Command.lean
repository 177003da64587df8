import RespStore.ListValue
import RespStore.Request

/-!
# Commands

What a client can ask for, with arguments that have been read. Commands that work on either
end of a list carry the end they work on; each end has a name of its own.
-/

namespace RespStore

/-- What to compute about a longest common subsequence, and how to report it. -/
structure LcsQuery where
  /-- The key of the first byte string. -/
  key₁ : Bytes
  /-- The key of the second byte string. -/
  key₂ : Bytes
  /-- Whether only the length is asked for. -/
  onlyLength : Bool := false
  /-- Whether the matching ranges are asked for. -/
  ranges : Bool := false
  /-- The least length of a range that is reported. -/
  minLength : Nat := 0
  /-- Whether the length of each range is reported. -/
  withLengths : Bool := false
  deriving Repr, DecidableEq

/-- A command with its arguments. -/
inductive Command where
  /-- Removes keys. -/
  | del (keys : List Bytes)
  /-- Reads a byte string. -/
  | get (key : Bytes)
  /-- Adds to a number. -/
  | incrByFloat (key : Bytes) (increment : Float)
  /-- Compares two byte strings. -/
  | lcs (query : LcsQuery)
  /-- Stores a byte string. -/
  | set (key value : Bytes)
  /-- Reads one element of a list. -/
  | lindex (key : Bytes) (index : Int64)
  /-- Counts the elements of a list. -/
  | llen (key : Bytes)
  /-- Takes elements off one end of a list; one element when no count is given. -/
  | pop (side : ListEnd) (key : Bytes) (count : Option Int64)
  /-- Adds values at one end of a list. -/
  | push (side : ListEnd) (key : Bytes) (values : List Bytes)
  /-- Reads a range of a list. -/
  | lrange (key : Bytes) (start stop : Int64)
  /-- Sends a message on a channel. -/
  | publish (channel message : Bytes)
  /-- Starts listening to channels. -/
  | subscribe (channels : List Bytes)
  /-- Stops listening to channels, or to all of them when none is named. -/
  | unsubscribe (channels : List Bytes)
  /-- Describes the connection; acknowledged without effect. -/
  | client (subcommand : Bytes)
  /-- Reads or changes a setting. -/
  | config (subcommand parameter : String)
  /-- Asks for the message back. -/
  | echo (message : Bytes)
  /-- Asks for a sign of life, or for the payload back. -/
  | ping (payload : Option Bytes)
  /-- Ends the connection. -/
  | quit
  /-- Acknowledged without effect. -/
  | readOnly
  /-- Acknowledged without effect. -/
  | readWrite
  deriving Repr, DecidableEq

/-- The name of a command, in lower case. -/
def Command.name : Command → String
  | .del _ => "del"
  | .get _ => "get"
  | .incrByFloat _ _ => "incrbyfloat"
  | .lcs _ => "lcs"
  | .set _ _ => "set"
  | .lindex _ _ => "lindex"
  | .llen _ => "llen"
  | .pop .head _ _ => "lpop"
  | .pop .tail _ _ => "rpop"
  | .push .head _ _ => "lpush"
  | .push .tail _ _ => "rpush"
  | .lrange _ _ _ => "lrange"
  | .publish _ _ => "publish"
  | .subscribe _ => "subscribe"
  | .unsubscribe _ => "unsubscribe"
  | .client _ => "client"
  | .config _ _ => "config"
  | .echo _ => "echo"
  | .ping _ => "ping"
  | .quit => "quit"
  | .readOnly => "readonly"
  | .readWrite => "readwrite"

/-- How many arguments a command takes, its name not counted. -/
inductive Arity where
  /-- So many. -/
  | exactly (n : Nat)
  /-- So many or more. -/
  | atLeast (n : Nat)
  /-- Not fewer and not more. -/
  | between (least most : Nat)
  deriving Repr, DecidableEq

/-- Whether a number of arguments is right. -/
def Arity.accepts (a : Arity) (args : Nat) : Bool :=
  match a with
  | .exactly n => args = n
  | .atLeast n => n ≤ args
  | .between least most => least ≤ args ∧ args ≤ most

/-- Why a request is not a command. -/
inductive CommandError where
  /-- No command has this name. -/
  | unknownCommand (name : Bytes) (args : List Bytes)
  /-- The command takes another number of arguments. -/
  | wrongArity (command : String)
  /-- An argument is not a 64-bit signed integer. -/
  | notAnInteger
  /-- An argument is not a number. -/
  | notAFloat
  /-- An option is not known, or is not text. -/
  | badSyntax
  /-- The options contradict each other. -/
  | invalid (reason : String)
  /-- An argument is missing. -/
  | endOfArguments
  deriving Repr, DecidableEq

/-- The text that reports a command error. -/
def CommandError.message : CommandError → String
  | .unknownCommand name args =>
    "ERR unknown command '" ++ Utf8.lossy name ++ "', with args beginning with: " ++
      " ".intercalate (args.map fun arg => "'" ++ Utf8.lossy arg ++ "'")
  | .wrongArity command => "ERR wrong number of arguments for '" ++ command ++ "' command"
  | .notAnInteger => "ERR value is not an integer or out of range"
  | .notAFloat => "ERR value is not a valid float"
  | .badSyntax => "ERR syntax error"
  | .invalid reason => "ERR " ++ reason
  | .endOfArguments =>
    "ERR protocol error; attempting to extract a value failed due to the frame being fully consumed"

end RespStore
