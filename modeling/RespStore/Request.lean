import RespStore.Frame
import RespStore.Text.Quoted

/-!
# Requests

A request is a command name followed by arguments, all of them byte strings. Clients send it
as an array of payloads; a line of text and an integer are taken for the payload they spell.
-/

namespace RespStore

/-- A command name and its arguments, in order. -/
structure Request where
  /-- The name of the command, in any case. -/
  name : Bytes
  /-- The arguments behind the name. -/
  args : List Bytes
  deriving Repr, DecidableEq, Inhabited

namespace Request

/-- Why a frame is not a request. -/
inductive ShapeError where
  /-- The frame is not an array. -/
  | notArray
  /-- An element of the array is neither a payload nor a line of text nor an integer. -/
  | notPayload
  /-- The array is empty, so there is no command name. -/
  | noName
  deriving Repr, DecidableEq

/-- The text that reports a misshapen request. -/
def ShapeError.message : ShapeError → String
  | .notArray => "Protocol error: expected '*'"
  | .notPayload => "Protocol error: expected bulk string"
  | .noName => "Protocol error: empty command"

/-- The byte string that an element of a request stands for. -/
def part? : Frame → Option Bytes
  | .bulk payload => some payload
  | .simple text => some (Bytes.ofString text)
  | .integer value => some (Decimal.ofInt value.toInt)
  | _ => none

/-- The byte strings that the elements of a request stand for, if each stands for one. -/
def parts? : List Frame → Option (List Bytes)
  | [] => some []
  | item :: items => (part? item).bind fun part => (parts? items).map (part :: ·)

/-- The request that a frame stands for. -/
def ofFrame : Frame → Except ShapeError Request
  | .array items =>
    match parts? items with
    | none => .error .notPayload
    | some [] => .error .noName
    | some (name :: args) => .ok ⟨name, args⟩
  | _ => .error .notArray

/-- The array of payloads that a client sends for a request. -/
def toFrame (r : Request) : Frame := .array ((r.name :: r.args).map .bulk)

/-- The one-line form of a request: its name, then every argument as quoted text. -/
def describe (r : Request) : String :=
  Utf8.lossy r.name ++ String.join (r.args.map fun arg => " " ++ Quoted.text (Utf8.lossy arg))

end Request

end RespStore
