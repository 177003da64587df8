import RespStore.Command
import RespStore.Lcs
import RespStore.ListMap
import RespStore.Reply
import RespStore.Text.Upper

/-!
# Carrying out commands

What each command does with the store and what it replies. A command that does not come to
its reply either has an error reply, after which the connection goes on, or fails for good,
because the store is unavailable; that ends the connection.
-/

namespace RespStore

/-- Why a command did not come to its reply. -/
inductive Failure where
  /-- The client is told, and the connection goes on. -/
  | reply (text : String)
  /-- The connection cannot go on. -/
  | fatal (text : String)
  deriving Repr, DecidableEq

namespace Failure

/-- The failure that an error of the store means. Only an unavailable store is fatal. -/
def ofStore : StoreError → Failure
  | .wrongType _ => .reply ListError.wrongType.message
  | .invalidValue reason => .reply ("ERR " ++ reason)
  | .unavailable reason => .fatal (StoreError.unavailable reason).message

/-- The failure that a list error means. One of the store is what it is without a list. -/
def ofList : ListError → Failure
  | .store cause => ofStore cause
  | e => .reply e.message

/-- An error of the store means the same whether it is seen as a list error or not. -/
theorem ofList_ofStore (e : StoreError) : ofList (.ofStore e) = ofStore e := by
  cases e with
  | wrongType actual => rfl
  | invalidValue reason => rfl
  | unavailable reason => rfl

end Failure

/-- A piece of work for a command: a task that may end in a failure. -/
abbrev Action (α : Type) := ExceptT Failure Task α

namespace Action

/-- Makes a call to the store; an error of the store is a failure. -/
def call {α : Type} (request : Task (Except StoreError α)) : Action α := do
  match ← ExceptT.lift request with
  | .error e => throw (.ofStore e)
  | .ok value => return value

/-- Reads a key. -/
def get (key : Bytes) : Action (Option Value) := call (Task.ask (.get key))

/-- Applies a transform to a key. -/
def apply (key : Bytes) (transform : Transform) : Action Output :=
  call (Task.ask (.apply key transform))

/-- Carries out a list operation; a list error is a failure. -/
def ofList {α : Type} (operation : ListMap.Operation α) : Action α := do
  match ← ExceptT.lift operation.run with
  | .error e => throw (.ofList e)
  | .ok value => return value

end Action

namespace Execution

/-- Removes keys one by one, and counts those that were there. -/
def removeEach (count : Nat) : List Bytes → Action Nat
  | [] => return count
  | key :: keys => do
    let output ← Action.apply key .remove
    removeEach (if output = .flag true then count + 1 else count) keys

/-- `DEL`: how many of the keys were there. -/
def del (keys : List Bytes) : Action Reply := return .count (← removeEach 0 keys)

/-- `GET`: the byte string that a key holds. -/
def get (key : Bytes) : Action Reply := do
  match ← Action.get key with
  | none => return .null
  | some (.bytes content) => return .bulk content
  | some (.list _) => throw (.ofList .wrongType)

/-- `INCRBYFLOAT`: the sum. -/
def incrByFloat (key : Bytes) (increment : Float) : Action Reply := do
  match ← Action.apply key (.increment increment) with
  | .float sum => return .double sum
  | output => throw (.fatal output.unexpected)

/-- The byte string that a key holds, for a comparison. An absent key counts as empty. -/
def operand (key : Bytes) : Action Bytes := do
  match ← Action.get key with
  | none => return []
  | some (.bytes content) => return content
  | some (.list _) => throw (.reply "ERR The specified keys must contain string values")

/-- The ranges that a query reports. -/
def report (query : LcsQuery) (runs : List Lcs.Run) : List MatchRange :=
  (runs.filter fun run => query.minLength ≤ run.length).map fun run =>
    ⟨run.a, run.b, if query.withLengths then some run.length else none⟩

/-- `LCS`: the length of the subsequence, the subsequence, or its ranges. The table is filled
aside, because that takes long. -/
def lcs (query : LcsQuery) : Action Reply := do
  let a ← operand query.key₁
  let b ← operand query.key₂
  ExceptT.lift (Task.aside (.done ()))
  match Lcs.solve a b Lcs.defaultLimit with
  | .error e => throw (.reply e.message)
  | .ok alignment =>
    let total := alignment.sequence.length
    if query.onlyLength then return .count total
    else if query.ranges then return .alignment (report query alignment.runs) total
    else return .bulk alignment.sequence

/-- `SET`: an acknowledgement. -/
def set (key value : Bytes) : Action Reply := do
  let _ ← Action.apply key (.put value)
  return .ok

/-- `LINDEX`: the element, or null. -/
def lindex (key : Bytes) (index : Int64) : Action Reply :=
  return .optional (← Action.ofList (ListMap.index key index))

/-- `LLEN`: the number of elements. -/
def llen (key : Bytes) : Action Reply := return .count (← Action.ofList (ListMap.size key))

/-- The order in which elements taken off an end were met there. -/
def inOrderOf : ListEnd → List Bytes → List Bytes
  | .head, items => items
  | .tail, items => items.reverse

/-- `LPOP` and `RPOP`: one element without a count, else all that were taken, in the order in
which they were taken. -/
def pop (side : ListEnd) (key : Bytes) (count : Option Int64) : Action Reply := do
  let taken ← Action.ofList (ListMap.poll key side (count.getD 1))
  match count, taken.map (inOrderOf side) with
  | none, items => return .optional (items.bind List.head?)
  | some _, some items => return .bulks items
  | some _, none => return .nullArray

/-- `LPUSH` and `RPUSH`: the length afterwards. -/
def push (side : ListEnd) (key : Bytes) (values : List Bytes) : Action Reply :=
  return .count (← Action.ofList (ListMap.offer key values side))

/-- `LRANGE`: the elements. -/
def lrange (key : Bytes) (start stop : Int64) : Action Reply :=
  return .bulks ((← Action.ofList (ListMap.sublist key start stop)).getD [])

/-- `PUBLISH`: the message becomes the value of the channel's key, and how many connections
will hear of it is not known. -/
def publish (channel message : Bytes) : Action Reply := do
  let _ ← Action.apply channel (.put message)
  return .count 0

/-- `CONFIG`: settings read as empty, except for the one that says that nothing is logged to
disk. Changes are acknowledged without effect. -/
def config (subcommand parameter : String) : Action Reply :=
  if Upper.spells subcommand "GET" then
    if parameter.toList.any fun c => c = '*' ∨ c = '?' then
      throw (.reply "ERR CONFIG blob pattern matching not implemented")
    else
      let value :=
        if Bytes.lower (Bytes.ofString parameter) = Bytes.ofString "appendonly" then "no" else ""
      return .array [.simple parameter, .simple value]
  else if Upper.spells subcommand "SET" then return .ok
  else throw (.reply ("ERR CONFIG " ++ subcommand ++ " not implemented"))

/-- `PING`: the payload, or a sign of life. -/
def pong (payload : Option Bytes) : Reply := .bulk (payload.getD (Bytes.ofString "PONG"))

end Execution

end RespStore
