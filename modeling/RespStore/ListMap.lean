import RespStore.Task

/-!
# Lists by key

The list operations of the store: each reads or changes the list of one key in one call. A
call that answers with an output of another shape than its transform has is a failure of the
store.
-/

namespace RespStore

/-- Why a list operation did not succeed. -/
inductive ListError where
  /-- The operation cannot be carried out with this argument or on this value. -/
  | argument (reason : String)
  /-- The key holds something else than a list. -/
  | wrongType
  /-- The store failed. -/
  | store (cause : StoreError)
  deriving Repr, DecidableEq

namespace ListError

/-- The text that reports a list error. -/
def message : ListError → String
  | .argument reason => "ERR " ++ reason
  | .wrongType => "WRONGTYPE Operation against a key holding the wrong kind of value"
  | .store cause => cause.message

/-- An error of the store, seen as a list error. -/
def ofStore : StoreError → ListError
  | .wrongType _ => .wrongType
  | .invalidValue reason => .argument reason
  | .unavailable reason => .store (.unavailable reason)

end ListError

/-- The text that reports an output of the wrong shape. -/
def Output.unexpected (output : Output) : String :=
  "unexpected transform output " ++ output.describe

namespace ListMap

/-- A list operation: a task that may end in a list error. -/
abbrev Operation (α : Type) := ExceptT ListError Task α

/-- Applies a transform and reads its output. -/
def applied {α : Type} (key : Bytes) (transform : Transform) (read? : Output → Option α) :
    Operation α := do
  match ← ExceptT.lift (Task.ask (.apply key transform)) with
  | .error e => throw (.ofStore e)
  | .ok output =>
    match read? output with
    | some value => return value
    | none => throw (.store (.unavailable output.unexpected))

/-- The number of elements; an absent key has none. -/
def size (key : Bytes) : Operation Nat := do
  match ← ExceptT.lift (Task.ask (.get key)) with
  | .error e => throw (.ofStore e)
  | .ok none => return 0
  | .ok (some (.list items)) => return items.length
  | .ok (some _) => throw .wrongType

/-- Adds values at one end in one update, and answers the length afterwards. -/
def offer (key : Bytes) (values : List Bytes) (side : ListEnd) : Operation Nat :=
  applied key (.offer values side) fun
    | .size length => some length
    | _ => none

/-- The element at an offset, if there is one. -/
def index (key : Bytes) (offset : Int64) : Operation (Option Bytes) :=
  applied key (.index offset) fun
    | .element value => some value
    | _ => none

/-- The elements between two offsets, both included; nothing when the key is absent. -/
def sublist (key : Bytes) (first last : Int64) : Operation (Option (List Bytes)) :=
  applied key (.sublist first last) fun
    | .elements values => some values
    | _ => none

/-- Takes up to `count` elements off one end, and answers them from head to tail; nothing when
the key is absent. A negative count is refused before the store is asked. -/
def poll (key : Bytes) (side : ListEnd) (count : Int64) : Operation (Option (List Bytes)) :=
  if count < 0 then throw (.argument "value is out of range, must be positive")
  else
    applied key (.poll side count.toNatClampNeg) fun
      | .elements values => some values
      | _ => none

end ListMap

end RespStore
