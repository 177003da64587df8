import RespStore.Decimal.Real
import RespStore.ListValue
import RespStore.Text.Quoted

/-!
# Values and how they change

A key holds a byte string or a list of byte strings. Values change by *transforms*: functions
from the value a key holds now, if it holds one, to what is to become of it and to an output
for the caller. A transform has no effect of its own, so the store may run it again when the
key has changed in the meantime.
-/

namespace RespStore

/-- What a key holds. -/
inductive Value where
  /-- A byte string. -/
  | bytes (content : Bytes)
  /-- A list of byte strings, from head to tail. -/
  | list (items : List Bytes)
  deriving Repr, DecidableEq

/-- The type of a value, as errors name it. -/
def Value.typeName : Value → String
  | .bytes _ => "string"
  | .list _ => "list"

/-- What is to become of a key. -/
inductive Update where
  /-- The key stays as it is. -/
  | keep
  /-- The key holds a new value. -/
  | put (value : Value)
  /-- The key is gone. -/
  | remove
  deriving Repr, DecidableEq

/-- What the caller of a transform learns. -/
inductive Output where
  /-- Nothing. -/
  | unit
  /-- Whether something was the case. -/
  | flag (value : Bool)
  /-- A double. -/
  | float (value : Float)
  /-- The length of the value after the update. -/
  | size (length : Nat)
  /-- One element of a list, if there is one. -/
  | element (value : Option Bytes)
  /-- Elements of a list. Absent when the key held nothing. -/
  | elements (values : Option (List Bytes))
  deriving Repr, DecidableEq

namespace Output

/-- An optional part of an output, in diagnostics. -/
def describeOption (part : Option String) : String :=
  match part with
  | none => "None"
  | some text => "Some(" ++ text ++ ")"

/-- The form of an output in diagnostics. -/
def describe : Output → String
  | .unit => "Unit"
  | .flag value => "Flag(" ++ (if value then "true" else "false") ++ ")"
  | .float value => "Float(" ++ Decimal.Real.describe value ++ ")"
  | .size length => "Size(" ++ Decimal.text length ++ ")"
  | .element value => "Element(" ++ describeOption (value.map Quoted.bytes) ++ ")"
  | .elements values =>
    "Elements(" ++ describeOption (values.map fun items =>
      "[" ++ ", ".intercalate (items.map Quoted.bytes) ++ "]") ++ ")"

end Output

/-- What a transform makes of a value: the update it asks for and the output that goes with
it. -/
structure Decision where
  /-- What is to become of the key. -/
  update : Update
  /-- What the caller learns once that has happened. -/
  output : Output
  deriving Repr, DecidableEq

/-- A decision that changes nothing. -/
def Decision.read (output : Output) : Decision := ⟨.keep, output⟩

/-- Why the store did not do what it was asked. -/
inductive StoreError where
  /-- The key holds a value of another type than the operation needs. -/
  | wrongType (actual : String)
  /-- The value cannot be used by the operation. -/
  | invalidValue (reason : String)
  /-- The store itself failed. -/
  | unavailable (reason : String)
  deriving Repr, DecidableEq

/-- The text that reports an error of the store. -/
def StoreError.message : StoreError → String
  | .wrongType actual => "key holds a " ++ actual ++ " value"
  | .invalidValue reason => reason
  | .unavailable reason => "store unavailable: " ++ reason

/-- A function from what a key holds to what is to become of it. -/
abbrev Transform := Option Value → Except StoreError Decision

namespace Transform

/-- The list that a key holds, or none when the key is absent. -/
def listOf : Option Value → Except StoreError (Option (List Bytes))
  | none => .ok none
  | some (.list items) => .ok (some items)
  | some other => .error (.wrongType other.typeName)

/-- Adds values at one end of a list, all in one update. An absent key becomes a list. -/
def offer (values : List Bytes) (side : ListEnd) : Transform := fun current => do
  let items := ListValue.offer ((← listOf current).getD []) values side
  return ⟨.put (.list items), .size items.length⟩

/-- Reads the element at an offset. -/
def index (offset : Int64) : Transform := fun current => do
  return .read (.element ((← listOf current).bind fun items => ListValue.index items offset))

/-- Reads the elements between two offsets. -/
def sublist (first last : Int64) : Transform := fun current => do
  return .read (.elements ((← listOf current).map fun items => ListValue.sublist items first last))

/-- Takes up to `count` elements off one end. A list that loses its last element is removed:
there are no empty lists. -/
def poll (side : ListEnd) (count : Nat) : Transform := fun current => do
  match ← listOf current with
  | none => return .read (.elements none)
  | some items =>
    if count = 0 then return .read (.elements (some []))
    else
      let (taken, rest) := ListValue.poll items side count
      return ⟨if rest = [] then .remove else .put (.list rest), .elements (some taken)⟩

/-- Stores a byte string, whatever the key held. -/
def put (content : Bytes) : Transform := fun _ => .ok ⟨.put (.bytes content), .unit⟩

/-- Removes the key, and tells whether it held anything. -/
def remove : Transform := fun
  | none => .ok (.read (.flag false))
  | some _ => .ok ⟨.remove, .flag true⟩

/-- The number that a key holds. An absent key counts as zero. -/
def numberOf : Option Value → Except StoreError Float
  | none => .ok 0
  | some (.bytes content) =>
    match Decimal.Real.read? content with
    | some value => .ok value
    | none => .error (.invalidValue "value is not a valid float")
  | some other => .error (.wrongType other.typeName)

/-- Adds to the number that a key holds, and stores the text of the sum. -/
def increment (by_ : Float) : Transform := fun current => do
  let sum := (← numberOf current) + by_
  if sum.isFinite then
    return ⟨.put (.bytes (Bytes.ofString (Decimal.Real.text sum))), .float sum⟩
  else throw (.invalidValue "increment would produce NaN or Infinity")

end Transform

end RespStore
