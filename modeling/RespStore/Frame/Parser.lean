import RespStore.Frame

/-!
# Reading frames

`Frame.parse` reads one frame off the front of a byte string. The first byte gives the
frame's type; a line runs up to the first CR LF behind it; a payload is as long as its header
announces and may hold any bytes. A frame whose end is not there yet is `incomplete`, and
nothing is announced that the input does not pay for: every step of the parser is carried by
bytes it has consumed, which is also why it ends.

Each reader tells how many bytes it took and what is left of its input, together with a proof
that the two make up the input and that it took something.
-/

namespace RespStore.Frame

/-- A value read off the front of `input`, and what follows it. -/
structure Read (α : Type) (input : Bytes) where
  /-- The value that was read. -/
  value : α
  /-- How many bytes it takes up. -/
  taken : Nat
  /-- The bytes behind it. -/
  rest : Bytes
  /-- Reading consumes at least one byte. -/
  taken_pos : 0 < taken
  /-- What is left and what was taken make up the input. -/
  length_rest_add : rest.length + taken = input.length

/-- A reading leaves less than there was, because it takes something. -/
theorem Read.shorter {α : Type} {input : Bytes} (r : Read α input) :
    r.rest.length < input.length := by
  have := r.taken_pos
  have := r.length_rest_add
  omega

/-- Cuts a byte string at its first CR LF, behind the bytes already passed, which stand in
reverse: the line before it and what follows it. -/
def cutLine (passed : Bytes) : Bytes → Option (Bytes × Bytes)
  | [] => none
  | 13 :: 10 :: rest => some (passed.reverse, rest)
  | b :: rest => cutLine (b :: passed) rest

/-- A line, its two closing bytes and what follows make up all bytes, those already passed
included. -/
theorem length_of_cutLine {passed input line rest : Bytes}
    (h : cutLine passed input = some (line, rest)) :
    line.length + 2 + rest.length = passed.length + input.length := by
  fun_induction cutLine passed input with
  | case1 => simp at h
  | case2 passed rest' =>
    simp only [Option.some.injEq, Prod.mk.injEq] at h
    obtain ⟨rfl, rfl⟩ := h
    simp only [List.length_reverse, List.length_cons]
    omega
  | case3 passed b rest' _ ih =>
    have := ih h
    simp only [List.length_cons] at this ⊢
    omega

/-- Reads a line, without its CR LF. -/
def line (input : Bytes) : Except ParseError (Read Bytes input) :=
  match h : cutLine [] input with
  | none => .error .incomplete
  | some (line, rest) => .ok ⟨line, line.length + 2, rest, by omega, by
      have := length_of_cutLine h
      simp only [List.length_nil] at this
      omega⟩

/-- The same reading with another value. -/
def Read.withValue {α β : Type} {input : Bytes} (r : Read α input) (value : β) :
    Read β input :=
  { r with value }

/-- A reading, seen as a reading of an input with one more byte in front. -/
def Read.behind {α : Type} {input : Bytes} (r : Read α input) (b : UInt8) :
    Read α (b :: input) :=
  ⟨r.value, r.taken + 1, r.rest, by omega, by
    have := r.length_rest_add
    simp only [List.length_cons]
    omega⟩

/-- A reading of what another reading left, seen as a reading of the whole input. -/
def Read.after {α β : Type} {input : Bytes} (first : Read α input) (r : Read β first.rest) :
    Read β input :=
  ⟨r.value, first.taken + r.taken, r.rest, by
    have := first.taken_pos
    omega, by
    have := first.length_rest_add
    have := r.length_rest_add
    omega⟩

/-- Reads a line of text. -/
def textLine (input : Bytes) : Except ParseError (Read String input) :=
  match line input with
  | .error e => .error e
  | .ok r =>
    match Bytes.toString? r.value with
    | none => .error .notText
    | some text => .ok (r.withValue text)

/-- Reads a line that holds a 64-bit signed integer, answering `fault` when it holds
something else. -/
def integerLine (fault : ParseError) (input : Bytes) : Except ParseError (Read Int64 input) :=
  match line input with
  | .error e => .error e
  | .ok r =>
    match Bytes.toString? r.value with
    | none => .error .notText
    | some _ =>
      match Decimal.readInt64? r.value with
      | none => .error fault
      | some value => .ok (r.withValue value)

/-- Reads a length header. Minus one is the null marker. -/
def lengthLine (input : Bytes) : Except ParseError (Read (Option Nat) input) :=
  match integerLine .badLength input with
  | .error e => .error e
  | .ok r =>
    if r.value = -1 then .ok (r.withValue none)
    else if r.value < 0 then .error .badLength
    else .ok (r.withValue (some r.value.toNatClampNeg))

/-- Reads a payload of `length` bytes and the CR LF behind it. -/
def payload (length : Nat) (input : Bytes) : Except ParseError (Read Bytes input) :=
  match h : input.drop length with
  | 13 :: 10 :: rest => .ok ⟨input.take length, length + 2, rest, by omega, by
      have := congrArg List.length h
      simp only [List.length_drop, List.length_cons] at this
      omega⟩
  | _ :: _ :: _ => .error .unterminated
  | _ => .error .incomplete

/-- Several values read off the front of `input`, and what follows them. -/
structure ReadMany (α : Type) (input : Bytes) where
  /-- The values that were read. -/
  values : List α
  /-- How many bytes they take up. -/
  taken : Nat
  /-- The bytes behind them. -/
  rest : Bytes
  /-- What is left and what was taken make up the input. -/
  length_rest_add : rest.length + taken = input.length

/-- No values. -/
def ReadMany.nil {α : Type} (input : Bytes) : ReadMany α input :=
  ⟨[], 0, input, rfl⟩

/-- A value, and the values behind it. -/
def ReadMany.cons {α : Type} {input : Bytes} (r : Read α input) (more : ReadMany α r.rest) :
    ReadMany α input :=
  ⟨r.value :: more.values, r.taken + more.taken, more.rest, by
    have := r.length_rest_add
    have := more.length_rest_add
    omega⟩

/-- A header, and the values behind it, as one reading. -/
def ReadMany.behind {α β γ : Type} {input : Bytes} (header : Read β input)
    (r : ReadMany α header.rest) (value : γ) : Read γ input :=
  ⟨value, header.taken + r.taken, r.rest, by
    have := header.taken_pos
    omega, by
    have := header.length_rest_add
    have := r.length_rest_add
    omega⟩

mutual

/-- Reads one frame off the front of the input. -/
def parse (input : Bytes) : Except ParseError (Read Frame input) :=
  match input with
  | [] => .error .incomplete
  | 43 :: body => (textLine body).map fun r => (r.withValue (.simple r.value)).behind 43
  | 45 :: body => (textLine body).map fun r => (r.withValue (.error r.value)).behind 45
  | 58 :: body =>
    (integerLine .badInteger body).map fun r => (r.withValue (.integer r.value)).behind 58
  | 36 :: body =>
    match lengthLine body with
    | .error e => .error e
    | .ok header =>
      match header.value with
      | none => .ok ((header.withValue .null).behind 36)
      | some length =>
        (payload length header.rest).map fun r =>
          (header.after (r.withValue (.bulk r.value))).behind 36
  | 42 :: body =>
    match lengthLine body with
    | .error e => .error e
    | .ok header =>
      match header.value with
      | none => .ok ((header.withValue .null).behind 42)
      | some length =>
        have := header.shorter
        (parseMany length header.rest).map fun items =>
          (items.behind header (.array items.values)).behind 42
  | 95 :: body => (line body).map fun r => (r.withValue .null).behind 95
  | byte :: _ => .error (.unknownType byte)
termination_by 2 * input.length

/-- Reads `count` frames one behind the other. -/
def parseMany (count : Nat) (input : Bytes) : Except ParseError (ReadMany Frame input) :=
  match count with
  | 0 => .ok (.nil input)
  | count + 1 =>
    match parse input with
    | .error e => .error e
    | .ok item =>
      have := item.shorter
      (parseMany count item.rest).map (.cons item)
termination_by 2 * input.length + 1

end

end RespStore.Frame
