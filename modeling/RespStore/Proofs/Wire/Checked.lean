import RespStore.Proofs.Fits
import RespStore.Proofs.Wire.Consumption

/-!
# Reading is safe

A frame is read off a buffer with a cursor. How far the cursor moves, and how many elements are
read, is announced by the client in numbers of up to 63 bits. `Checked.parse` is the same
computation with a check in front of every step that could go wrong, each of which ends in a fault
of its own: a position outside the buffer, a cursor behind its end, a length or a position that is
too large for its type, frames that are nested too deep, and frames that are begun too often.

The recursion is a recursion here as well, with one stack frame for each level of nesting. How many
levels there can be is bounded by a third of the length of the input, and not by a constant. How
much of a stack they take, and how large the stack of a thread is, is not part of the model.

* `Checked.Agrees` says of a reader with checks that it meets no fault and does what a reader
  without checks does. It has one rule for each way in which readers are put together.
* `Checked.Cursor.Affords` is what carries the recursion, and the loop inside it: the bytes in front
  of the cursor pay for as many frames as may still be read, whatever has been announced.
* `Checked.agrees_parse` follows by induction on how deep frames may be nested.
* `parse_safe` is the main result, about all buffers and all positions in them.
-/

namespace RespStore.Frame

namespace Checked

/-- What can go wrong. -/
inductive Fault where
  /-- A position is outside the buffer. -/
  | outOfBounds
  /-- The cursor is moved past the end of the buffer. -/
  | pastEnd
  /-- A length or a position is too large for its type. -/
  | overflow
  /-- Frames are nested deeper than is allowed. -/
  | tooDeep
  /-- More frames are begun than are allowed. -/
  | tooMany
  deriving Repr, DecidableEq

/-- How far a buffer has been read. -/
structure Cursor where
  /-- The position of the next byte. -/
  position : Nat
  /-- How many frames may still be begun. -/
  frames : Nat
  deriving Repr, DecidableEq

/-- Something that is read with a cursor. The cursor stays where it has got to if the input is
refused. -/
abbrev Reading : Type → Type := ExceptT ParseError (StateT Cursor (Except Fault))

/-! ### The checks -/

/-- The sum of two lengths or positions, if it has 64 bits. -/
def sum (m n : Nat) : Reading Nat :=
  if m + n < 2 ^ 64 then return m + n else throwThe Fault .overflow

/-- Where the cursor is. -/
def position : Reading Nat := return (← get).position

/-- Makes room for elements that are about to be read, which must not take up `2 ^ 63` bytes. No
frame takes up more than 64 bytes without its text, its payload and its own elements. -/
def reserve (count : Nat) : Reading Unit :=
  if count * 64 < 2 ^ 63 then return () else throwThe Fault .overflow

/-- Begins a frame. -/
def begin : Reading Unit := do
  let c ← get
  match c.frames with
  | 0 => throwThe Fault .tooMany
  | frames + 1 => set { c with frames }

section Reading

variable (buffer : Bytes)

/-- How many bytes are in front of the cursor. -/
def remaining : Reading Nat := return buffer.length - (← position)

/-- The byte at a position. -/
def byteAt (i : Nat) : Reading UInt8 :=
  match buffer[i]? with
  | none => throwThe Fault .outOfBounds
  | some b => return b

/-- The bytes from one position up to another one. -/
def slice (first stop : Nat) : Reading Bytes :=
  if first ≤ stop ∧ stop ≤ buffer.length then return (buffer.drop first).take (stop - first)
  else throwThe Fault .outOfBounds

/-- Moves the cursor. -/
def moveTo (position : Nat) : Reading Unit :=
  if position ≤ buffer.length then modify fun c => { c with position }
  else throwThe Fault .pastEnd

/-! ### The readers -/

/-- The offset of the first CR LF. -/
def breakIn (bytes : Bytes) : Option Nat :=
  (bytes.zip bytes.tail).findIdx? fun pair => pair = (13, 10)

/-- Reads a byte. -/
def byte : Reading UInt8 := do
  if (← remaining buffer) = 0 then throw .incomplete
  else
    let start ← position
    let b ← byteAt buffer start
    moveTo buffer (← sum start 1)
    return b

/-- Reads a line, without its CR LF. -/
def line : Reading Bytes := do
  let start ← position
  match breakIn (← slice buffer start buffer.length) with
  | none => throw .incomplete
  | some offset =>
    let stop ← sum start offset
    moveTo buffer (← sum stop 2)
    slice buffer start stop

/-- Reads a line of text. -/
def textLine : Reading String := do
  match Bytes.toString? (← line buffer) with
  | none => throw .notText
  | some text => return text

/-- Reads a line that holds a 64-bit signed integer. -/
def integerLine (cause : ParseError) : Reading Int64 := do
  let content ← line buffer
  match Bytes.toString? content, Decimal.readInt64? content with
  | none, _ => throw .notText
  | some _, none => throw cause
  | some _, some value => return value

/-- Reads a length header. -/
def lengthLine : Reading (Option Nat) := do
  let value ← integerLine buffer .badLength
  if value = -1 then return none
  else if value < 0 then throw .badLength
  else return some value.toNatClampNeg

/-- Reads a payload of `length` bytes and the CR LF behind it. -/
def payload (length : Nat) : Reading Bytes := do
  let needed ← sum length 2
  if (← remaining buffer) < needed then throw .incomplete
  else
    let start ← position
    let stop ← sum start length
    let content ← slice buffer start stop
    if (← slice buffer stop (← sum stop 2)) = Bytes.crlf then
      moveTo buffer (← sum start needed)
      return content
    else throw .unterminated

/-- Reads several frames, given how one is read. -/
def each (element : Reading Frame) : Nat → Reading (List Frame)
  | 0 => return []
  | count + 1 => do
    let item ← element
    let items ← each element count
    return item :: items

/-- Reads what stands behind the byte that gives the type of a frame, given how an element of it is
read. -/
def behind (element : Reading Frame) : UInt8 → Reading Frame
  | 43 => return .simple (← textLine buffer)
  | 45 => return .error (← textLine buffer)
  | 58 => return .integer (← integerLine buffer .badInteger)
  | 36 => do
    match ← lengthLine buffer with
    | none => return .null
    | some length => return .bulk (← payload buffer length)
  | 42 => do
    match ← lengthLine buffer with
    | none => return .null
    | some count =>
      reserve (min count 1024)
      return .array (← each element count)
  | 95 => do
    let _ ← line buffer
    return .null
  | type => throw (.unknownType type)

/-- Reads a frame, with frames nested in it to a depth below `depth`. -/
def parse : Nat → Reading Frame
  | 0 => throwThe Fault .tooDeep
  | depth + 1 => do
    begin
    behind buffer (parse depth) (← byte buffer)

end Reading

/-! ### Steps -/

section Steps

variable {α β : Type} {check : Reading α} {next : α → Reading β} {buffer : Bytes} {c c' : Cursor}

/-- Behind a reader that finds something, the next one is run where the cursor is then. -/
theorem bind_ok {value : α} (h : check c = .ok (.ok value, c')) :
    (check >>= next) c = next value c' := by
  change Except.bind (check c) _ = _
  rw [h]
  rfl

/-- Behind a reader that refuses the input, nothing is read any more. -/
theorem bind_error {cause : ParseError} (h : check c = .ok (.error cause, c')) :
    (check >>= next) c = .ok (.error cause, c') := by
  change Except.bind (check c) _ = _
  rw [h]
  rfl

/-- The position of the cursor can always be told. -/
theorem position_eq (c : Cursor) : position c = .ok (.ok c.position, c) := rfl

/-- What is left in front of the cursor can always be told. -/
theorem remaining_eq (buffer : Bytes) (c : Cursor) :
    remaining buffer c = .ok (.ok (buffer.length - c.position), c) :=
  rfl

/-- A sum below `2 ^ 64` passes the check. -/
theorem sum_eq {m n : Nat} (h : m + n < 2 ^ 64) : sum m n = pure (m + n) := if_pos h

/-- Room for 1024 elements, however many are announced, passes the check. -/
theorem reserve_eq (count : Nat) : reserve (min count 1024) = pure () := if_pos (by omega)

/-- A part of the buffer passes the check. -/
theorem slice_eq {first stop : Nat} (hle : first ≤ stop) (hstop : stop ≤ buffer.length) :
    slice buffer first stop = pure ((buffer.drop first).take (stop - first)) :=
  if_pos ⟨hle, hstop⟩

/-- A position up to the end of the buffer passes the check. -/
theorem moveTo_eq {position : Nat} (h : position ≤ buffer.length) :
    moveTo buffer position c = .ok (.ok (), { c with position }) := by
  rw [moveTo, if_pos h]
  rfl

/-- Cutting a line finds its break. -/
theorem cutLine_eq (passed bytes : Bytes) :
    cutLine passed bytes = (breakIn bytes).map fun offset =>
      (passed.reverse ++ bytes.take offset, bytes.drop (offset + 2)) := by
  fun_induction cutLine passed bytes with
  | case1 => rfl
  | case2 passed rest => simp [breakIn, List.findIdx?_cons]
  | case3 passed b rest hends ih =>
      rw [ih, breakIn, breakIn]
      cases rest with
      | nil => rfl
      | cons next rest =>
          have hpair : ¬ (b = 13 ∧ next = 10) := by
            rintro ⟨rfl, rfl⟩
            exact hends rest rfl rfl
          simp [List.findIdx?_cons, hpair, Function.comp_def]

/-- A line that is cut off ends at the first break. -/
theorem line?_eq (bytes : Bytes) :
    line? bytes =
      match breakIn bytes with
      | none => .error .incomplete
      | some offset => .ok (bytes.take offset, bytes.drop (offset + 2)) := by
  rw [line?, cutLine_eq]
  cases breakIn bytes with
  | none => rfl
  | some offset => rfl

/-- A break takes up two bytes. -/
theorem add_two_le_of_breakIn {bytes : Bytes} {offset : Nat} (h : breakIn bytes = some offset) :
    offset + 2 ≤ bytes.length := by
  have hlt := (List.findIdx?_eq_some_iff_findIdx_eq.mp h).1
  rw [List.length_zip, List.length_tail] at hlt
  omega

end Steps

/-! ### Readers with checks and readers without -/

namespace Cursor

/-- Whether reading has moved the cursor, but not past the end. -/
def Moves (buffer : Bytes) (c c' : Cursor) : Prop :=
  c.position ≤ c'.position ∧ c'.position ≤ buffer.length

/-- Whether at least so many bytes have been taken, and just so many frames have been begun. -/
def Spends (c c' : Cursor) (bytes frames : Nat) : Prop :=
  c.position + bytes ≤ c'.position ∧ c'.frames + frames = c.frames

/-- Whether there are fewer bytes in front of the cursor than so many frames take up. -/
def Affords (buffer : Bytes) (c : Cursor) (frames : Nat) : Prop :=
  buffer.length < c.position + 3 * frames

/-- A cursor that stays where it is spends nothing. -/
theorem Spends.refl (c : Cursor) : c.Spends c 0 0 := ⟨Nat.le_refl _, rfl⟩

/-- What is spent on two ways, one behind the other, adds up. -/
theorem Spends.trans {c c' c'' : Cursor} {bytes frames bytes' frames' : Nat}
    (h : c.Spends c' bytes frames) (h' : c'.Spends c'' bytes' frames') :
    c.Spends c'' (bytes + bytes') (frames + frames') := by
  obtain ⟨hposition, hframes⟩ := h
  obtain ⟨hposition', hframes'⟩ := h'
  constructor
  · omega
  · omega

end Cursor

/-- Whether a reader meets no fault, moves the cursor within the buffer, and finds or refuses what
`read` finds or refuses in front of the cursor; and what holds if it has found something. -/
inductive Agrees {α : Type} (buffer : Bytes) (check : Reading α) (read : Bytes → Result α)
    (c : Cursor) (post : α → Cursor → Prop) : Prop
  /-- A value is found, and what is left is what is in front of the cursor. -/
  | found {value : α} {c' : Cursor} (hcheck : check c = .ok (.ok value, c'))
      (hread : read (buffer.drop c.position) = .ok (value, buffer.drop c'.position))
      (hmoves : c.Moves buffer c') (hpost : post value c')
  /-- The input is refused. -/
  | refused {cause : ParseError} {c' : Cursor} (hcheck : check c = .ok (.error cause, c'))
      (hread : read (buffer.drop c.position) = .error cause) (hmoves : c.Moves buffer c')

namespace Agrees

variable {α β : Type} {buffer : Bytes} {check : Reading α} {read : Bytes → Result α} {c : Cursor}
  {post : α → Cursor → Prop}

/-- A reader that only has a value agrees with one that leaves its input as it is. -/
theorem pure {value : α} (hend : c.position ≤ buffer.length) (h : post value c) :
    Agrees buffer (pure value) (fun rest => .ok (value, rest)) c post :=
  .found rfl rfl ⟨Nat.le_refl _, hend⟩ h

/-- A reader that refuses whatever it reads agrees with one that does so. -/
theorem throw {cause : ParseError} (hend : c.position ≤ buffer.length) :
    Agrees buffer (throw cause) (fun _ => .error cause) c post :=
  .refused rfl rfl ⟨Nat.le_refl _, hend⟩

/-- A reader that goes on where another one stopped. -/
theorem bind {next : α → Reading β} {read' : α × Bytes → Result β} {post' : β → Cursor → Prop}
    (h : Agrees buffer check read c post)
    (hnext : ∀ value c', c.Moves buffer c' → post value c' →
      Agrees buffer (next value) (fun rest => read' (value, rest)) c' post') :
    Agrees buffer (check >>= next) (fun input => (read input).bind read') c post' := by
  cases h with
  | refused hcheck hread hmoves =>
      exact .refused (bind_error hcheck) (congrArg (Except.bind · read') hread) hmoves
  | @found value c' hcheck hread hmoves hpost =>
      have hbind : (read (buffer.drop c.position)).bind read' =
          read' (value, buffer.drop c'.position) := congrArg (Except.bind · read') hread
      have hstart : (check >>= next) c = next value c' := bind_ok hcheck
      cases hnext value c' hmoves hpost with
      | refused hcheck' hread' hmoves' =>
          exact .refused (hstart.trans hcheck') (hbind.trans hread')
            ⟨Nat.le_trans hmoves.1 hmoves'.1, hmoves'.2⟩
      | found hcheck' hread' hmoves' hpost' =>
          exact .found (hstart.trans hcheck') (hbind.trans hread')
            ⟨Nat.le_trans hmoves.1 hmoves'.1, hmoves'.2⟩ hpost'

/-- A reader that makes something of what another one has read. -/
theorem map {post' : β → Cursor → Prop} (h : Agrees buffer check read c post) (f : α → β)
    (hpost : ∀ value c', post value c' → post' (f value) c') :
    Agrees buffer (check >>= fun value => Pure.pure (f value))
      (fun input => (read input).map fun p => (f p.1, p.2)) c post' := by
  cases h with
  | refused hcheck hread hmoves =>
      exact .refused (bind_error hcheck) (congrArg (Except.map _) hread) hmoves
  | found hcheck hread hmoves hfound =>
      exact .found (bind_ok hcheck) (congrArg (Except.map _) hread) hmoves (hpost _ _ hfound)

end Agrees

/-! ### Payloads -/

section Payloads

variable {buffer : Bytes} {c : Cursor}

/-- A payload that is longer than its input is incomplete, and so is one without two bytes behind
it. -/
theorem payload?_of_lt {bytes : Bytes} {length : Nat} (h : bytes.length < length + 2) :
    payload? length bytes = .error .incomplete := by
  have hdrop := List.length_drop (l := bytes) (i := length)
  rw [payload?]
  split
  · rename_i hrest
    rw [hrest, List.length_cons, List.length_cons] at hdrop
    omega
  · rename_i hrest
    rw [hrest, List.length_cons, List.length_cons] at hdrop
    omega
  · rfl

/-- The two bytes behind a payload decide about it. -/
theorem payload?_of_drop {bytes rest : Bytes} {a b : UInt8} {length : Nat}
    (h : bytes.drop length = a :: b :: rest) :
    payload? length bytes =
      if [a, b] = Bytes.crlf then .ok (bytes.take length, rest) else .error .unterminated := by
  rw [payload?, h]
  split
  · rename_i heq
    simp only [List.cons.injEq] at heq
    obtain ⟨rfl, rfl, rfl⟩ := heq
    exact (if_pos rfl).symm
  · rename_i hends heq
    simp only [List.cons.injEq] at heq
    obtain ⟨rfl, rfl, -⟩ := heq
    refine (if_neg fun hcrlf => ?_).symm
    simp only [Bytes.crlf, List.cons.injEq, and_true] at hcrlf
    exact hends hcrlf.1 hcrlf.2
  · rename_i hshort
    exact (hshort _ _ _ rfl).elim

/-- There is room for two more than a length of 63 bits, and nothing is added to the position before
the whole payload is known to be there. -/
theorem payload_of_lt {length : Nat} (hlength : length < 2 ^ 63)
    (hshort : buffer.length < c.position + length + 2) :
    payload buffer length c = .ok (.error .incomplete, c) := by
  rw [payload, sum_eq (by omega), pure_bind, bind_ok (remaining_eq buffer c), if_pos (by omega)]
  rfl

/-- A payload that is there with two bytes behind it is read if these are CR LF. -/
theorem payload_of_le (hbuffer : buffer.Fits) {length : Nat}
    (hstop : c.position + length + 2 ≤ buffer.length) :
    payload buffer length c =
      if [buffer[c.position + length], buffer[c.position + length + 1]] = Bytes.crlf then
        .ok (.ok ((buffer.drop c.position).take length),
          { c with position := c.position + length + 2 })
      else .ok (.error .unterminated, c) := by
  rw [Bytes.Fits] at hbuffer
  have hcontent : slice buffer c.position (c.position + length) =
      pure ((buffer.drop c.position).take length) := by
    rw [slice_eq (Nat.le_add_right ..) (by omega), Nat.add_sub_cancel_left]
  have hending : slice buffer (c.position + length) (c.position + length + 2) =
      pure [buffer[c.position + length], buffer[c.position + length + 1]] := by
    rw [slice_eq (Nat.le_add_right ..) hstop, Nat.add_sub_cancel_left, List.drop_eq_getElem_cons,
      List.drop_eq_getElem_cons]
    rfl
  rw [payload, sum_eq (by omega), pure_bind, bind_ok (remaining_eq buffer c), if_neg (by omega),
    bind_ok (position_eq c), sum_eq (by omega), pure_bind, hcontent, pure_bind, sum_eq (by omega),
    pure_bind, hending, pure_bind]
  split
  · rw [sum_eq (by omega), ← Nat.add_assoc, pure_bind, bind_ok (moveTo_eq hstop)]
    rfl
  · rfl

end Payloads

/-! ### The readers agree -/

section Readers

variable {buffer : Bytes} (hbuffer : buffer.Fits) {c : Cursor} (hend : c.position ≤ buffer.length)

/-- A frame may be begun as long as any is left to be begun. -/
theorem agrees_begin (h : c.frames ≠ 0) (hend : c.position ≤ buffer.length) :
    Agrees buffer begin (fun rest => .ok ((), rest)) c fun _ c' => c.Spends c' 0 1 := by
  obtain ⟨frames, hframes⟩ := Nat.exists_eq_add_one_of_ne_zero h
  have hget : (get : Reading Cursor) c = .ok (.ok c, c) := rfl
  have hbegin : begin c = .ok (.ok (), { c with frames }) := by
    rw [begin, bind_ok hget, hframes]
    rfl
  exact .found hbegin rfl ⟨Nat.le_refl _, hend⟩ ⟨Nat.le_refl _, hframes.symm⟩

/-- Reads a byte. -/
def byte? : Bytes → Result UInt8
  | [] => .error .incomplete
  | b :: rest => .ok (b, rest)

include hbuffer hend

/-- A byte is read at the cursor, which moves by one. -/
theorem agrees_byte : Agrees buffer (byte buffer) byte? c fun _ c' => c.Spends c' 1 0 := by
  rw [Bytes.Fits] at hbuffer
  have hremaining := remaining_eq buffer c
  by_cases hnone : buffer.length - c.position = 0
  · have hnil : buffer.drop c.position = [] := List.drop_eq_nil_iff.mpr (by omega)
    have hcheck : byte buffer c = .ok (.error .incomplete, c) := by
      rw [byte, bind_ok hremaining, if_pos hnone]
      rfl
    exact .refused hcheck (congrArg byte? hnil) ⟨Nat.le_refl _, hend⟩
  · have hlt : c.position < buffer.length := by omega
    have hbyte : byteAt buffer c.position = pure buffer[c.position] := by
      rw [byteAt, List.getElem?_eq_getElem hlt]
    have hcheck : byte buffer c =
        .ok (.ok buffer[c.position], { c with position := c.position + 1 }) := by
      rw [byte, bind_ok hremaining, if_neg hnone, bind_ok (position_eq c), hbyte, pure_bind,
        sum_eq (by omega), pure_bind, bind_ok (moveTo_eq hlt)]
      rfl
    exact .found hcheck (congrArg byte? (List.drop_eq_getElem_cons hlt)) ⟨Nat.le_succ _, hlt⟩
      ⟨Nat.le_refl _, rfl⟩

/-- A line that has a break lies within the buffer with it, so that its end can be added up. -/
theorem line_eq :
    line buffer c =
      match breakIn (buffer.drop c.position) with
      | none => .ok (.error .incomplete, c)
      | some offset => .ok (.ok ((buffer.drop c.position).take offset),
          { c with position := c.position + offset + 2 }) := by
  rw [Bytes.Fits] at hbuffer
  have hslice : slice buffer c.position buffer.length = pure (buffer.drop c.position) := by
    rw [slice_eq hend (Nat.le_refl _), ← List.length_drop, List.take_length]
  rw [line, bind_ok (position_eq c), hslice, pure_bind]
  cases hbreak : breakIn (buffer.drop c.position) with
  | none => rfl
  | some offset =>
      have hbound := add_two_le_of_breakIn hbreak
      rw [List.length_drop] at hbound
      have hmove : c.position + offset + 2 ≤ buffer.length := by omega
      simp only
      rw [sum_eq (by omega), pure_bind, sum_eq (by omega), pure_bind, bind_ok (moveTo_eq hmove),
        slice_eq (by omega) (by omega), Nat.add_sub_cancel_left]
      rfl

/-- Whatever a line holds, the break at its end takes up two bytes. -/
theorem agrees_line : Agrees buffer (line buffer) line? c fun _ c' => c.Spends c' 2 0 := by
  have hcheck := line_eq hbuffer hend
  have hread := line?_eq (buffer.drop c.position)
  cases hbreak : breakIn (buffer.drop c.position) with
  | none =>
      rw [hbreak] at hcheck hread
      exact .refused hcheck hread ⟨Nat.le_refl _, hend⟩
  | some offset =>
      have hbound := add_two_le_of_breakIn hbreak
      rw [List.length_drop] at hbound
      have hmove : c.position + offset + 2 ≤ buffer.length := by omega
      have hle : c.position + 2 ≤ c.position + offset + 2 := by omega
      rw [hbreak] at hcheck hread
      simp only [List.drop_drop, ← Nat.add_assoc] at hcheck hread
      exact .found hcheck hread ⟨Nat.le_trans (Nat.le_add_right ..) hle, hmove⟩ ⟨hle, rfl⟩

/-- A line of text takes up the two bytes of its break at least. -/
theorem agrees_textLine :
    Agrees buffer (textLine buffer) textLine? c fun _ c' => c.Spends c' 2 0 := by
  refine (agrees_line hbuffer hend).bind fun content c' hmoves hspends => ?_
  cases htext : Bytes.toString? content with
  | none => simpa only [htext] using Agrees.throw hmoves.2
  | some text => simpa only [htext] using Agrees.pure hmoves.2 hspends

/-- A line with an integer takes up the two bytes of its break at least. -/
theorem agrees_integerLine (cause : ParseError) :
    Agrees buffer (integerLine buffer cause) (integerLine? cause) c
      fun _ c' => c.Spends c' 2 0 := by
  refine (agrees_line hbuffer hend).bind fun content c' hmoves hspends => ?_
  cases htext : Bytes.toString? content with
  | none => simpa only [htext] using Agrees.throw hmoves.2
  | some text =>
      cases hvalue : Decimal.readInt64? content with
      | none => simpa only [htext, hvalue] using Agrees.throw hmoves.2
      | some value => simpa only [htext, hvalue] using Agrees.pure hmoves.2 hspends

/-- A length header takes up the two bytes of its break at least, and announces less than
`2 ^ 63`. -/
theorem agrees_lengthLine :
    Agrees buffer (lengthLine buffer) lengthLine? c
      fun length c' => c.Spends c' 2 0 ∧ ∀ n ∈ length, n < 2 ^ 63 := by
  refine (agrees_integerLine hbuffer hend .badLength).bind fun value c' hmoves hspends => ?_
  by_cases hnull : value = -1
  · simpa only [hnull, if_true] using Agrees.pure hmoves.2 ⟨hspends, by simp⟩
  · by_cases hnegative : value < 0
    · simpa only [hnull, hnegative, if_true, if_false] using Agrees.throw hmoves.2
    · have hlt : value.toNatClampNeg < 2 ^ 63 := by
        have := value.toInt_lt
        rw [Int64.toNatClampNeg]
        omega
      have hpost : c.Spends c' 2 0 ∧ ∀ n ∈ some value.toNatClampNeg, n < 2 ^ 63 :=
        ⟨hspends, fun n hn => Option.some.inj hn ▸ hlt⟩
      simpa only [hnull, hnegative, if_false] using Agrees.pure hmoves.2 hpost

/-- A payload whose length has 63 bits is read, or refused, without a fault. -/
theorem agrees_payload {length : Nat} (hlength : length < 2 ^ 63) :
    Agrees buffer (payload buffer length) (payload? length) c fun _ c' => c.Spends c' 0 0 := by
  by_cases hshort : buffer.length < c.position + length + 2
  · have hrest : (buffer.drop c.position).length < length + 2 := by
      rw [List.length_drop]
      omega
    exact .refused (payload_of_lt hlength hshort) (payload?_of_lt hrest)
      ⟨Nat.le_refl _, hend⟩
  · have hstop : c.position + length + 2 ≤ buffer.length := Nat.le_of_not_lt hshort
    have hrest : (buffer.drop c.position).drop length =
        buffer[c.position + length] :: buffer[c.position + length + 1] ::
          buffer.drop (c.position + length + 2) := by
      rw [List.drop_drop, List.drop_eq_getElem_cons, List.drop_eq_getElem_cons]
    have hcheck := payload_of_le hbuffer hstop
    have hread := payload?_of_drop hrest
    split at hcheck
    · rename_i hcrlf
      rw [if_pos hcrlf] at hread
      have hle : c.position ≤ c.position + length + 2 := by omega
      exact .found hcheck hread ⟨hle, hstop⟩ ⟨hle, rfl⟩
    · rename_i hcrlf
      rw [if_neg hcrlf] at hread
      exact .refused hcheck hread ⟨Nat.le_refl _, hend⟩

end Readers

/-! ### Frames -/

/-- Whether an element is read as it should be wherever the bytes in front of the cursor pay for it,
at three bytes for each frame that is found in it. -/
def ReadsElements (buffer : Bytes) (element : Reading Frame) (depth : Nat) : Prop :=
  ∀ c : Cursor, c.position ≤ buffer.length → c.Affords buffer depth → c.Affords buffer c.frames →
    Agrees buffer element parse? c fun frame c' => c.Spends c' (3 * frame.weight) frame.weight

namespace Cursor

variable {buffer : Bytes} {c c' : Cursor} {bytes frames depth : Nat}

/-- What is affordable stays affordable. -/
theorem Affords.of_moves (h : c.Affords buffer depth) (hmoves : c.Moves buffer c') :
    c'.Affords buffer depth :=
  Nat.lt_of_lt_of_le h (Nat.add_le_add_right hmoves.1 _)

/-- A frame on the way inwards leaves the bytes that one level less asks for. -/
theorem Affords.of_succ (h : c.Affords buffer (depth + 1))
    (hposition : c.position + 3 ≤ c'.position) : c'.Affords buffer depth := by
  rw [Affords] at h ⊢
  omega

/-- What has been paid for with three bytes each leaves enough for the others. -/
theorem Affords.of_spends (h : c.Affords buffer c.frames) (hspends : c.Spends c' bytes frames)
    (hbytes : 3 * frames ≤ bytes) : c'.Affords buffer c'.frames := by
  obtain ⟨hposition, hframes⟩ := hspends
  rw [Affords] at h ⊢
  omega

end Cursor

variable {buffer : Bytes} {element : Reading Frame} {depth : Nat}

/-- However many elements are announced, the loop comes to its end. -/
theorem agrees_each (helement : ReadsElements buffer element depth) (count : Nat) {c : Cursor}
    (hend : c.position ≤ buffer.length) (hdepth : c.Affords buffer depth)
    (hframes : c.Affords buffer c.frames) :
    Agrees buffer (each element count) (parseMany? count) c
      fun items c' => c.Spends c' (3 * weights items) (weights items) := by
  induction count generalizing c with
  | zero =>
      rw [funext parseMany?_zero]
      exact .pure hend (Cursor.Spends.refl c)
  | succ count ih =>
      rw [funext (parseMany?_succ count)]
      refine (helement c hend hdepth hframes).bind fun item c' hmoves hspends => ?_
      have hmore := ih hmoves.2 (hdepth.of_moves hmoves) (hframes.of_spends hspends (Nat.le_refl _))
      refine hmore.map (item :: ·) fun items c'' hspends' => ?_
      have htotal := hspends.trans hspends'
      rwa [← Nat.mul_add] at htotal

/-- With the byte of its type, a frame takes up at least three bytes. Those of an array are its
header, so that the elements are left what they have to be paid with. -/
theorem agrees_behind (hbuffer : buffer.Fits) (helement : ReadsElements buffer element depth)
    (type : UInt8) {c₀ c : Cursor} (hdepth : c₀.Affords buffer (depth + 1))
    (hframes : c₀.Affords buffer c₀.frames) (htype : c₀.Spends c 1 1)
    (hend : c.position ≤ buffer.length) :
    Agrees buffer (behind buffer element type) (fun rest => parse? (type :: rest)) c
      fun frame c' => c₀.Spends c' (3 * frame.weight) frame.weight := by
  cases type using type_cases with
  | simple =>
      simp only [funext parse?_simple]
      exact (agrees_textLine hbuffer hend).map Frame.simple fun _ _ => htype.trans
  | error =>
      simp only [funext parse?_error]
      exact (agrees_textLine hbuffer hend).map Frame.error fun _ _ => htype.trans
  | integer =>
      simp only [funext parse?_integer]
      exact (agrees_integerLine hbuffer hend .badInteger).map Frame.integer fun _ _ => htype.trans
  | bulk =>
      simp only [funext parse?_bulk]
      refine (agrees_lengthLine hbuffer hend).bind fun length c' hmoves hheader => ?_
      cases length with
      | none => exact .pure hmoves.2 (htype.trans hheader.1)
      | some length =>
          exact (agrees_payload hbuffer hmoves.2 (hheader.2 length rfl)).map Frame.bulk
            fun _ _ => (htype.trans hheader.1).trans
  | array =>
      simp only [funext parse?_array]
      refine (agrees_lengthLine hbuffer hend).bind fun count c' hmoves hheader => ?_
      have hspends : c₀.Spends c' 3 1 := htype.trans hheader.1
      cases count with
      | none => exact .pure hmoves.2 hspends
      | some count =>
          simp only [reserve_eq, pure_bind]
          have hitems := agrees_each helement count hmoves.2 (hdepth.of_succ hspends.1)
            (hframes.of_spends hspends (Nat.le_refl _))
          refine hitems.map Frame.array fun items c'' hitems => ?_
          have htotal := hspends.trans hitems
          rwa [Nat.add_comm 1, Nat.add_comm 3, ← Nat.mul_succ] at htotal
  | null =>
      simp only [funext parse?_null]
      exact (agrees_line hbuffer hend).map (fun _ => Frame.null) fun _ _ => htype.trans
  | unknown type hunknown =>
      simp only [fun rest => parse?_unknown rest hunknown]
      simp only [List.mem_cons, List.not_mem_nil, or_false, not_or] at hunknown
      obtain ⟨h₁, h₂, h₃, h₄, h₅, h₆⟩ := hunknown
      rw [behind.eq_7 buffer element type h₁ h₂ h₃ h₄ h₅ h₆]
      exact .throw hend

/-- A frame is read where it is paid for. Induction on how deep frames may be nested: an element
stands behind the three bytes of a header at least, so it needs one level less. -/
theorem agrees_parse (hbuffer : buffer.Fits) (depth : Nat) :
    ReadsElements buffer (parse buffer depth) depth := by
  induction depth with
  | zero =>
      intro c hend hdepth
      exact absurd hdepth (Nat.not_lt_of_le hend)
  | succ depth ih =>
      intro c hend hdepth hframes
      have hpositive : c.frames ≠ 0 := fun hzero => by
        rw [Cursor.Affords, hzero] at hframes
        exact Nat.not_lt_of_le hend hframes
      have hread : parse? = fun input => (Except.ok ((), input) : Result Unit).bind fun p =>
          (byte? p.2).bind fun q => parse? (q.1 :: q.2) := by
        funext input
        cases input with
        | nil => exact parse?_nil
        | cons type rest => rfl
      rw [parse, hread]
      refine (agrees_begin hpositive hend).bind fun _ c' hmoves hbegun => ?_
      refine (agrees_byte hbuffer hmoves.2).bind fun type c'' hmoves' htype => ?_
      exact agrees_behind hbuffer ih type hdepth hframes (hbegun.trans htype) hmoves'.2

end Checked

/-- **Reading a frame is total and safe**, as far as the bytes, the numbers and the cursor go. Take
any byte string in memory and any position in it, and read what stands there with a check in front
of every step that could go wrong. No check fails, whatever lengths are announced and however arrays
are nested.

* No byte outside the byte string is looked at, every length and every position has room in its
  type, and the cursor moves forward within the byte string, also if the input is refused.
* At most one frame is begun for every three bytes in front of the position, and one more, and
  frames are nested no deeper than that. This is the bound on the recursion, which takes one stack
  frame for each level: up to a third of the length of the input. The size of a thread's stack is
  not modelled, so that nothing is said about whether so many levels fit into it.
* What is found or refused is what `parse` finds or refuses.
* If a frame is found, the cursor stands behind what it takes up, which is at least three bytes for
  each of its nodes, and just as many frames have been begun as it has nodes. -/
theorem parse_safe {buffer : Bytes} (hbuffer : buffer.Fits) {start : Nat}
    (hstart : start ≤ buffer.length) :
    let most := (buffer.length - start) / 3 + 1
    ∃ stop unused,
      Checked.parse buffer most ⟨start, most⟩ =
        .ok ((parse (buffer.drop start)).map Read.value, ⟨stop, unused⟩) ∧
      start ≤ stop ∧ stop ≤ buffer.length ∧
      ∀ read, parse (buffer.drop start) = .ok read →
        stop = start + read.taken ∧ buffer.drop stop = read.rest ∧
          3 * read.value.weight ≤ read.taken ∧ unused + read.value.weight = most := by
  intro most
  have hmost : buffer.length < start + 3 * most := by omega
  cases Checked.agrees_parse hbuffer most ⟨start, most⟩ hstart hmost hmost with
  | @refused cause c' hcheck hread hmoves =>
      rw [parse?_eq_error_iff] at hread
      refine ⟨c'.position, c'.frames, ?_, hmoves.1, hmoves.2, fun read hok => ?_⟩
      · rw [hcheck, hread]
        rfl
      · exact nomatch hread.symm.trans hok
  | @found frame c' hcheck hread hmoves hspends =>
      obtain ⟨read, hparse, rfl, htaken, hrest⟩ := exists_of_parse? hread
      refine ⟨c'.position, c'.frames, ?_, hmoves.1, hmoves.2, fun read' hok => ?_⟩
      · rw [hcheck, hparse]
        rfl
      · obtain rfl := Except.ok.inj (hparse.symm.trans hok)
        have hstop : c'.position = start + read.taken := by
          have hle : start ≤ c'.position := hmoves.1
          have hend := hmoves.2
          simp only [List.length_drop] at htaken
          omega
        have hpaid : start + 3 * read.value.weight ≤ c'.position := hspends.1
        exact ⟨hstop, hrest.symm, by omega, hspends.2⟩

/-- An array that announces as many elements as a number can, behind something else. -/
def announcing : Bytes := Bytes.ofString "PING\r\n*9223372036854775807\r\n*1\r\n_\r\n"

/-- The announced array is refused as incomplete, and a nested one of four nodes is read. -/
theorem parse_safe_announcing :
    (announcing.Fits ∧ 6 ≤ announcing.length ∧ ∃ stop unused,
      Checked.parse announcing 10 ⟨6, 10⟩ = .ok (.error .incomplete, ⟨stop, unused⟩) ∧
        6 ≤ stop ∧ stop ≤ announcing.length) ∧
      nested.Fits ∧ ∃ frame, Checked.parse nested 9 ⟨0, 9⟩ = .ok (.ok frame, ⟨22, 5⟩) ∧
        frame.weight = 4 := by
  have hlength : announcing.length = 35 := by decide +kernel
  have hnested : nested.length = 24 := by decide +kernel
  have hfits : announcing.Fits := hlength.trans_lt (by decide : 35 < 2 ^ 63)
  have hfits' : nested.Fits := hnested.trans_lt (by decide : 24 < 2 ^ 63)
  have hstart : 6 ≤ announcing.length := by omega
  refine ⟨⟨hfits, hstart, ?_⟩, hfits', ?_⟩
  · obtain ⟨stop, unused, hcheck, hle, hend, -⟩ := parse_safe hfits hstart
    have hnone : (parse (announcing.drop 6)).map Read.taken = .error .incomplete := by
      decide +kernel
    refine ⟨stop, unused, ?_, hle, hend⟩
    rw [hlength] at hcheck
    cases hread : parse (announcing.drop 6) with
    | ok read =>
        rw [hread] at hnone
        cases hnone
    | error cause =>
        rw [hread] at hnone hcheck
        obtain rfl := Except.error.inj hnone
        exact hcheck
  · obtain ⟨stop, unused, hcheck, -, -, hfound⟩ := parse_safe hfits' (Nat.zero_le _)
    have hsome : (parse nested).map (fun read => (read.taken, read.value.weight)) =
        .ok (22, 4) := by
      decide +kernel
    rw [hnested] at hcheck hfound
    cases hread : parse nested with
    | error cause =>
        rw [hread] at hsome
        cases hsome
    | ok read =>
        rw [hread] at hsome
        obtain ⟨htaken, hweight⟩ := Prod.mk.inj (Except.ok.inj hsome)
        obtain ⟨hstop, -, -, hunused⟩ := hfound read hread
        obtain rfl : stop = 22 := by omega
        obtain rfl : unused = 5 := by omega
        refine ⟨read.value, hcheck.trans ?_, hweight⟩
        rw [List.drop_zero, hread]
        rfl

end RespStore.Frame
