import RespStore.Request.Decoder
import RespStore.Proofs.Wire.Text

/-!
# Readings without their proofs

A reading off the front of a byte string carries proofs about that byte string, so readings
of different inputs cannot be compared. This module looks at what a reading has found and at
what it has left only. The parser has plain equations in that form, one for each type byte.

* `Frame.Stable`: more input never changes a reading that has come to its end, whether it
  succeeded or failed. Only `incomplete` can turn into something else. `Frame.stable_parse?`
  says so of the parser.
* `Frame.Composes.parse?` is the rule behind that: what holds of lines and payloads and is kept
  by the ways in which readers are put together holds of the parser.
* `Frame.Reads` relates an input to the frames that are read off it one behind the other.
-/

namespace RespStore.Frame

/-- What is read off the front of a byte string, and what follows it. -/
abbrev Result (α : Type) := Except ParseError (α × Bytes)

/-- A reading without its proofs. -/
def plain {α : Type} {input : Bytes} (r : Except ParseError (Read α input)) : Result α :=
  r.map fun r => (r.value, r.rest)

/-- Reads a line. -/
def line? (input : Bytes) : Result Bytes :=
  match cutLine [] input with
  | none => .error .incomplete
  | some p => .ok p

/-- Reads a line of text. -/
def textLine? (input : Bytes) : Result String :=
  (line? input).bind fun (content, rest) =>
    match Bytes.toString? content with
    | none => .error .notText
    | some text => .ok (text, rest)

/-- Reads a line that holds an integer. -/
def integerLine? (fault : ParseError) (input : Bytes) : Result Int64 :=
  (line? input).bind fun (content, rest) =>
    match Bytes.toString? content, Decimal.readInt64? content with
    | none, _ => .error .notText
    | some _, none => .error fault
    | some _, some value => .ok (value, rest)

/-- Reads a length header. -/
def lengthLine? (input : Bytes) : Result (Option Nat) :=
  (integerLine? .badLength input).bind fun (value, rest) =>
    if value = -1 then .ok (none, rest)
    else if value < 0 then .error .badLength
    else .ok (some value.toNatClampNeg, rest)

/-- Reads a payload. -/
def payload? (length : Nat) (input : Bytes) : Result Bytes :=
  match input.drop length with
  | 13 :: 10 :: rest => .ok (input.take length, rest)
  | _ :: _ :: _ => .error .unterminated
  | _ => .error .incomplete

/-- Reads a frame. -/
def parse? (input : Bytes) : Result Frame := plain (parse input)

/-- Reads several frames. -/
def parseMany? (count : Nat) (input : Bytes) : Result (List Frame) :=
  (parseMany count input).map fun r => (r.values, r.rest)

/-- A line without its proofs is a line. -/
theorem plain_line (input : Bytes) : plain (line input) = line? input := by
  rw [line, line?, plain]
  split
  · rename_i h
    simp only [h, Except.map]
  · rename_i h
    simp only [h, Except.map]

/-- A line of text without its proofs is one. -/
theorem plain_textLine (input : Bytes) : plain (textLine input) = textLine? input := by
  rw [textLine, textLine?]
  rw [← plain_line]
  cases line input with
  | error e => rfl
  | ok r =>
      simp only [plain, Except.map, Except.bind]
      cases Bytes.toString? r.value with
      | none => rfl
      | some text => rfl

/-- A line with an integer without its proofs is one. -/
theorem plain_integerLine (fault : ParseError) (input : Bytes) :
    plain (integerLine fault input) = integerLine? fault input := by
  rw [integerLine, integerLine?]
  rw [← plain_line]
  cases line input with
  | error e => rfl
  | ok r =>
      simp only [plain, Except.map, Except.bind]
      cases Bytes.toString? r.value with
      | none => rfl
      | some text =>
          cases Decimal.readInt64? r.value with
          | none => rfl
          | some value => rfl

/-- A length header without its proofs is one. -/
theorem plain_lengthLine (input : Bytes) : plain (lengthLine input) = lengthLine? input := by
  rw [lengthLine, lengthLine?]
  rw [← plain_integerLine]
  cases integerLine .badLength input with
  | error e => rfl
  | ok r =>
      simp only [plain, Except.map, Except.bind]
      by_cases hnull : r.value = -1
      · rw [if_pos hnull, if_pos hnull]
        rfl
      · rw [if_neg hnull, if_neg hnull]
        by_cases hnegative : r.value < 0
        · rw [if_pos hnegative, if_pos hnegative]
        · rw [if_neg hnegative, if_neg hnegative]
          rfl

/-- A payload without its proofs is one. -/
theorem plain_payload (length : Nat) (input : Bytes) :
    plain (payload length input) = payload? length input := by
  rw [payload, payload?]
  split
  · rename_i h
    simp only [h, plain, Except.map]
  · rename_i hends h
    simp only [plain, Except.map]
    split
    · rename_i h'
      rw [h, List.cons.injEq, List.cons.injEq] at h'
      exact (hends h'.1 h'.2.1).elim
    · rfl
    · rename_i hshort
      exact (hshort _ _ _ h).elim
  · simp only [plain, Except.map]

/-! ### The equations of the parser -/

/-- No input is the beginning of a frame. -/
theorem parse?_nil : parse? [] = .error .incomplete := by
  simp only [parse?, parse, plain, Except.map]

/-- Behind a plus there is a line of text. -/
theorem parse?_simple (body : Bytes) :
    parse? (43 :: body) = (textLine? body).map fun (text, rest) => (.simple text, rest) := by
  rw [← plain_textLine]
  simp only [parse?, parse, plain]
  cases textLine body with
  | error e => rfl
  | ok r => rfl

/-- Behind a minus there is the text of an error. -/
theorem parse?_error (body : Bytes) :
    parse? (45 :: body) = (textLine? body).map fun (text, rest) => (.error text, rest) := by
  rw [← plain_textLine]
  simp only [parse?, parse, plain]
  cases textLine body with
  | error e => rfl
  | ok r => rfl

/-- Behind a colon there is an integer. -/
theorem parse?_integer (body : Bytes) :
    parse? (58 :: body) =
      (integerLine? .badInteger body).map fun (value, rest) => (.integer value, rest) := by
  rw [← plain_integerLine]
  simp only [parse?, parse, plain]
  cases integerLine .badInteger body with
  | error e => rfl
  | ok r => rfl

/-- Behind a dollar sign there is a length header, and then the payload that it announces, if
any. -/
theorem parse?_bulk (body : Bytes) :
    parse? (36 :: body) = (lengthLine? body).bind fun
      | (none, rest) => .ok (.null, rest)
      | (some length, rest) =>
        (payload? length rest).map fun (payload, rest) => (.bulk payload, rest) := by
  rw [← plain_lengthLine]
  simp only [parse?, parse, plain]
  cases lengthLine body with
  | error e => rfl
  | ok header =>
      obtain ⟨value, taken, rest, hpos, hlength⟩ := header
      cases value with
      | none => rfl
      | some length =>
          simp only [Except.map, Except.bind, ← plain_payload, plain]
          cases payload length rest with
          | error e => rfl
          | ok r => rfl

/-- Behind an asterisk there is a length header, and then the elements that it announces, if any. -/
theorem parse?_array (body : Bytes) :
    parse? (42 :: body) = (lengthLine? body).bind fun
      | (none, rest) => .ok (.null, rest)
      | (some count, rest) =>
        (parseMany? count rest).map fun (items, rest) => (.array items, rest) := by
  rw [← plain_lengthLine]
  simp only [parse?, parse, plain]
  cases lengthLine body with
  | error e => rfl
  | ok header =>
      obtain ⟨value, taken, rest, hpos, hlength⟩ := header
      cases value with
      | none => rfl
      | some count =>
          simp only [Except.map, Except.bind, parseMany?]
          cases parseMany count rest with
          | error e => rfl
          | ok r => rfl

/-- Behind an underscore there is a line that does not matter. -/
theorem parse?_null (body : Bytes) :
    parse? (95 :: body) = (line? body).map fun (_, rest) => (.null, rest) := by
  rw [← plain_line]
  simp only [parse?, parse, plain]
  cases line body with
  | error e => rfl
  | ok r => rfl

/-- No other byte gives the type of a frame. -/
theorem parse?_unknown {byte : UInt8} (body : Bytes)
    (h : byte ∉ [43, 45, 58, 36, 42, 95]) : parse? (byte :: body) = .error (.unknownType byte) := by
  simp only [List.mem_cons, List.not_mem_nil, or_false, not_or] at h
  obtain ⟨h₁, h₂, h₃, h₄, h₅, h₆⟩ := h
  rw [parse?, parse.eq_8 byte body h₁ h₂ h₃ h₄ h₅ h₆]
  rfl

/-- A byte gives one of six types, or none. -/
theorem type_cases {P : UInt8 → Prop} (simple : P 43) (error : P 45) (integer : P 58) (bulk : P 36)
    (array : P 42) (null : P 95) (unknown : ∀ byte ∉ [43, 45, 58, 36, 42, 95], P byte)
    (byte : UInt8) : P byte := by
  by_cases hknown : byte ∈ [43, 45, 58, 36, 42, 95]
  · simp only [List.mem_cons, List.not_mem_nil, or_false] at hknown
    rcases hknown with rfl | rfl | rfl | rfl | rfl | rfl
    exacts [simple, error, integer, bulk, array, null]
  · exact unknown byte hknown

/-- To read no frames leaves the input as it is. -/
theorem parseMany?_zero (input : Bytes) : parseMany? 0 input = .ok ([], input) := by
  simp only [parseMany?, parseMany, Except.map, ReadMany.nil]

/-- Several frames are the first one, and then one less than that. -/
theorem parseMany?_succ (count : Nat) (input : Bytes) :
    parseMany? (count + 1) input = (parse? input).bind fun (item, rest) =>
      (parseMany? count rest).map fun (items, rest) => (item :: items, rest) := by
  simp only [parseMany?, parseMany, parse?, plain]
  cases parse input with
  | error e => rfl
  | ok item =>
      simp only [Except.map, Except.bind]
      cases parseMany count item.rest with
      | error e => rfl
      | ok r => rfl

/-! ### Lines -/

/-- A byte that is not the first one of a break belongs to the line. -/
theorem cutLine_cons {passed rest : Bytes} {b : UInt8} (h : b = 13 → ∀ tail, rest ≠ 10 :: tail) :
    cutLine passed (b :: rest) = cutLine (b :: passed) rest := by
  rw [cutLine.eq_3]
  rintro tail rfl heq
  exact h rfl tail heq

/-- A line without a break ends at the break behind it. -/
theorem cutLine_append {content : Bytes} (h : ¬ content.HasBreak) (passed rest : Bytes) :
    cutLine passed (content ++ 13 :: 10 :: rest) = some (passed.reverse ++ content, rest) := by
  induction content generalizing passed with
  | nil => simp only [List.nil_append, cutLine, List.append_nil]
  | cons b content ih =>
      have hcontent : ¬ Bytes.HasBreak content := by
        rintro ⟨before, after, heq⟩
        exact h ⟨b :: before, after, by simp only [List.cons_append, heq]⟩
      have hnext : b = 13 → ∀ tail, content ++ 13 :: 10 :: rest ≠ 10 :: tail := by
        rintro rfl tail heq
        cases content with
        | nil => exact absurd (List.cons.inj heq).1 (by decide)
        | cons c content =>
            obtain rfl := (List.cons.inj heq).1
            exact h ⟨[], content, rfl⟩
      rw [List.cons_append, cutLine_cons hnext, ih hcontent, List.reverse_cons, List.append_assoc,
        List.singleton_append]

/-- Bytes without a break are read as a line, up to the break behind them. -/
theorem line?_append {content : Bytes} (h : ¬ content.HasBreak) (rest : Bytes) :
    line? (content ++ 13 :: 10 :: rest) = .ok (content, rest) := by
  rw [line?, cutLine_append h, List.reverse_nil, List.nil_append]

/-- Where a line was cut, more input changes nothing. -/
theorem cutLine_append_right {passed input line rest : Bytes}
    (h : cutLine passed input = some (line, rest)) (more : Bytes) :
    cutLine passed (input ++ more) = some (line, rest ++ more) := by
  fun_induction cutLine passed input with
  | case1 => simp at h
  | case2 passed rest' =>
      simp only [Option.some.injEq, Prod.mk.injEq] at h
      obtain ⟨rfl, rfl⟩ := h
      simp only [List.cons_append, cutLine]
  | case3 passed b rest' hends ih =>
      have hnext : b = 13 → ∀ tail, rest' ++ more ≠ 10 :: tail := by
        rintro rfl tail heq
        cases rest' with
        | nil => simp [cutLine] at h
        | cons c rest' =>
            obtain rfl := (List.cons.inj heq).1
            exact hends rest' rfl rfl
      rw [List.cons_append, cutLine_cons hnext, ih h]

/-! ### Readings of more input -/

/-- Whether a reader comes to its end on an input: what it has found then, or the error it has
met, stays the same whatever follows. -/
structure Stable {α : Type} (read : Bytes → Result α) (input : Bytes) : Prop where
  /-- A value that has been read stays. -/
  ok : ∀ {value : α} {rest : Bytes}, read input = .ok (value, rest) →
    ∀ more, read (input ++ more) = .ok (value, rest ++ more)
  /-- An error stays, unless it only says that there was too little input. -/
  error : ∀ {cause : ParseError}, read input = .error cause → cause ≠ .incomplete →
    ∀ more, read (input ++ more) = .error cause

namespace Stable

variable {α β : Type} {read : Bytes → Result α} {input : Bytes}

/-- A reader that goes on with what another one left. -/
theorem bind (h : Stable read input) {next : α × Bytes → Result β}
    (hnext : ∀ {value rest}, read input = .ok (value, rest) →
      Stable (fun input => next (value, input)) rest) :
    Stable (fun input => (read input).bind next) input where
  ok := by
    intro value rest hok more
    cases hread : read input with
    | error e => simp only [hread, Except.bind, reduceCtorEq] at hok
    | ok found =>
        simp only [hread, Except.bind] at hok
        simp only [h.ok hread more, Except.bind]
        exact (hnext hread).ok hok more
  error := by
    intro cause herror hcause more
    cases hread : read input with
    | error e =>
        simp only [hread, Except.bind, Except.error.injEq] at herror
        subst herror
        simp only [h.error hread hcause more, Except.bind]
    | ok found =>
        simp only [hread, Except.bind] at herror
        simp only [h.ok hread more, Except.bind]
        exact (hnext hread).error herror hcause more

/-- A reader that makes something of what another one has read. -/
theorem map (h : Stable read input) (f : α → β) :
    Stable (fun input => (read input).map fun p => (f p.1, p.2)) input where
  ok := by
    intro value rest hok more
    cases hread : read input with
    | error e => simp only [hread, Except.map, reduceCtorEq] at hok
    | ok found =>
        simp only [hread, Except.map, Except.ok.injEq, Prod.mk.injEq] at hok
        obtain ⟨rfl, rfl⟩ := hok
        simp only [h.ok hread more, Except.map]
  error := by
    intro cause herror hcause more
    cases hread : read input with
    | error e =>
        simp only [hread, Except.map, Except.error.injEq] at herror
        subst herror
        simp only [h.error hread hcause more, Except.map]
    | ok found => simp only [hread, Except.map, reduceCtorEq] at herror

/-- A reader that takes nothing off its input. -/
theorem pure (value : α) (input : Bytes) : Stable (fun input => .ok (value, input)) input where
  ok := by
    intro value' rest hok more
    simp only [Except.ok.injEq, Prod.mk.injEq] at hok ⊢
    exact ⟨hok.1, hok.2 ▸ rfl⟩
  error := by
    intro cause herror
    simp only [reduceCtorEq] at herror

/-- A reader that fails without looking at its input. -/
theorem fail (cause : ParseError) (input : Bytes) :
    Stable (fun _ => (.error cause : Result α)) input where
  ok := by
    intro value rest hok
    simp only [reduceCtorEq] at hok
  error := by
    intro cause' herror _ _
    exact herror

/-- A reader behind a first byte. -/
theorem cons {b : UInt8} {body : Bytes} (h : Stable (fun body => read (b :: body)) body) :
    Stable read (b :: body) :=
  ⟨h.ok, h.error⟩

end Stable

/-- An incomplete reading has not come to its end, so that nothing is asked of it. -/
theorem stable_of_incomplete {α : Type} {read : Bytes → Result α} {input : Bytes}
    (h : read input = .error .incomplete) : Stable read input where
  ok := fun hok => nomatch h.symm.trans hok
  error := fun herror hcause => absurd (Except.error.inj (herror.symm.trans h)) hcause

/-- A line stays the same when more input follows its break. -/
theorem stable_line? (input : Bytes) : Stable line? input where
  ok := by
    intro value rest hok more
    rw [line?] at hok ⊢
    cases hcut : cutLine [] input with
    | none => simp only [hcut, reduceCtorEq] at hok
    | some p =>
        simp only [hcut, Except.ok.injEq] at hok
        subst hok
        rw [cutLine_append_right hcut]
  error := by
    intro cause herror hcause more
    rw [line?] at herror
    split at herror
    · exact absurd (Except.error.inj herror).symm hcause
    · simp only [reduceCtorEq] at herror

/-- What follows the first bytes of a payload decides about its end, so two bytes behind it
are enough. -/
theorem stable_payload? (length : Nat) (input : Bytes) : Stable (payload? length) input := by
  have hdrop : ∀ {a b : UInt8} {rest : Bytes}, input.drop length = a :: b :: rest →
      ∀ more, (input ++ more).drop length = a :: b :: (rest ++ more) ∧
        (input ++ more).take length = input.take length := by
    intro a b rest h more
    have hlength : length ≤ input.length := by
      refine Nat.le_of_not_lt fun hlt => ?_
      rw [List.drop_eq_nil_of_le (Nat.le_of_lt hlt)] at h
      simp only [List.nil_eq, reduceCtorEq] at h
    rw [List.drop_append_of_le_length hlength, List.take_append_of_le_length hlength, h]
    exact ⟨rfl, rfl⟩
  constructor
  · intro value rest hok more
    rw [payload?] at hok ⊢
    split at hok
    · rename_i h
      obtain ⟨hdrop', htake⟩ := hdrop h more
      simp only [Except.ok.injEq, Prod.mk.injEq] at hok
      obtain ⟨rfl, rfl⟩ := hok
      simp only [hdrop', htake]
    · simp only [reduceCtorEq] at hok
    · simp only [reduceCtorEq] at hok
  · intro cause herror hcause more
    rw [payload?] at herror ⊢
    split at herror
    · simp only [reduceCtorEq] at herror
    · rename_i hends h
      obtain ⟨hdrop', -⟩ := hdrop h more
      rw [hdrop']
      split
      · rename_i heq
        simp only [List.cons.injEq] at heq
        exact (hends heq.1 heq.2.1).elim
      · exact herror
      · rename_i hshort
        exact (hshort _ _ _ rfl).elim
    · exact absurd (Except.error.inj herror).symm hcause

/-- A length header takes up some of the input. -/
theorem length_lt_of_lengthLine? {input rest : Bytes} {length : Option Nat}
    (h : lengthLine? input = .ok (length, rest)) : rest.length < input.length := by
  rw [← plain_lengthLine] at h
  cases hr : lengthLine input with
  | error e => simp only [hr, plain, Except.map, reduceCtorEq] at h
  | ok r =>
      simp only [hr, plain, Except.map, Except.ok.injEq, Prod.mk.injEq] at h
      exact h.2 ▸ r.shorter

/-- A frame takes up at least one byte. -/
theorem length_lt_of_parse? {input rest : Bytes} {frame : Frame}
    (h : parse? input = .ok (frame, rest)) : rest.length < input.length := by
  rw [parse?] at h
  cases hr : parse input with
  | error e => simp only [hr, plain, Except.map, reduceCtorEq] at h
  | ok r =>
      simp only [hr, plain, Except.map, Except.ok.injEq, Prod.mk.injEq] at h
      exact h.2 ▸ r.shorter

/-! ### Along the parser -/

/-- What holds of every reader that the parser is put together from: of those for lines and
payloads, of those that look no further, and of whatever is made of such readers. -/
structure Composes (P : {α : Type} → (Bytes → Result α) → Bytes → Prop) : Prop where
  /-- It holds of lines. -/
  line : ∀ input, P line? input
  /-- It holds of payloads. -/
  payload : ∀ length input, P (payload? length) input
  /-- It holds of a reader that finds too little input. -/
  incomplete : ∀ {α : Type} {read : Bytes → Result α} {input : Bytes},
    read input = .error .incomplete → P read input
  /-- It holds of a reader that takes nothing off its input. -/
  pure : ∀ {α : Type} (value : α) (input : Bytes), P (fun input => .ok (value, input)) input
  /-- It holds of a reader that fails without looking at its input. -/
  fail : ∀ {α : Type} (cause : ParseError) (input : Bytes),
    P (fun _ => (.error cause : Result α)) input
  /-- It holds of a reader that goes on with what another one left. -/
  bind : ∀ {α β : Type} {read : Bytes → Result α} {input : Bytes}, P read input →
    ∀ {next : α × Bytes → Result β}, (∀ {value rest}, read input = .ok (value, rest) →
      P (fun input => next (value, input)) rest) → P (fun input => (read input).bind next) input
  /-- It holds of a reader that makes something of what another one has read. -/
  map : ∀ {α β : Type} {read : Bytes → Result α} {input : Bytes}, P read input →
    ∀ f : α → β, P (fun input => (read input).map fun p => (f p.1, p.2)) input
  /-- It holds of a reader behind a first byte. -/
  cons : ∀ {α : Type} {read : Bytes → Result α} {b : UInt8} {body : Bytes},
    P (fun body => read (b :: body)) body → P read (b :: body)

namespace Composes

variable {P : {α : Type} → (Bytes → Result α) → Bytes → Prop} (h : Composes P)

include h

/-- What is kept by the ways in which readers are put together holds of lines of text. -/
theorem textLine? (input : Bytes) : P textLine? input :=
  h.bind (h.line input) fun {content rest} _ => by
    cases htext : Bytes.toString? content with
    | none => simpa only [htext] using h.fail .notText rest
    | some text => simpa only [htext] using h.pure text rest

/-- What is kept by the ways in which readers are put together holds of lines with integers. -/
theorem integerLine? (fault : ParseError) (input : Bytes) : P (integerLine? fault) input :=
  h.bind (h.line input) fun {content rest} _ => by
    cases htext : Bytes.toString? content with
    | none => simpa only [htext] using h.fail .notText rest
    | some text =>
        cases hvalue : Decimal.readInt64? content with
        | none => simpa only [htext, hvalue] using h.fail fault rest
        | some value => simpa only [htext, hvalue] using h.pure value rest

/-- What is kept by the ways in which readers are put together holds of length headers. -/
theorem lengthLine? (input : Bytes) : P lengthLine? input :=
  h.bind (h.integerLine? .badLength input) fun {value rest} _ => by
    by_cases hnull : value = -1
    · simpa only [hnull, if_true] using h.pure none rest
    · by_cases hnegative : value < 0
      · simpa only [hnull, hnegative, if_true, if_false] using h.fail .badLength rest
      · simpa only [hnull, hnegative, if_false] using h.pure (some value.toNatClampNeg) rest

/-- What holds of each of several frames holds of all of them. -/
theorem parseMany? {size : Nat} (hframe : ∀ {input : Bytes}, input.length < size → P parse? input)
    (count : Nat) {input : Bytes} (hinput : input.length < size) : P (parseMany? count) input := by
  induction count generalizing input with
  | zero =>
      simp only [funext parseMany?_zero]
      exact h.pure [] input
  | succ count ih =>
      simp only [funext (parseMany?_succ count)]
      refine h.bind (hframe hinput) fun {item rest} hitem => ?_
      have hrest := Nat.lt_trans (length_lt_of_parse? hitem) hinput
      exact h.map (ih hrest) fun items => item :: items

/-- What is kept by the ways in which readers are put together holds of frames. The induction is on
the input: what stands in an array is shorter than the array. -/
theorem parse? (input : Bytes) : P parse? input := by
  suffices hsize : ∀ size, ∀ input : Bytes, input.length < size → P Frame.parse? input from
    hsize _ input (Nat.lt_succ_self _)
  intro size
  induction size with
  | zero => exact fun input hinput => absurd hinput (Nat.not_lt_zero _)
  | succ size ih =>
      intro input hinput
      match input with
      | [] => exact h.incomplete parse?_nil
      | byte :: body =>
          have hbody : body.length < size := Nat.lt_of_succ_lt_succ hinput
          refine h.cons ?_
          cases byte using type_cases with
          | simple =>
              simp only [funext parse?_simple]
              exact h.map (h.textLine? body) Frame.simple
          | error =>
              simp only [funext parse?_error]
              exact h.map (h.textLine? body) Frame.error
          | integer =>
              simp only [funext parse?_integer]
              exact h.map (h.integerLine? .badInteger body) Frame.integer
          | bulk =>
              simp only [funext parse?_bulk]
              refine h.bind (h.lengthLine? body) fun {length rest} _ => ?_
              cases length with
              | none => exact h.pure Frame.null rest
              | some length => exact h.map (h.payload length rest) Frame.bulk
          | array =>
              simp only [funext parse?_array]
              refine h.bind (h.lengthLine? body) fun {count rest} hcount => ?_
              cases count with
              | none => exact h.pure Frame.null rest
              | some count =>
                  have hrest := Nat.lt_trans (length_lt_of_lengthLine? hcount) hbody
                  exact h.map (h.parseMany? (fun hlt => ih _ hlt) count hrest) Frame.array
          | null =>
              simp only [funext parse?_null]
              exact h.map (h.line body) fun _ => Frame.null
          | unknown byte hunknown =>
              simp only [fun body => parse?_unknown body hunknown]
              exact h.fail (.unknownType byte) body

end Composes

/-- More input changes nothing about a frame that has been read, and about bytes that are no
frame. -/
theorem stable_parse? (input : Bytes) : Stable parse? input :=
  Composes.parse? ⟨stable_line?, stable_payload?, stable_of_incomplete, Stable.pure, Stable.fail,
    Stable.bind, Stable.map, Stable.cons⟩ input

/-! ### Frames one behind the other -/

/-- Whether the frames are what reading the input again and again gives, and what is left
then. -/
def Reads : Bytes → List Frame → Bytes → Prop
  | input, [], rest => input = rest
  | input, frame :: frames, rest => ∃ mid, parse? input = .ok (frame, mid) ∧ Reads mid frames rest

/-- To read several frames is to read that many, one behind the other. -/
theorem parseMany?_eq_ok_iff {count : Nat} {input rest : Bytes} {items : List Frame} :
    parseMany? count input = .ok (items, rest) ↔ items.length = count ∧ Reads input items rest := by
  induction count generalizing input items with
  | zero =>
      rw [parseMany?_zero, Except.ok.injEq, Prod.mk.injEq]
      constructor
      · rintro ⟨rfl, rfl⟩
        exact ⟨rfl, rfl⟩
      · rintro ⟨hlength, hreads⟩
        obtain rfl := List.length_eq_zero_iff.mp hlength
        exact ⟨rfl, hreads⟩
  | succ count ih =>
      rw [parseMany?_succ]
      constructor
      · intro h
        cases hitem : parse? input with
        | error e => simp only [hitem, Except.bind, reduceCtorEq] at h
        | ok found =>
            obtain ⟨item, mid⟩ := found
            simp only [hitem, Except.bind] at h
            cases hitems : parseMany? count mid with
            | error e => simp only [hitems, Except.map, reduceCtorEq] at h
            | ok found =>
                simp only [hitems, Except.map, Except.ok.injEq, Prod.mk.injEq] at h
                obtain ⟨rfl, rfl⟩ := h
                obtain ⟨hlength, hreads⟩ := ih.mp hitems
                exact ⟨congrArg (· + 1) hlength, mid, hitem, hreads⟩
      · rintro ⟨hlength, hreads⟩
        cases items with
        | nil => exact absurd hlength (Nat.succ_ne_zero count).symm
        | cons item items =>
            obtain ⟨mid, hitem, hreads⟩ := hreads
            simp only [hitem, Except.bind, ih.mpr ⟨Nat.succ.inj hlength, hreads⟩, Except.map]

/-- Frames that are read where other frames end are read behind these. -/
theorem Reads.append {input mid rest : Bytes} {frames more : List Frame}
    (h : Reads input frames mid) (h' : Reads mid more rest) :
    Reads input (frames ++ more) rest := by
  induction frames generalizing input with
  | nil => exact h ▸ h'
  | cons frame frames ih =>
      obtain ⟨next, hparse, hreads⟩ := h
      exact ⟨next, hparse, ih hreads⟩

end RespStore.Frame
