import RespStore.Proofs.Wire.Reading

/-!
# What a reading takes and leaves

A reader takes bytes off the front of its input and looks at none of those that it leaves.

* `Frame.Takes` says so of a reader on an input: the bytes that it has taken give the same value
  whatever follows them. `Frame.takes_parse?` says it of frames.
* `Frame.Leaves` is what that means for the rest: it is the end of the input.
* `Frame.parse_determined` is the main result, about the parser as it runs: a frame is read as
  soon as its last byte is there and not before, and what comes behind it changes nothing.
-/

namespace RespStore.Frame

/-- Whether what a reader leaves of an input is the end of that input. -/
def Leaves {α : Type} (read : Bytes → Result α) (input : Bytes) : Prop :=
  ∀ ⦃value : α⦄ ⦃rest : Bytes⦄, read input = .ok (value, rest) → rest <:+ input

/-- Whether a reader finds what it finds in the bytes that it takes, whatever stands behind them. -/
def Takes {α : Type} (read : Bytes → Result α) (input : Bytes) : Prop :=
  ∀ ⦃value : α⦄ ⦃rest : Bytes⦄, read input = .ok (value, rest) →
    ∃ taken, taken ++ rest = input ∧ ∀ behind, read (taken ++ behind) = .ok (value, behind)

namespace Takes

variable {α β : Type} {read : Bytes → Result α} {input : Bytes}

/-- What is left is what was not taken. -/
theorem leaves (h : Takes read input) : Leaves read input := by
  intro value rest hok
  obtain ⟨taken, hsplit, -⟩ := h hok
  exact ⟨taken, hsplit⟩

/-- A reader that goes on with what another one left. -/
theorem bind (h : Takes read input) {next : α × Bytes → Result β}
    (hnext : ∀ {value rest}, read input = .ok (value, rest) →
      Takes (fun input => next (value, input)) rest) :
    Takes (fun input => (read input).bind next) input := by
  intro value rest hok
  cases hread : read input with
  | error e => simp only [hread, Except.bind, reduceCtorEq] at hok
  | ok found =>
      obtain ⟨first, mid⟩ := found
      simp only [hread, Except.bind] at hok
      obtain ⟨taken, hsplit, htaken⟩ := h hread
      obtain ⟨more, hmid, hmore⟩ := hnext hread hok
      refine ⟨taken ++ more, by rw [List.append_assoc, hmid, hsplit], fun behind => ?_⟩
      simp only [List.append_assoc, htaken, Except.bind, hmore]

/-- A reader that makes something of what another one has read. -/
theorem map (h : Takes read input) (f : α → β) :
    Takes (fun input => (read input).map fun p => (f p.1, p.2)) input := by
  intro value rest hok
  cases hread : read input with
  | error e => simp only [hread, Except.map, reduceCtorEq] at hok
  | ok found =>
      simp only [hread, Except.map, Except.ok.injEq, Prod.mk.injEq] at hok
      obtain ⟨rfl, rfl⟩ := hok
      obtain ⟨taken, hsplit, htaken⟩ := h hread
      exact ⟨taken, hsplit, fun behind => by simp only [htaken, Except.map]⟩

/-- A reader that takes nothing off its input. -/
theorem pure (value : α) (input : Bytes) : Takes (fun input => .ok (value, input)) input := by
  intro value' rest hok
  obtain ⟨rfl, rfl⟩ := Prod.mk.inj (Except.ok.inj hok)
  exact ⟨[], rfl, fun _ => rfl⟩

/-- A reader that fails. -/
theorem fail (cause : ParseError) (input : Bytes) :
    Takes (fun _ => (.error cause : Result α)) input :=
  fun _ _ hok => nomatch hok

/-- A reader behind a first byte. -/
theorem cons {b : UInt8} {body : Bytes} (h : Takes (fun body => read (b :: body)) body) :
    Takes read (b :: body) := by
  intro value rest hok
  obtain ⟨taken, hsplit, htaken⟩ := h hok
  exact ⟨b :: taken, congrArg (b :: ·) hsplit, htaken⟩

end Takes

/-- An incomplete reading has found nothing, so that nothing is asked of it. -/
theorem takes_of_incomplete {α : Type} {read : Bytes → Result α} {input : Bytes}
    (h : read input = .error .incomplete) : Takes read input :=
  fun _ _ hok => nomatch h.symm.trans hok

/-- A line is cut behind its first break, so nothing behind the break was looked at. -/
theorem exists_taken_of_cutLine {passed input line rest : Bytes}
    (h : cutLine passed input = some (line, rest)) :
    ∃ taken, taken ++ 13 :: 10 :: rest = input ∧
      ∀ behind, cutLine passed (taken ++ 13 :: 10 :: behind) = some (line, behind) := by
  fun_induction cutLine passed input with
  | case1 => cases h
  | case2 passed rest' =>
      obtain ⟨rfl, rfl⟩ := Prod.mk.inj (Option.some.inj h)
      exact ⟨[], rfl, fun _ => rfl⟩
  | case3 passed b rest' hends ih =>
      obtain ⟨taken, rfl, htaken⟩ := ih h
      refine ⟨b :: taken, rfl, fun behind => ?_⟩
      have hnext : b = 13 → ∀ tail, taken ++ 13 :: 10 :: behind ≠ 10 :: tail := by
        rintro rfl tail heq
        cases taken with
        | nil => exact absurd (List.cons.inj heq).1 (by decide)
        | cons c taken =>
            obtain rfl := (List.cons.inj heq).1
            exact hends _ rfl rfl
      rw [List.cons_append, cutLine_cons hnext, htaken]

/-- A line is found in the bytes up to its break. -/
theorem takes_line? (input : Bytes) : Takes line? input := by
  intro value rest hok
  rw [line?] at hok
  split at hok
  · cases hok
  · rename_i hcut
    obtain ⟨taken, hsplit, htaken⟩ := exists_taken_of_cutLine (Except.ok.inj hok ▸ hcut)
    refine ⟨taken ++ [13, 10], (List.append_assoc ..).trans hsplit, fun behind => ?_⟩
    have hcut' := htaken behind
    simp only [line?, List.append_assoc, List.cons_append, List.nil_append, hcut']

/-- A payload is found in its bytes and the two behind them. -/
theorem takes_payload? (length : Nat) (input : Bytes) : Takes (payload? length) input := by
  intro value rest hok
  rw [payload?] at hok
  split at hok
  · rename_i hdrop
    obtain ⟨rfl, rfl⟩ := Prod.mk.inj (Except.ok.inj hok)
    have hlength : (input.take length).length = length := by
      have hpresent := congrArg List.length hdrop
      simp only [List.length_drop, List.length_cons] at hpresent
      rw [List.length_take]
      omega
    refine ⟨input.take length ++ [13, 10], ?_, fun behind => ?_⟩
    · rw [List.append_assoc, List.cons_append, List.singleton_append, ← hdrop,
        List.take_append_drop]
    · simp only [payload?, List.append_assoc, List.cons_append, List.nil_append,
        List.drop_left' hlength, List.take_left' hlength]
  · cases hok
  · cases hok

/-- A frame is found in the bytes that it takes up. -/
theorem takes_parse? (input : Bytes) : Takes parse? input :=
  Composes.parse? ⟨takes_line?, takes_payload?, takes_of_incomplete, Takes.pure, Takes.fail,
    Takes.bind, Takes.map, Takes.cons⟩ input

/-! ### Where a frame ends -/

/-- A reading without its proofs is a reading, which has taken all that it has not left. -/
theorem exists_of_parse? {input rest : Bytes} {frame : Frame}
    (h : parse? input = .ok (frame, rest)) :
    ∃ read, parse input = .ok read ∧
      read.value = frame ∧ read.taken = input.length - rest.length ∧ read.rest = rest := by
  rw [parse?, plain] at h
  cases hread : parse input with
  | error e =>
      rw [hread] at h
      cases h
  | ok read =>
      rw [hread] at h
      obtain ⟨rfl, rfl⟩ := Prod.mk.inj (Except.ok.inj h)
      exact ⟨read, rfl, rfl, Nat.eq_sub_of_add_eq' read.length_rest_add, rfl⟩

/-- A reading that is found without its proofs is the one that is found with them. -/
theorem parse?_of_parse {input : Bytes} {read : Read Frame input} (h : parse input = .ok read) :
    parse? input = .ok (read.value, read.rest) := by
  rw [parse?, h]
  rfl

/-- A reading is refused without its proofs exactly if it is refused with them. -/
theorem parse?_eq_error_iff {input : Bytes} {cause : ParseError} :
    parse? input = .error cause ↔ parse input = .error cause := by
  rw [parse?, plain]
  cases parse input with
  | error e => simp only [Except.map, Except.error.injEq]
  | ok read => simp only [Except.map, reduceCtorEq]

/-- The bytes that a frame takes up, with what it leaves behind them or anything else. -/
theorem parse?_take_append {input : Bytes} {read : Read Frame input} (h : parse input = .ok read) :
    input.take read.taken ++ read.rest = input ∧
      ∀ behind, parse? (input.take read.taken ++ behind) = .ok (read.value, behind) := by
  obtain ⟨taken, hsplit, htaken⟩ := takes_parse? input (parse?_of_parse h)
  have hlength : taken.length = read.taken := by
    have hwhole := congrArg List.length hsplit
    rw [List.length_append, ← read.length_rest_add] at hwhole
    omega
  rw [(congrArg (List.take read.taken) hsplit).symm.trans (List.take_left' hlength)]
  exact ⟨hsplit, htaken⟩

/-- A strict beginning of the bytes that a frame takes up is incomplete: if anything were found
there, it would be found in the whole input as well. -/
theorem parse?_of_beginning {input rest start more : Bytes} {frame : Frame}
    (h : parse? input = .ok (frame, rest)) (hsplit : start ++ more ++ rest = input)
    (hmore : more ≠ []) : parse? start = .error .incomplete := by
  rw [← hsplit, List.append_assoc] at h
  cases hstart : parse? start with
  | error cause =>
      by_cases hcause : cause = .incomplete
      · rw [hcause]
      · exact nomatch h.symm.trans ((stable_parse? start).error hstart hcause (more ++ rest))
  | ok found =>
      -- What this would leave ends in `more ++ rest`, but only `rest` is left.
      obtain ⟨frame', rest'⟩ := found
      have hwhole := h.symm.trans ((stable_parse? start).ok hstart (more ++ rest))
      have hlength := congrArg List.length (Prod.mk.inj (Except.ok.inj hwhole)).2
      have hpos := List.length_pos_of_ne_nil hmore
      simp only [List.length_append] at hlength
      omega

/-- **A frame is found when it is complete.** Suppose that a frame is read off the front of some
input.

* With anything behind it the same frame is read, taking up as many bytes.
* The bytes that it takes up are enough to read it.
* A strict beginning of these bytes is incomplete.

And suppose that there is an error which is not that the input is incomplete. Then there is the same
error with anything behind the input. -/
theorem parse_determined (input : Bytes) :
    (∀ read, parse input = .ok read →
      (∀ more, ∃ read', parse (input ++ more) = .ok read' ∧
        read'.value = read.value ∧ read'.taken = read.taken ∧ read'.rest = read.rest ++ more) ∧
      (∃ read', parse (input.take read.taken) = .ok read' ∧
        read'.value = read.value ∧ read'.taken = read.taken ∧ read'.rest = []) ∧
      ∀ start, start <+: input.take read.taken → start ≠ input.take read.taken →
        parse start = .error .incomplete) ∧
    ∀ cause, parse input = .error cause → cause ≠ .incomplete →
      ∀ more, parse (input ++ more) = .error cause := by
  refine ⟨fun read hread => ?_, fun cause herror hcause more => ?_⟩
  · obtain ⟨hsplit, hparse⟩ := parse?_take_append hread
    have hlength : (input.take read.taken).length = read.taken :=
      List.length_take_of_le (Nat.le.intro ((Nat.add_comm ..).trans read.length_rest_add))
    have hfound (behind : Bytes) : ∃ read', parse (input.take read.taken ++ behind) = .ok read' ∧
        read'.value = read.value ∧ read'.taken = read.taken ∧ read'.rest = behind := by
      obtain ⟨read', hread', hvalue, htaken, hrest⟩ := exists_of_parse? (hparse behind)
      refine ⟨read', hread', hvalue, ?_, hrest⟩
      rw [htaken, List.length_append, Nat.add_sub_cancel, hlength]
    refine ⟨fun more => ?_, ?_, fun start hstart hne => ?_⟩
    · have hmore := hfound (read.rest ++ more)
      rwa [← List.append_assoc, hsplit] at hmore
    · have hnothing := hfound []
      rwa [List.append_nil] at hnothing
    · obtain ⟨more, hmore⟩ := hstart
      rw [← parse?_eq_error_iff]
      refine parse?_of_beginning (parse?_of_parse hread) (hmore ▸ hsplit) ?_
      rintro rfl
      exact hne ((List.append_nil start).symm.trans hmore)
  · rw [← parse?_eq_error_iff] at herror ⊢
    exact (stable_parse? input).error herror hcause more

/-- An array whose first element holds the end of a line, and the beginning of another frame. -/
def nested : Bytes := Bytes.ofString "*2\r\n$4\r\na\r\nb\r\n*1\r\n:7\r\n$3"

/-- The array is found in its 22 bytes, is incomplete without the last of them, and is the same
whatever follows it; what is no frame stays none. -/
theorem parse_determined_nested :
    ∃ read, parse nested = .ok read ∧ read.taken = 22 ∧
      (∀ more, ∃ read', parse (nested ++ more) = .ok read' ∧ read'.value = read.value ∧
        read'.taken = 22 ∧ read'.rest = 36 :: 51 :: more) ∧
      parse (nested.take 17) = .error .incomplete ∧
      ∀ more, parse (Bytes.ofString "*1\r\n?" ++ more) = .error (.unknownType 63) := by
  have hfound : (parse nested).map (fun read => (read.taken, read.rest)) = .ok (22, [36, 51]) := by
    decide +kernel
  have hunknown : parse (Bytes.ofString "*1\r\n?") = .error (.unknownType 63) := by
    have hmap : (parse (Bytes.ofString "*1\r\n?")).map Read.taken = .error (.unknownType 63) := by
      decide +kernel
    cases hread : parse (Bytes.ofString "*1\r\n?") with
    | error cause =>
        rw [hread] at hmap
        exact congrArg _ (Except.error.inj hmap)
    | ok read =>
        rw [hread] at hmap
        cases hmap
  cases hread : parse nested with
  | error cause =>
      rw [hread] at hfound
      cases hfound
  | ok read =>
      rw [hread] at hfound
      obtain ⟨htaken, hrest⟩ := Prod.mk.inj (Except.ok.inj hfound)
      obtain ⟨hmore, -, hstart⟩ := (parse_determined nested).1 read hread
      rw [htaken, hrest] at hmore
      rw [htaken] at hstart
      refine ⟨read, rfl, htaken, hmore, hstart _ ?_ ?_, ?_⟩
      · exact List.take_prefix_take_left (by decide)
      · decide
      · exact (parse_determined _).2 _ hunknown (by decide)

end RespStore.Frame
