import RespStore.Proofs.ListCommands
import RespStore.Proofs.Lcs.Runs

/-!
# What is reported about an alignment

A comparison is answered with the length of the longest common subsequence, with its runs, or with
the subsequence itself. However it is asked, the reply tells of the same alignment.

* `Lcs.Alignment.ReportedBy` says what a reply tells of an alignment.
* `Lcs.runs_decompose` is the main result: what the runs are, and what each request that asks for
  them is told.
-/

namespace RespStore

/-- The byte string that is compared when a key holds this, if it can be compared. Nothing counts as
the empty byte string. -/
def Value.operand? : Option Value → Option Bytes
  | none => some []
  | some (.bytes content) => some content
  | some (.list _) => none

namespace Handler

variable {client : Nat} {s s' : Store Subscriber} {reply : Reply}

/-- A byte string to be compared is read. -/
theorem replies_operand {key content : Bytes} {more : Bytes → Action Reply}
    (h : Value.operand? (s.get key) = some content)
    (hmore : ((answer (more content)).run .plain client s).Replies reply s') :
    ((answer (Execution.operand key >>= more)).run .plain client s).Replies reply s' := by
  refine replies_call ∅ (.get key) ?_
  simp only [Store.react, Store.serve]
  cases hheld : s.get key with
  | none =>
      rw [hheld] at h
      obtain rfl := Option.some.inj h
      exact hmore
  | some value =>
      rw [hheld] at h
      cases value with
      | bytes held =>
          obtain rfl := Option.some.inj h
          exact hmore
      | list items => exact absurd h (Option.some_ne_none content).symm

end Handler

namespace Execution

/-- The runs of the ranges that a query reports. -/
theorem map_report (query : LcsQuery) (runs : List Lcs.Run) :
    ((report query runs).map fun range => (⟨range.a, range.b⟩ : Lcs.Run)) =
      runs.filter fun run => query.minLength ≤ run.length := by
  rw [report, List.map_map]
  exact List.map_id _

/-- The ranges that a query reports have their lengths with them, if it asks for that. -/
theorem length_of_mem_report {query : LcsQuery} {runs : List Lcs.Run} {range : MatchRange}
    (h : range ∈ report query runs) :
    range.length = if query.withLengths then some range.a.length else none := by
  obtain ⟨run, -, rfl⟩ := List.mem_map.mp h
  rfl

/-- The lengths of the ranges that a query reports, when it reports every run. -/
theorem sum_report {query : LcsQuery} {runs : List Lcs.Run} (h : query.minLength = 0) :
    ((report query runs).map fun range => range.a.length).sum = (runs.map Lcs.Run.length).sum := by
  have hall : runs.filter (fun run => query.minLength ≤ run.length) = runs :=
    List.filter_eq_self.mpr fun run _ => decide_eq_true (h ▸ Nat.zero_le run.length)
  have hruns := congrArg (fun runs : List Lcs.Run => (runs.map Lcs.Run.length).sum)
    (map_report query runs)
  rw [hall, List.map_map] at hruns
  exact hruns

end Execution

namespace Lcs

/-- The reply to a query that has come to an alignment. -/
def Alignment.reply (alignment : Alignment) (query : LcsQuery) : Reply :=
  if query.onlyLength then .count alignment.sequence.length
  else if query.ranges then
    .alignment (Execution.report query alignment.runs) alignment.sequence.length
  else .bulk alignment.sequence

/-- What a reply to a query tells of an alignment. -/
structure Alignment.ReportedBy (alignment : Alignment) (query : LcsQuery) (reply : Reply) :
    Prop where
  /-- The length alone. -/
  length : query.onlyLength = true → reply = .count alignment.sequence.length
  /-- The runs that are long enough, in the order of the alignment, and the length of the whole
  sequence. Without a least length the runs add up to it. -/
  ranges : query.ranges = true → ∃ ranges,
    reply = .alignment ranges alignment.sequence.length ∧
    (ranges.map fun range => (⟨range.a, range.b⟩ : Run)) =
      (alignment.runs.filter fun run => query.minLength ≤ run.length) ∧
    (∀ range ∈ ranges,
      range.length = if query.withLengths then some range.a.length else none) ∧
    (query.minLength = 0 →
      (ranges.map fun range => range.a.length).sum = alignment.sequence.length)
  /-- The sequence. -/
  sequence : query.onlyLength = false → query.ranges = false →
    reply = .bulk alignment.sequence

section Replies

variable {client : Nat} {s : Store Subscriber} {a b : Bytes} {alignment : Alignment}
  {query : LcsQuery}

/-- A query is answered from the alignment of the byte strings that its keys hold. -/
theorem replies_lcs (hsolve : solve a b defaultLimit = .ok alignment)
    (ha : Value.operand? (s.get query.key₁) = some a)
    (hb : Value.operand? (s.get query.key₂) = some b) :
    ((Handler.perform (.lcs query)).run .plain client s).Replies (alignment.reply query) s := by
  rw [Alignment.reply]
  refine Handler.replies_operand ha (Handler.replies_operand hb ?_)
  simp only [hsolve]
  split
  · exact ⟨rfl, rfl⟩
  · split
    · exact ⟨rfl, rfl⟩
    · exact ⟨rfl, rfl⟩

/-- What a query is answered with tells of the alignment. -/
theorem reportedBy (hdecomposes : Decomposes alignment.runs.reverse a b alignment.sequence)
    (hasks : ¬ (query.onlyLength = true ∧ query.ranges = true)) :
    alignment.ReportedBy query (alignment.reply query) where
  length hlength := if_pos hlength
  ranges hranges := by
    have hlength : ¬ query.onlyLength = true := fun hlength => hasks ⟨hlength, hranges⟩
    refine ⟨Execution.report query alignment.runs, ?_, Execution.map_report query alignment.runs,
      fun range hrange => Execution.length_of_mem_report hrange, fun hall => ?_⟩
    · rw [Alignment.reply, if_neg hlength, if_pos hranges]
    · rw [Execution.sum_report hall, ← hdecomposes.sum_length, List.map_reverse, List.sum_reverse]
  sequence hlength hranges := by
    rw [Alignment.reply, if_neg (Bool.not_eq_true _ ▸ hlength),
      if_neg (Bool.not_eq_true _ ▸ hranges)]

end Replies

/-- **The runs of an alignment decompose it, and it is reported as it is.** Whatever the inputs are,
if their table fits, then an alignment is found of which this holds:

* Its runs, read from the last one to the first one, stand in both inputs with the same bytes, are
  in order and do not overlap, no two of them could have been one, and their bytes are exactly the
  sequence.
* Every request that compares two keys which hold the inputs is answered, and changes nothing. If it
  asks for the length, it is told that of the sequence. If it asks for the ranges, it is told the
  same length, and exactly the runs that are as long as it demands, in order; when it demands
  nothing, they add up to that length. -/
theorem runs_decompose {a b : Bytes} {limit : Nat} (h : fits limit a b) :
    ∃ alignment, solve a b limit = .ok alignment ∧ alignment.sequence.length < 2 ^ 63 ∧
      Decomposes alignment.runs.reverse a b alignment.sequence ∧
      (fits defaultLimit a b → ∀ client s request query,
        Command.ofRequest request = .ok (.lcs query) →
        Value.operand? (s.get query.key₁) = some a → Value.operand? (s.get query.key₂) = some b →
        ∃ reply, ((Handler.normal.handle request).run .plain client s).Replies reply s ∧
          alignment.ReportedBy query reply) := by
  obtain ⟨alignment, hsolve, hdecomposes⟩ := exists_decomposition h
  refine ⟨alignment, hsolve, (length_solve_lt hsolve).1, hdecomposes,
    fun hfits client s request query hrequest ha hb => ?_⟩
  have hdefault : solve a b defaultLimit = .ok alignment :=
    (solve_of_fits hfits).trans ((solve_of_fits h).symm.trans hsolve)
  rw [Handler.handle_normal hrequest]
  exact ⟨_, replies_lcs hdefault ha hb,
    reportedBy hdecomposes (Command.asksOnce_of_ofRequest hrequest)⟩

/-- A store with two texts to be compared. -/
def texts : Store Subscriber :=
  (Store.empty.put [97] (.bytes (Bytes.ofString "ohmytext"))).put [98]
    (.bytes (Bytes.ofString "mynewtext"))

/-- A client asks for the ranges of at least four bytes, with their lengths. -/
def comparing : Request :=
  ⟨Bytes.ofString "LCS", [[97], [98], Bytes.ofString "IDX", Bytes.ofString "MINMATCHLEN", [52],
    Bytes.ofString "WITHMATCHLEN"]⟩

/-- The hypothesis can be met by two texts whose common subsequence has two runs. -/
theorem runs_decompose_mytext :
    fits 512 (Bytes.ofString "ohmytext") (Bytes.ofString "mynewtext") ∧
      ∃ alignment, solve (Bytes.ofString "ohmytext") (Bytes.ofString "mynewtext") 512 =
          .ok alignment ∧
        alignment.sequence = Bytes.ofString "mytext" ∧
        Decomposes [⟨⟨2, 3⟩, ⟨0, 1⟩⟩, ⟨⟨4, 7⟩, ⟨5, 8⟩⟩] (Bytes.ofString "ohmytext")
          (Bytes.ofString "mynewtext") (Bytes.ofString "mytext") ∧
        ((Handler.normal.handle comparing).run .plain 0 texts).Replies
          (.alignment [⟨⟨4, 7⟩, ⟨5, 8⟩, some 4⟩] 6) texts := by
  have hfits : fits 512 (Bytes.ofString "ohmytext") (Bytes.ofString "mynewtext") := by decide
  have hsolve : solve (Bytes.ofString "ohmytext") (Bytes.ofString "mynewtext") 512 =
      .ok ⟨Bytes.ofString "mytext", [⟨⟨4, 7⟩, ⟨5, 8⟩⟩, ⟨⟨2, 3⟩, ⟨0, 1⟩⟩]⟩ := by
    decide +kernel
  obtain ⟨alignment, halignment, -, hdecomposes, hreplies⟩ := runs_decompose hfits
  obtain rfl := Except.ok.inj (halignment.symm.trans hsolve)
  obtain ⟨reply, hreply, hreported⟩ := hreplies (by decide) 0 texts comparing
    ⟨[97], [98], false, true, 4, true⟩ (by decide +kernel) (by decide +kernel) (by decide +kernel)
  obtain ⟨ranges, rfl, hruns, hlengths, -⟩ := hreported.ranges rfl
  obtain ⟨⟨a, b, length⟩, rfl, hrange⟩ := List.map_eq_singleton_iff.mp hruns
  obtain ⟨rfl, rfl⟩ := Run.mk.inj hrange
  have hlength : length = some 4 := hlengths _ (List.mem_singleton_self _)
  subst hlength
  exact ⟨hfits, _, halignment, rfl, hdecomposes, hreply⟩

end Lcs

end RespStore
