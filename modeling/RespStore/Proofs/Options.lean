import RespStore.Proofs.Command
import RespStore.Proofs.Keyword

/-!
# The options of a comparison

A comparison takes any number of options behind its keys, in any order. Some are keywords, and one
is a keyword with an integer behind it, which may look like a keyword itself.

* `LcsOption.Spelled` says which options arguments spell, given how keywords are compared, and
  `LcsQuery.asking` what is asked for with some options.
* `Command.lcsOptions_flag`, `Command.lcsOptions_valued` and `Command.lcsOptions_unknown` say what
  one argument does. `Command.Stuck` is for arguments at which the reading stops.
* `Command.lcsOptions_append` and `Command.exists_spelled` say what a whole list does: it spells
  options up to its end, or up to where it is stuck. `Command.lcsOptions_eq_ok_iff` and
  `Command.lcsOptions_eq_error_iff` follow from both.
* `Command.lcs_options_exact` is the main result, about all lists of arguments.
-/

namespace RespStore

namespace Decimal

/-- What is read as a number is digits. -/
theorem le_of_readDigits {acc n : Nat} {b : Bytes} (h : readDigits acc b = some n) :
    ∀ x ∈ b, x ≤ 57 := by
  induction b generalizing acc with
  | nil => exact fun x hx => absurd hx List.not_mem_nil
  | cons x b ih =>
      rw [readDigits] at h
      obtain ⟨d, hdigit, h⟩ := Option.bind_eq_some_iff.mp h
      refine List.forall_mem_cons.mpr ⟨?_, ?_⟩
      · rw [digit?] at hdigit
        split at hdigit
        · exact And.right ‹_›
        · cases hdigit
      · split at h
        · exact ih h
        · cases h

/-- The bytes of a number are not above the digit nine. -/
theorem le_of_readNat? {n : Nat} {b : Bytes} (h : readNat? b = some n) : ∀ x ∈ b, x ≤ 57 := by
  cases b with
  | nil => exact nomatch h
  | cons x b => exact le_of_readDigits h

/-- What is read as an integer has no dotless i. -/
theorem dotted_of_readInt64? {b : Bytes} {i : Int64} (h : readInt64? b = some i) :
    b.dotted = b := by
  obtain ⟨n, hn, -⟩ := Option.bind_eq_some_iff.mp h
  have hle : ∀ x ∈ b, x ≤ 57 := by
    unfold readInt? signed? at hn
    split at hn
    all_goals
      obtain ⟨k, hk, -⟩ := Option.map_eq_some_iff.mp hn
      obtain ⟨k, hk, -⟩ := Option.bind_eq_some_iff.mp hk
    · exact List.forall_mem_cons.mpr ⟨by decide, le_of_readNat? hk⟩
    · exact List.forall_mem_cons.mpr ⟨by decide, le_of_readNat? hk⟩
    · exact le_of_readNat? hk
  exact Bytes.dotted_of_not_mem fun hmem => absurd (hle _ hmem) (by decide)

end Decimal

/-- An option of a comparison. -/
inductive LcsOption where
  /-- Only the length is asked for. -/
  | onlyLength
  /-- The matching ranges are asked for. -/
  | ranges
  /-- The length of each range is asked for. -/
  | withLengths
  /-- Only ranges of this length and longer ones are asked for. -/
  | minLength (bound : Int64)
  deriving Repr, DecidableEq

namespace LcsOption

/-- The keyword of an option. -/
def keyword : LcsOption → String
  | .onlyLength => "LEN"
  | .ranges => "IDX"
  | .withLengths => "WITHMATCHLEN"
  | .minLength _ => "MINMATCHLEN"

/-- The keywords of all options. -/
def keywords : List String := ["LEN", "IDX", "WITHMATCHLEN", "MINMATCHLEN"]

/-- The value that stands behind the keyword, if one does. -/
def bound? : LcsOption → Option Int64
  | .minLength bound => some bound
  | _ => none

/-- Whether arguments spell options, one behind the other. Keywords are the same when `fold` makes
them equal. -/
inductive Spelled (fold : Bytes → Bytes) : List LcsOption → List Bytes → Prop
  /-- No arguments. -/
  | nil : Spelled fold [] []
  /-- A keyword. -/
  | flag {option : LcsOption} {word : Bytes} {options : List LcsOption} {args : List Bytes}
    (hflag : option.bound? = none) (hword : fold word = fold (Bytes.ofString option.keyword))
    (hrest : Spelled fold options args) : Spelled fold (option :: options) (word :: args)
  /-- A keyword, and an integer behind it. -/
  | valued {bound : Int64} {word value : Bytes} {options : List LcsOption} {args : List Bytes}
    (hword : fold word = fold (Bytes.ofString (keyword (.minLength bound))))
    (hvalue : Decimal.readInt64? value = some bound) (hrest : Spelled fold options args) :
    Spelled fold (.minLength bound :: options) (word :: value :: args)

end LcsOption

namespace LcsQuery

open LcsOption

/-- What a comparison of two keys asks for with some options. The last least length counts, and a
negative one is none. -/
def asking (key₁ key₂ : Bytes) (options : List LcsOption) : LcsQuery where
  key₁ := key₁
  key₂ := key₂
  onlyLength := .onlyLength ∈ options
  ranges := .ranges ∈ options
  withLengths := .withLengths ∈ options
  minLength := ((options.filterMap bound?).getLast?.map Int64.toNatClampNeg).getD 0

/-- A query with one more option. -/
def adding (query : LcsQuery) : LcsOption → LcsQuery
  | .onlyLength => { query with onlyLength := true }
  | .ranges => { query with ranges := true }
  | .withLengths => { query with withLengths := true }
  | .minLength bound => { query with minLength := bound.toNatClampNeg }

/-- What is asked for with one more option is added to what is asked for with the others. -/
theorem asking_concat (key₁ key₂ : Bytes) (options : List LcsOption) (option : LcsOption) :
    asking key₁ key₂ (options ++ [option]) = (asking key₁ key₂ options).adding option := by
  cases option with
  | _ => simp [asking, adding, bound?, List.filterMap_append]

/-- Options are added one by one. -/
theorem foldl_adding (key₁ key₂ : Bytes) (options : List LcsOption) :
    options.foldl adding { key₁, key₂ } = asking key₁ key₂ options := by
  induction options using List.reverseRecOn with
  | nil => rfl
  | append_singleton options option ih =>
      rw [List.foldl_concat, ih, asking_concat]

end LcsQuery

namespace Command

open LcsOption

variable {query query' : LcsQuery} {option : LcsOption} {word : Bytes} {args : List Bytes}

/-- Every option has one of the keywords. -/
theorem keyword_mem (option : LcsOption) : option.keyword ∈ keywords := by
  cases option with
  | _ => simp [keyword, keywords]

/-- The keywords consist of plain letters. -/
theorem plain_keyword (option : LcsOption) : ∀ u ∈ option.keyword.toList, Upper.Plain u := by
  cases option with
  | _ => simp [keyword, Upper.Plain]

/-- Options with different keywords have keywords that are told apart. -/
theorem folded_keyword_inj {option option' : LcsOption} :
    (Bytes.ofString option.keyword).folded = (Bytes.ofString option'.keyword).folded ↔
      option.keyword = option'.keyword := by
  have hall : ∀ word ∈ keywords, ∀ word' ∈ keywords,
      (Bytes.ofString word).folded = (Bytes.ofString word').folded → word = word' := by
    decide +kernel
  exact ⟨hall _ (keyword_mem option) _ (keyword_mem option'), fun h => h ▸ rfl⟩

/-- No keyword has a dotless i. -/
theorem not_mem_keyword (option : LcsOption) :
    0xC4 ∉ Bytes.lower (Bytes.ofString option.keyword) := by
  have hall : ∀ word ∈ keywords, 0xC4 ∉ Bytes.lower (Bytes.ofString word) := by
    decide +kernel
  exact hall _ (keyword_mem option)

/-- A word that is the keyword of an option is text, and no other keyword. -/
theorem exists_text (hword : word.folded = (Bytes.ofString option.keyword).folded) :
    ∃ text, Bytes.toString? word = some text ∧ ∀ option' : LcsOption,
      Upper.spells text option'.keyword = decide (option.keyword = option'.keyword) := by
  obtain ⟨text, htext, -⟩ := (Upper.spells_iff (plain_keyword option)).mpr hword
  refine ⟨text, htext, fun option' => Bool.eq_iff_iff.mpr ?_⟩
  rw [decide_eq_true_iff, ← folded_keyword_inj, ← hword]
  refine Iff.trans ?_ (Upper.spells_iff (plain_keyword option'))
  simp only [htext, Option.some.injEq, exists_eq_left']

/-- An option without a value is added, and the rest is read. -/
theorem lcsOptions_flag (hflag : option.bound? = none)
    (hword : word.folded = (Bytes.ofString option.keyword).folded) :
    lcsOptions query (word :: args) = lcsOptions (query.adding option) args := by
  obtain ⟨text, htext, hspells⟩ := exists_text hword
  have hlength := hspells .onlyLength
  have hranges := hspells .ranges
  have hlengths := hspells .withLengths
  cases option with
  | minLength bound => exact nomatch hflag
  | _ =>
      simp only [keyword] at hlength hranges hlengths
      rw [lcsOptions.eq_def]
      simp [htext, hlength, hranges, hlengths, LcsQuery.adding]

/-- A least length stands behind its keyword. -/
theorem lcsOptions_valued {bound : Int64}
    (hword : word.folded = (Bytes.ofString (keyword (.minLength bound))).folded) :
    lcsOptions query (word :: args) =
      match args with
      | [] => .error .endOfArguments
      | value :: args =>
        match Decimal.readInt64? value with
        | none => .error .notAnInteger
        | some bound => lcsOptions (query.adding (.minLength bound)) args := by
  obtain ⟨text, htext, hspells⟩ := exists_text hword
  have hlength : Upper.spells text "LEN" = false := (hspells .onlyLength).trans (by simp [keyword])
  have hranges : Upper.spells text "IDX" = false := (hspells .ranges).trans (by simp [keyword])
  have hlengths : Upper.spells text "WITHMATCHLEN" = false :=
    (hspells .withLengths).trans (by simp [keyword])
  have hbound : Upper.spells text "MINMATCHLEN" = true :=
    (hspells (.minLength bound)).trans (by simp [keyword])
  rw [lcsOptions.eq_def]
  simp only [htext, hlength, hranges, hlengths, hbound, Bool.false_eq_true, if_false, if_true]
  rfl

/-- A word that is no keyword is not known. -/
theorem lcsOptions_unknown
    (hword : ∀ option : LcsOption,
      word.folded ≠ (Bytes.ofString option.keyword).folded) :
    lcsOptions query (word :: args) = .error .badSyntax := by
  have hspells : ∀ (option : LcsOption) text, Bytes.toString? word = some text →
      Upper.spells text option.keyword = false := by
    intro option text htext
    rw [Bool.eq_false_iff]
    exact fun h => hword option ((Upper.spells_iff (plain_keyword option)).mp ⟨text, htext, h⟩)
  rw [lcsOptions.eq_def]
  cases htext : Bytes.toString? word with
  | none => simp only [htext]
  | some text =>
      have hlength := hspells .onlyLength text htext
      have hranges := hspells .ranges text htext
      have hlengths := hspells .withLengths text htext
      have hbound := hspells (.minLength 0) text htext
      simp only [keyword] at hlength hranges hlengths hbound
      simp [htext, hlength, hranges, hlengths, hbound]

/-! ### What argument lists read as -/

/-- What stops the reading of options, and the error it is. -/
inductive Stuck : List Bytes → CommandError → Prop
  /-- A word that is no keyword. -/
  | unknown {word : Bytes} {args : List Bytes}
    (hword : ∀ option : LcsOption, word.folded ≠ (Bytes.ofString option.keyword).folded) :
    Stuck (word :: args) .badSyntax
  /-- A keyword without the value that belongs to it. -/
  | missing {word : Bytes} {bound : Int64}
    (hword : word.folded = (Bytes.ofString (keyword (.minLength bound))).folded) :
    Stuck [word] .endOfArguments
  /-- A value that is not an integer. -/
  | unreadable {word value : Bytes} {bound : Int64} {args : List Bytes}
    (hword : word.folded = (Bytes.ofString (keyword (.minLength bound))).folded)
    (hvalue : Decimal.readInt64? value = none) : Stuck (word :: value :: args) .notAnInteger

/-- Arguments at which the reading is stuck are refused for what it is stuck at. -/
theorem lcsOptions_stuck {e : CommandError} (h : Stuck args e) :
    lcsOptions query args = .error e := by
  cases h with
  | unknown hword => exact lcsOptions_unknown hword
  | missing hword => rw [lcsOptions_valued hword]
  | unreadable hword hvalue =>
      rw [lcsOptions_valued hword]
      simp only [hvalue]

/-- Options that are spelled are added, whatever stands behind them. -/
theorem lcsOptions_append {options : List LcsOption} {front : List Bytes}
    (h : Spelled Bytes.folded options front) (query : LcsQuery) (args : List Bytes) :
    lcsOptions query (front ++ args) = lcsOptions (options.foldl LcsQuery.adding query) args := by
  induction h generalizing query with
  | nil => rfl
  | flag hflag hword hrest ih =>
      rw [List.cons_append, lcsOptions_flag hflag hword, ih, List.foldl_cons]
  | valued hword hvalue hrest ih =>
      rw [List.cons_append, lcsOptions_valued hword, List.cons_append]
      simp only [hvalue]
      rw [ih, List.foldl_cons]

/-- Arguments spell options up to their end, or up to what stops the reading. -/
theorem exists_spelled (args : List Bytes) :
    ∃ options front rest, args = front ++ rest ∧ Spelled Bytes.folded options front ∧
      (rest = [] ∨ ∃ e, Stuck rest e) := by
  match args with
  | [] => exact ⟨[], [], [], rfl, .nil, .inl rfl⟩
  | word :: args =>
      by_cases hknown : ∃ option : LcsOption, word.folded = (Bytes.ofString option.keyword).folded
      · obtain ⟨option, hword⟩ := hknown
        cases hflag : option.bound? with
        | none =>
            obtain ⟨options, front, rest, rfl, hfront, hrest⟩ := exists_spelled args
            exact ⟨option :: options, word :: front, rest, rfl, .flag hflag hword hfront, hrest⟩
        | some bound =>
            have hword' : word.folded = (Bytes.ofString (keyword (.minLength bound))).folded := by
              cases option with
              | minLength bound => exact hword
              | _ => exact nomatch hflag
            match args with
            | [] => exact ⟨[], [], [word], rfl, .nil, .inr ⟨_, .missing hword'⟩⟩
            | value :: args =>
                cases hvalue : Decimal.readInt64? value with
                | none => exact ⟨[], [], _, rfl, .nil, .inr ⟨_, .unreadable hword' hvalue⟩⟩
                | some bound =>
                    obtain ⟨options, front, rest, rfl, hfront, hrest⟩ := exists_spelled args
                    exact ⟨.minLength bound :: options, word :: value :: front, rest, rfl,
                      .valued hword' hvalue hfront, hrest⟩
      · exact ⟨[], [], _, rfl, .nil, .inr ⟨_, .unknown (not_exists.mp hknown)⟩⟩

/-- Exactly what spells options is read. -/
theorem lcsOptions_eq_ok_iff : lcsOptions query args = .ok query' ↔
    ∃ options, Spelled Bytes.folded options args ∧
      options.foldl LcsQuery.adding query = query' := by
  constructor
  · intro h
    obtain ⟨options, front, rest, rfl, hfront, hrest⟩ := exists_spelled args
    rw [lcsOptions_append hfront] at h
    rcases hrest with rfl | ⟨e, hrest⟩
    · rw [List.append_nil]
      exact ⟨options, hfront, Except.ok.inj h⟩
    · rw [lcsOptions_stuck hrest] at h
      exact nomatch h
  · rintro ⟨options, hspelled, rfl⟩
    rw [← args.append_nil, lcsOptions_append hspelled]
    rfl

/-- Every error is that of what stops the reading first. -/
theorem lcsOptions_eq_error_iff {e : CommandError} : lcsOptions query args = .error e ↔
    ∃ options front rest, args = front ++ rest ∧ Spelled Bytes.folded options front ∧
      Stuck rest e := by
  constructor
  · intro h
    obtain ⟨options, front, rest, rfl, hfront, hrest⟩ := exists_spelled args
    rw [lcsOptions_append hfront] at h
    rcases hrest with rfl | ⟨e', hrest⟩
    · exact nomatch h
    · rw [lcsOptions_stuck hrest] at h
      obtain rfl := Except.error.inj h
      exact ⟨options, front, rest, rfl, hfront, hrest⟩
  · rintro ⟨options, front, rest, rfl, hfront, hrest⟩
    rw [lcsOptions_append hfront, lcsOptions_stuck hrest]

/-- A comparison is read off two keys and the options behind them. -/
theorem lcsQuery_eq_ok_iff {key₁ key₂ : Bytes} {rest : List Bytes} :
    lcsQuery (key₁ :: key₂ :: args) = .ok (query, rest) ↔
      lcsOptions { key₁, key₂ } args = .ok query ∧
        ¬ (query.onlyLength = true ∧ query.ranges = true) ∧ rest = [] := by
  simp only [lcsQuery, Reader.andThen, Reader.bytes]
  cases lcsOptions { key₁, key₂ } args with
  | error e =>
      constructor
      · intro h
        cases h
      · rintro ⟨h, -⟩
        cases h
  | ok found =>
      by_cases hboth : found.onlyLength = true ∧ found.ranges = true
      · simp only [if_pos hboth]
        constructor
        · intro h
          cases h
        · rintro ⟨h, hone, -⟩
          exact absurd (Except.ok.inj h ▸ hboth) hone
      · simp only [if_neg hboth, Except.ok.injEq, Prod.mk.injEq]
        constructor
        · rintro ⟨rfl, hrest⟩
          exact ⟨rfl, hboth, hrest.symm⟩
        · rintro ⟨rfl, -, hrest⟩
          exact ⟨rfl, hrest.symm⟩

/-- Only options run out of arguments. -/
theorem lcsQuery_short_iff {key₁ key₂ : Bytes} :
    lcsQuery (key₁ :: key₂ :: args) = .error .endOfArguments ↔
      lcsOptions { key₁, key₂ } args = .error .endOfArguments := by
  simp only [lcsQuery, Reader.andThen, Reader.bytes]
  cases lcsOptions { key₁, key₂ } args with
  | error e => simp only [Except.error.injEq]
  | ok found =>
      by_cases hboth : found.onlyLength = true ∧ found.ranges = true
      · simp [hboth]
      · simp [hboth]

/-- The commands that arguments behind two keys can be read as. -/
theorem lcsQuery_giving_eq_ok_iff {key₁ key₂ : Bytes} {rest : List Bytes} {command : Command} :
    (lcsQuery.giving Command.lcs) (key₁ :: key₂ :: args) = .ok (command, rest) ↔
      ∃ options, Spelled Bytes.folded options args ∧
        ¬ (.onlyLength ∈ options ∧ .ranges ∈ options) ∧
        command = .lcs (.asking key₁ key₂ options) ∧ rest = [] := by
  simp only [Reader.giving_eq_ok, lcsQuery_eq_ok_iff, lcsOptions_eq_ok_iff, LcsQuery.foldl_adding]
  constructor
  · rintro ⟨query, ⟨⟨options, hspelled, rfl⟩, hone, hrest⟩, rfl⟩
    simp only [LcsQuery.asking, decide_eq_true_eq] at hone
    exact ⟨options, hspelled, hone, rfl, hrest⟩
  · rintro ⟨options, hspelled, hone, rfl, hrest⟩
    refine ⟨_, ⟨⟨options, hspelled, rfl⟩, ?_, hrest⟩, rfl⟩
    simpa only [LcsQuery.asking, decide_eq_true_eq] using hone

/-! ### The case of ASCII letters -/

/-- Without a dotless i, keywords are the same in lower case if they are the same. -/
theorem lower_eq_keyword_iff : Bytes.lower word = Bytes.lower (Bytes.ofString option.keyword) ↔
    word.folded = (Bytes.ofString option.keyword).folded ∧ word.dotted = word := by
  have hkeyword := not_mem_keyword option
  have hmem : ∀ {b : Bytes}, 0xC4 ∈ b → 0xC4 ∈ Bytes.lower b := List.mem_map_of_mem
  rw [Bytes.folded, Bytes.folded, Bytes.dotted_of_not_mem (mt hmem hkeyword)]
  constructor
  · intro h
    have hdotted : word.dotted = word :=
      Bytes.dotted_of_not_mem (mt hmem (h ▸ hkeyword))
    exact ⟨hdotted.symm ▸ h, hdotted⟩
  · rintro ⟨h, hdotted⟩
    rwa [hdotted] at h

/-- Options are spelled with ASCII letters if and only if no dotless i is among them. -/
theorem spelled_lower_iff {options : List LcsOption} : Spelled Bytes.lower options args ↔
    Spelled Bytes.folded options args ∧ ∀ arg ∈ args, arg.dotted = arg := by
  constructor
  · intro h
    induction h with
    | nil => exact ⟨.nil, fun arg harg => nomatch harg⟩
    | flag hflag hword hrest ih =>
        obtain ⟨hword, hdotted⟩ := lower_eq_keyword_iff.mp hword
        exact ⟨.flag hflag hword ih.1, List.forall_mem_cons.mpr ⟨hdotted, ih.2⟩⟩
    | valued hword hvalue hrest ih =>
        obtain ⟨hword, hdotted⟩ := lower_eq_keyword_iff.mp hword
        exact ⟨.valued hword hvalue ih.1, List.forall_mem_cons.mpr ⟨hdotted,
          List.forall_mem_cons.mpr ⟨Decimal.dotted_of_readInt64? hvalue, ih.2⟩⟩⟩
  · rintro ⟨h, hdotted⟩
    induction h with
    | nil => exact .nil
    | flag hflag hword hrest ih =>
        rw [List.forall_mem_cons] at hdotted
        exact .flag hflag (lower_eq_keyword_iff.mpr ⟨hword, hdotted.1⟩) (ih hdotted.2)
    | valued hword hvalue hrest ih =>
        rw [List.forall_mem_cons, List.forall_mem_cons] at hdotted
        exact .valued (lower_eq_keyword_iff.mpr ⟨hword, hdotted.1⟩) hvalue (ih hdotted.2.2)

/-- Comparisons have their entry in the command table. -/
theorem lcs_mem_table : ⟨"lcs", .atLeast 2, lcsQuery.giving .lcs⟩ ∈ table := by
  simp [table]

/-- **The options of a comparison.** Arguments behind two keys ask for a comparison if and only if
they spell options that do not ask for both the length and the ranges, and it is the comparison with
these options. In keywords, the case of ASCII letters does not count, and neither does the dot of an
i. Arguments spell the same options when only the case of ASCII letters does not count if and only
if none of them has a dotless i. -/
theorem lcs_options_exact {request : Request} {key₁ key₂ : Bytes}
    (hname : Bytes.lower request.name = Bytes.ofString "lcs")
    (hargs : request.args = key₁ :: key₂ :: args) :
    (∀ command, ofRequest request = .ok command ↔
      ∃ options, Spelled Bytes.folded options args ∧
        ¬ (.onlyLength ∈ options ∧ .ranges ∈ options) ∧
        command = .lcs (.asking key₁ key₂ options)) ∧
      ∀ options, Spelled Bytes.lower options args ↔
        Spelled Bytes.folded options args ∧ ∀ arg ∈ args, arg.dotted = arg := by
  refine ⟨fun command => ?_, fun options => spelled_lower_iff⟩
  have hlookup : lookup request.name = some ⟨"lcs", .atLeast 2, lcsQuery.giving .lcs⟩ :=
    lookup_eq_some_iff.mpr ⟨lcs_mem_table, hname⟩
  have harity : (Arity.atLeast 2).accepts request.args.length = true := by
    rw [hargs]
    exact decide_eq_true (Nat.le_add_left 2 args.length)
  rw [ofRequest_eq_ok_iff hlookup harity, hargs]
  constructor
  · rintro ⟨rest, hread⟩
    obtain ⟨options, hspelled, hone, hcommand, -⟩ := lcsQuery_giving_eq_ok_iff.mp hread
    exact ⟨options, hspelled, hone, hcommand⟩
  · rintro ⟨options, hspelled, hone, hcommand⟩
    exact ⟨[], lcsQuery_giving_eq_ok_iff.mpr ⟨options, hspelled, hone, hcommand, rfl⟩⟩

/-- A keyword with a dotless i asks for the ranges, though in lower case it spells nothing. -/
theorem lcs_options_exact_dotless :
    let request : Request := ⟨Bytes.ofString "LCS", [[97], [98], Bytes.ofString "\u0131dx"]⟩
    Bytes.lower request.name = Bytes.ofString "lcs" ∧
      ofRequest request = .ok (.lcs { key₁ := [97], key₂ := [98], ranges := true }) ∧
      ∀ options, ¬ Spelled Bytes.lower options [Bytes.ofString "\u0131dx"] := by
  intro request
  have hname : Bytes.lower request.name = Bytes.ofString "lcs" := by decide +kernel
  obtain ⟨hread, hlower⟩ := lcs_options_exact hname rfl
  refine ⟨hname, ?_, fun options hspelled => ?_⟩
  · exact (hread _).mpr ⟨[.ranges], .flag rfl (by decide +kernel) .nil, by decide, rfl⟩
  · exact absurd (((hlower options).mp hspelled).2 _ List.mem_cons_self) (by decide +kernel)

end Command
end RespStore
