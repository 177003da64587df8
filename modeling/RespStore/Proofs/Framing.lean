import RespStore.Proofs.Command
import RespStore.Proofs.Decimal.Length
import RespStore.Proofs.Fits
import RespStore.Proofs.Handler
import RespStore.Proofs.Lcs.Size
import RespStore.Proofs.Wire.Replies

/-!
# Replies are framed

A client that reads the answer to a request must know where it ends. This module counts the
frames of each answer. `Handler.frameCount` says how many a client expects: one for each
channel that the request is about, and one for every other request.

`Handler.framed_iff` says when the expectation is met. There is one exception to it,
`Handler.Injects`: a setting that is asked for is echoed as a line of text, and its name may
hold a line break. The line ends there, and what stands behind the break is read as the value
of the setting. Every other text that is echoed is a payload, or an error whose breaks were
taken out.
-/

namespace RespStore

namespace Reply

/-- Whether a reply is well-framed and is read as so many frames. -/
structure Framed (reply : Reply) (n : Nat) : Prop where
  /-- Its pieces fit together. -/
  wellFramed : reply.WellFramed
  /-- The number of its frames. -/
  length_frames : reply.frames.length = n

theorem framed_ok : Framed .ok 1 := ⟨trivial, rfl⟩

theorem framed_null : Framed .null 1 := ⟨trivial, rfl⟩

theorem framed_nullArray : Framed .nullArray 1 := ⟨trivial, rfl⟩

/-- An error is one frame, whatever its text is: breaks are taken out of it. -/
theorem framed_error (text : String) : Framed (.error text) 1 := ⟨trivial, rfl⟩

theorem framed_count (n : Nat) : Framed (.count n) 1 := ⟨trivial, rfl⟩

/-- A byte string whose length can be announced is one frame. -/
theorem framed_bulk {payload : Bytes} (h : payload.Fits) : Framed (.bulk payload) 1 := ⟨h, rfl⟩

/-- A floating-point number is one frame: its text is short enough to be announced. -/
theorem framed_double (value : Float) : Framed (.double value) 1 :=
  ⟨Decimal.Real.length_ofString_text_lt value, rfl⟩

/-- A byte string that may be missing is one frame. -/
theorem framed_optional {payload : Option Bytes} (h : ∀ b ∈ payload, b.Fits) :
    Framed (.optional payload) 1 := by
  cases payload with
  | none => exact framed_null
  | some b => exact framed_bulk (h b rfl)

/-- Replies of one frame each make up as many frames as they are. -/
theorem framed_each {replies : List Reply} (h : ∀ reply ∈ replies, reply.Framed 1) :
    EachWellFramed replies ∧ (framesOfEach replies).length = replies.length := by
  induction replies with
  | nil => exact ⟨trivial, rfl⟩
  | cons reply replies ih =>
      obtain ⟨hwell, hlength⟩ := ih fun r hr => h r (List.mem_cons_of_mem reply hr)
      have hreply := h reply List.mem_cons_self
      refine ⟨⟨hreply.wellFramed, hwell⟩, ?_⟩
      rw [framesOfEach, List.length_append, hreply.length_frames, hlength, List.length_cons,
        Nat.add_comm]

/-- Replies of one frame each, sent together, are as many frames as they are. -/
theorem framed_many {replies : List Reply} (h : ∀ reply ∈ replies, reply.Framed 1) :
    Framed (.many replies) replies.length :=
  ⟨(framed_each h).1, (framed_each h).2⟩

/-- An array of replies of one frame each is one frame itself. -/
theorem framed_array {items : List Reply} (hlength : items.length < 2 ^ 63)
    (h : ∀ item ∈ items, item.Framed 1) : Framed (.array items) 1 :=
  ⟨⟨hlength, (framed_each h).2, (framed_each h).1⟩, rfl⟩

/-- A list of byte strings is one frame. -/
theorem framed_bulks {payloads : List Bytes} (h : EachFits payloads) :
    Framed (.bulks payloads) 1 := by
  refine framed_array (by simpa using h.length_lt) fun item hitem => ?_
  obtain ⟨payload, hpayload, rfl⟩ := List.mem_map.mp hitem
  exact framed_bulk (h.fits payload hpayload)

/-- A framed reply is read as so many frames, with nothing left. -/
theorem Framed.exists_reads {reply : Reply} {n : Nat} (h : reply.Framed n) :
    ∃ frames, frames.length = n ∧ Frame.Reads reply.encode frames [] := by
  have hreads := reads_encode h.wellFramed []
  rw [List.append_nil] at hreads
  exact ⟨reply.frames, h.length_frames, hreads⟩

end Reply

/-! ### Commands -/

namespace Action

open RespStore.Task

/-- A key that is read holds a value that can be announced. -/
theorem yields_get (key : Bytes) :
    Yields Store.Serves (fun value => ∀ v ∈ value, v.Fits) (Action.get key) := by
  refine yields_call (always_ask.mpr fun answer hanswer value heq => ?_)
  obtain ⟨value', rfl, hfits⟩ := hanswer.get
  exact Except.ok.inj heq ▸ hfits

end Action

namespace ListMap

open RespStore.Task

/-- What an operation reads off the output of its transform. -/
theorem yields_applied {α : Type} {key : Bytes} {transform : Transform} {read? : Output → Option α}
    {post : α → Prop} (h : ∀ value : Option Value, (∀ v ∈ value, v.Fits) → ∀ decision,
      transform value = .ok decision → ∀ found, read? decision.output = some found → post found) :
    Yields Store.Serves post (applied key transform read?) := by
  have hask : (Task.ask (.apply key transform)).Always Store.Serves fun answer =>
      ∀ output, answer = .ok output → ∀ found, read? output = some found → post found := by
    refine always_ask.mpr fun answer hanswer output heq found hfound => ?_
    obtain ⟨value, hvalue, rfl⟩ := hanswer.apply
    cases hdecision : transform value with
    | error e =>
        rw [hdecision] at heq
        exact nomatch heq
    | ok decision =>
        rw [hdecision] at heq
        obtain rfl := Except.ok.inj heq
        exact h value hvalue decision hdecision found hfound
  refine yields_bind (yields_lift hask) fun answer hanswer => ?_
  cases answer with
  | error e => exact yields_throw _
  | ok output =>
      simp only
      cases hread : read? output with
      | none => exact yields_throw _
      | some found => exact yields_pure (hanswer output rfl found hread)

/-- An element that is found in a list can be announced. -/
theorem yields_index (key : Bytes) (offset : Int64) :
    Yields Store.Serves (fun found => ∀ b ∈ found, b.Fits) (index key offset) := by
  refine yields_applied fun value hvalue decision hdecision found hfound => ?_
  rw [Transform.index] at hdecision
  cases hlist : Transform.listOf value with
  | error e =>
      rw [hlist] at hdecision
      exact nomatch hdecision
  | ok items =>
      rw [hlist] at hdecision
      obtain rfl := Except.ok.inj hdecision
      obtain rfl := Option.some.inj hfound
      intro b hb
      obtain ⟨items', rfl, hindex⟩ := Option.bind_eq_some_iff.mp hb
      exact (Transform.eachFits_of_listOf hvalue hlist).fits b (ListValue.mem_of_index hindex)

/-- A part of a list can be announced. -/
theorem yields_sublist (key : Bytes) (first last : Int64) :
    Yields Store.Serves (fun found => ∀ items ∈ found, EachFits items)
      (sublist key first last) := by
  refine yields_applied fun value hvalue decision hdecision found hfound => ?_
  rw [Transform.sublist] at hdecision
  cases hlist : Transform.listOf value with
  | error e =>
      rw [hlist] at hdecision
      exact nomatch hdecision
  | ok items =>
      rw [hlist] at hdecision
      obtain rfl := Except.ok.inj hdecision
      obtain rfl := Option.some.inj hfound
      intro taken htaken
      obtain ⟨items', rfl, rfl⟩ := Option.map_eq_some_iff.mp htaken
      exact (Transform.eachFits_of_listOf hvalue hlist).of_sublist
        (ListValue.sublist_sublist items' first last)

/-- What is taken off a list can be announced. -/
theorem yields_poll (key : Bytes) (side : ListEnd) (count : Int64) :
    Yields Store.Serves (fun found => ∀ items ∈ found, EachFits items)
      (poll key side count) := by
  rw [poll]
  split
  · exact yields_throw _
  · refine yields_applied fun value hvalue decision hdecision found hfound => ?_
    rw [Transform.poll] at hdecision
    cases hlist : Transform.listOf value with
    | error e =>
        rw [hlist] at hdecision
        exact nomatch hdecision
    | ok items =>
        rw [hlist] at hdecision
        cases items with
        | none =>
            obtain rfl := Except.ok.inj hdecision
            obtain rfl := Option.some.inj hfound
            exact fun items hitems => nomatch hitems
        | some items =>
            have hitems := Transform.eachFits_of_listOf hvalue hlist
            change (if count.toNatClampNeg = 0 then _ else _) = _ at hdecision
            split at hdecision
            · obtain rfl := Except.ok.inj hdecision
              obtain rfl := Option.some.inj hfound
              rintro taken ⟨⟩
              exact EachFits.nil
            · obtain rfl := Except.ok.inj hdecision
              obtain rfl := Option.some.inj hfound
              rintro taken ⟨⟩
              exact hitems.of_sublist (ListValue.poll_sublist items side _)

end ListMap

namespace Execution

open RespStore.Task

/-- Whether an action replies with one frame. -/
abbrev RepliesFramed (action : Action Reply) : Prop :=
  Yields Store.Serves (fun reply => reply.Framed 1) action

/-- `DEL` replies with a number. -/
theorem framed_del (keys : List Bytes) : RepliesFramed (del keys) :=
  yields_bind (yields_true _) fun n _ => yields_pure (Reply.framed_count n)

/-- `GET` replies with a byte string, or with none. -/
theorem framed_get (key : Bytes) : RepliesFramed (get key) := by
  refine yields_bind (Action.yields_get key) fun value hvalue => ?_
  cases value with
  | none => exact yields_pure Reply.framed_null
  | some v =>
      cases v with
      | bytes content => exact yields_pure (Reply.framed_bulk (hvalue _ rfl))
      | list items => exact yields_throw _

/-- `INCRBYFLOAT` replies with the new number. -/
theorem framed_incrByFloat (key : Bytes) (increment : Float) :
    RepliesFramed (incrByFloat key increment) := by
  refine yields_bind (yields_true _) fun output _ => ?_
  cases output with
  | float sum => exact yields_pure (Reply.framed_double sum)
  | _ => exact yields_throw _

/-- `LCS` replies with the length, with the subsequence, which can be announced because the table
was filled, or with the ranges. -/
theorem framed_lcs (query : LcsQuery) : RepliesFramed (lcs query) := by
  refine yields_bind (yields_true _) fun a _ => yields_bind (yields_true _) fun b _ =>
    yields_bind (yields_true _) fun _ _ => ?_
  cases hsolve : Lcs.solve a b Lcs.defaultLimit with
  | error e => exact yields_throw _
  | ok alignment =>
      obtain ⟨hsequence, hruns⟩ := Lcs.length_solve_lt hsolve
      simp only
      split
      · exact yields_pure (Reply.framed_count _)
      · split
        · have hreport : (report query alignment.runs).length < 2 ^ 63 := by
            rw [report, List.length_map]
            exact Nat.lt_of_le_of_lt (List.length_filter_le _ _) hruns
          exact yields_pure ⟨hreport, rfl⟩
        · exact yields_pure (Reply.framed_bulk hsequence)

/-- `SET` replies with `OK`. -/
theorem framed_set (key value : Bytes) : RepliesFramed (set key value) :=
  yields_bind (yields_true _) fun _ _ => yields_pure Reply.framed_ok

/-- `LINDEX` replies with an element, or with none. -/
theorem framed_lindex (key : Bytes) (index : Int64) : RepliesFramed (lindex key index) :=
  yields_bind (Action.yields_ofList (ListMap.yields_index key index)) fun _ hfound =>
    yields_pure (Reply.framed_optional hfound)

/-- `LLEN` replies with a number. -/
theorem framed_llen (key : Bytes) : RepliesFramed (llen key) :=
  yields_bind (yields_true _) fun n _ => yields_pure (Reply.framed_count n)

/-- Elements that fit fit in either order. -/
theorem eachFits_inOrderOf (side : ListEnd) {items : List Bytes} (h : EachFits items) :
    EachFits (inOrderOf side items) := by
  cases side with
  | head => exact h
  | tail => exact h.reverse

/-- A pop replies with an element, with several, or with none. -/
theorem framed_pop (side : ListEnd) (key : Bytes) (count : Option Int64) :
    RepliesFramed (pop side key count) := by
  refine yields_bind (Action.yields_ofList (ListMap.yields_poll key side _)) fun taken htaken => ?_
  have hordered : ∀ items ∈ taken.map (inOrderOf side), EachFits items := by
    intro items hitems
    obtain ⟨items', hitems', rfl⟩ := Option.map_eq_some_iff.mp hitems
    exact eachFits_inOrderOf side (htaken items' hitems')
  generalize taken.map (inOrderOf side) = ordered at hordered
  cases count with
  | none =>
      refine yields_pure (Reply.framed_optional fun b hb => ?_)
      obtain ⟨items, rfl, hhead⟩ := Option.bind_eq_some_iff.mp hb
      exact (hordered items rfl).fits b (List.mem_of_head? hhead)
  | some n =>
      cases ordered with
      | none => exact yields_pure Reply.framed_nullArray
      | some items => exact yields_pure (Reply.framed_bulks (hordered items rfl))

/-- A push replies with the new length. -/
theorem framed_push (side : ListEnd) (key : Bytes) (values : List Bytes) :
    RepliesFramed (push side key values) :=
  yields_bind (yields_true _) fun n _ => yields_pure (Reply.framed_count n)

/-- `LRANGE` replies with a list. -/
theorem framed_lrange (key : Bytes) (start stop : Int64) :
    RepliesFramed (lrange key start stop) := by
  refine yields_bind (Action.yields_ofList (ListMap.yields_sublist key start stop))
    fun found hfound => yields_pure (Reply.framed_bulks ?_)
  cases found with
  | none => exact EachFits.nil
  | some items => exact hfound items rfl

/-- `PUBLISH` replies with a number. -/
theorem framed_publish (channel message : Bytes) : RepliesFramed (publish channel message) :=
  yields_bind (yields_true _) fun _ _ => yields_pure (Reply.framed_count 0)

/-- `PING` replies with its payload, or with a text of its own. -/
theorem framed_pong {payload : Option Bytes} (h : ∀ b ∈ payload, b.Fits) :
    (pong payload).Framed 1 := by
  cases payload with
  | none => exact Reply.framed_bulk (by decide : (Bytes.ofString "PONG").length < 2 ^ 63)
  | some b => exact Reply.framed_bulk (h b rfl)

end Execution

/-! ### Subscriptions -/

namespace Registry

/-- Whether a completion replies with so many frames. -/
abbrev CompletesFramed (n : Nat) (completion : Completion) : Prop := completion.reply.Framed n

/-- The acknowledgements gathered so far, with an error behind them or not. -/
theorem framed_complete (registry : Registry) {acks : List Reply}
    (h : ∀ ack ∈ acks, ack.Framed 1) : CompletesFramed acks.length (registry.complete acks) := by
  have := Reply.framed_many (fun ack hack => h ack (List.mem_reverse.mp hack))
  rwa [List.length_reverse] at this

/-- Every channel is acknowledged once. The store answers no listener with an error. -/
theorem framed_subscribe (registry : Registry) {acks : List Reply} {channels : List Bytes}
    (hacks : ∀ ack ∈ acks, ack.Framed 1) (hchannels : ∀ channel ∈ channels, channel.Fits) :
    (registry.subscribe acks channels).Always Store.Serves
      (CompletesFramed (acks.length + channels.length)) := by
  induction channels generalizing registry acks with
  | nil => exact framed_complete registry hacks
  | cons channel channels ih =>
      have hchannel : ∀ n, (Reply.subscribed channel n).Framed 1 := fun n =>
        ⟨hchannels channel List.mem_cons_self, rfl⟩
      have hrest : ∀ channel ∈ channels, channel.Fits := fun c hc =>
        hchannels c (List.mem_cons_of_mem channel hc)
      have hmore : ∀ n, ∀ ack ∈ Reply.subscribed channel n :: acks, ack.Framed 1 := fun n =>
        List.forall_mem_cons.mpr ⟨hchannel n, hacks⟩
      rw [List.length_cons, Nat.add_comm channels.length, ← Nat.add_assoc]
      rw [subscribe]
      split
      · exact ih registry (hmore _) hrest
      · intro answer hanswer
        obtain ⟨id, rfl⟩ := hanswer.listen
        exact ih _ (hmore _) hrest

/-- Every channel is acknowledged once, also one that was not subscribed. -/
theorem framed_leave (registry : Registry) {acks : List Reply} {channels : List Bytes}
    (hacks : ∀ ack ∈ acks, ack.Framed 1) (hchannels : ∀ channel ∈ channels, channel.Fits) :
    (registry.leave acks channels).Always Store.Serves
      (CompletesFramed (acks.length + channels.length)) := by
  induction channels generalizing registry acks with
  | nil => exact framed_complete registry hacks
  | cons channel channels ih =>
      have hchannel : ∀ n, (Reply.unsubscribed (some channel) n).Framed 1 := fun n =>
        ⟨fun name hname => Option.some.inj hname ▸ hchannels channel List.mem_cons_self, rfl⟩
      have hrest : ∀ channel ∈ channels, channel.Fits := fun c hc =>
        hchannels c (List.mem_cons_of_mem channel hc)
      have hmore : ∀ n, ∀ ack ∈ Reply.unsubscribed (some channel) n :: acks, ack.Framed 1 :=
        fun n => List.forall_mem_cons.mpr ⟨hchannel n, hacks⟩
      rw [List.length_cons, Nat.add_comm channels.length, ← Nat.add_assoc]
      rw [leave]
      split
      · exact ih registry (hmore _) hrest
      · intro answer hanswer
        obtain rfl := hanswer.unlisten
        exact ih _ (hmore _) hrest

/-- How many acknowledgements leaving channels takes. -/
def leaveCount (registry : Registry) : List Bytes → Nat
  | [] => max 1 registry.size
  | channels => channels.length

/-- Every channel that is left is acknowledged once, and so is having none to leave. -/
theorem framed_unsubscribe {registry : Registry} {channels : List Bytes}
    (hregistry : registry.Fits) (hchannels : ∀ channel ∈ channels, channel.Fits) :
    (registry.unsubscribe channels).Always Store.Serves
      (CompletesFramed (registry.leaveCount channels)) := by
  have hleave : ∀ {channels : List Bytes}, (∀ channel ∈ channels, channel.Fits) →
      (registry.leave [] channels).Always Store.Serves (CompletesFramed channels.length) := by
    intro channels hchannels
    have := registry.framed_leave (List.forall_mem_nil _) hchannels
    rwa [List.length_nil, Nat.zero_add] at this
  have hkeys : registry.channels.length = registry.size := Std.ExtTreeMap.length_keys
  rw [unsubscribe]
  cases channels with
  | nil =>
      rw [List.isEmpty_nil, if_pos rfl]
      cases hnames : registry.channels with
      | nil =>
          rw [hnames, List.length_nil] at hkeys
          have hone : registry.leaveCount [] = 1 := by rw [leaveCount, ← hkeys]; rfl
          rw [hone]
          exact framed_complete registry
            (List.forall_mem_singleton.mpr ⟨fun _ hname => (nomatch hname), rfl⟩)
      | cons name names =>
          have hall : registry.leaveCount [] = (name :: names).length := by
            rw [leaveCount, ← hkeys, hnames, List.length_cons]
            omega
          rw [hall]
          refine hleave fun channel hchannel => hregistry channel ?_
          rw [← hnames] at hchannel
          exact Std.ExtTreeMap.mem_keys.mp hchannel
  | cons channel channels => exact hleave hchannels

end Registry

/-! ### Settings -/

namespace Execution

open RespStore.Task

/-- A text up to its first line break, and what stands behind the break. -/
def breakOff : List Char → Option (List Char × List Char)
  | [] => none
  | '\r' :: '\n' :: rest => some ([], rest)
  | c :: rest => (breakOff rest).map fun (line, tail) => (c :: line, tail)

/-- A text that is not broken off has no line break. -/
theorem breakOff_eq_none {cs : List Char} (h : breakOff cs = none) : ¬ ['\r', '\n'] <:+: cs := by
  fun_induction breakOff cs with
  | case1 => decide
  | case2 => exact nomatch h
  | case3 c rest hnext ih =>
      intro hbreak
      rcases List.infix_cons_iff.mp hbreak with ⟨after, heq⟩ | hbreak
      · obtain ⟨rfl, rfl⟩ := List.cons.inj heq
        exact hnext _ rfl rfl
      · exact ih (Option.map_eq_none_iff.mp h) hbreak

/-- A text is broken off at its first line break. -/
theorem breakOff_eq_some {cs line tail : List Char} (h : breakOff cs = some (line, tail)) :
    cs = line ++ '\r' :: '\n' :: tail ∧ ¬ ['\r', '\n'] <:+: line := by
  fun_induction breakOff cs generalizing line with
  | case1 => exact nomatch h
  | case2 rest =>
      obtain ⟨rfl, rfl⟩ := Prod.mk.inj (Option.some.inj h)
      exact ⟨rfl, by decide⟩
  | case3 c rest hnext ih =>
      obtain ⟨⟨line', tail'⟩, hrest, heq⟩ := Option.map_eq_some_iff.mp h
      obtain ⟨rfl, rfl⟩ := Prod.mk.inj heq
      obtain ⟨rfl, hline⟩ := ih hrest
      refine ⟨rfl, fun hbreak => ?_⟩
      rcases List.infix_cons_iff.mp hbreak with ⟨after, heq⟩ | hbreak
      · obtain ⟨rfl, rfl⟩ := List.cons.inj heq
        exact hnext _ rfl rfl
      · exact hline hbreak

/-- What a client reads behind a line break in the name of a setting: the rest of the name, and
the value, which is empty. -/
def spilled (tail : List Char) : Bytes :=
  Bytes.ofString (String.ofList tail) ++ [13, 10, 43, 13, 10]

/-- The reply that tells a setting. -/
def setting (parameter value : String) : Reply := .array [.simple parameter, .simple value]

/-- A setting is one frame if neither its name nor its value has a line break. -/
theorem framed_setting {parameter value : String}
    (hparameter : ¬ ['\r', '\n'] <:+: parameter.toList)
    (hvalue : ¬ ['\r', '\n'] <:+: value.toList) : (setting parameter value).Framed 1 := by
  have hline : ∀ {text : String}, ¬ ['\r', '\n'] <:+: text.toList → (Reply.simple text).Framed 1 :=
    fun h => ⟨fun hbreak => h (Bytes.hasBreak_ofString_iff.mp hbreak), rfl⟩
  have htwo : [Reply.simple parameter, Reply.simple value].length < 2 ^ 63 := by
    rw [List.length_cons, List.length_singleton]
    decide
  refine Reply.framed_array htwo fun item hitem => ?_
  rcases List.mem_cons.mp hitem with rfl | hitem
  · exact hline hparameter
  · exact List.mem_singleton.mp hitem ▸ hline hvalue

/-- A setting whose name has a line break is read as an array whose second element comes from
behind the break. -/
theorem parse?_setting {parameter : String} {line tail : List Char}
    (h : breakOff parameter.toList = some (line, tail)) :
    Frame.parse? (setting parameter "").encode =
      (Frame.parse? (spilled tail)).map fun (frame, rest) =>
        (.array [.simple (String.ofList line), frame], rest) := by
  obtain ⟨hparameter, hline⟩ := breakOff_eq_some h
  have hbytes : (setting parameter "").encode =
      42 :: (Decimal.digits 2 ++ 13 :: 10 ::
        (43 :: (Bytes.ofString (String.ofList line) ++ 13 :: 10 :: spilled tail))) := by
    have hname : Bytes.ofString parameter =
        Bytes.ofString (String.ofList line) ++ 13 :: 10 :: Bytes.ofString (String.ofList tail) := by
      rw [← String.ofList_toList (s := parameter), hparameter]
      simp only [Bytes.ofString_ofList, List.flatMap_append, List.flatMap_cons]
      rfl
    have hempty : Bytes.ofString "" = [] := by decide
    have hpieces : (setting parameter "").encode =
        (Piece.arrayOf 2).bytes ++ ((Piece.line 43 (Bytes.ofString parameter)).bytes ++
          ((Piece.line 43 (Bytes.ofString "")).bytes ++ [])) := rfl
    rw [hpieces, hname, hempty]
    simp only [Piece.arrayOf, Piece.line, Bytes.crlf, spilled, List.cons_append, List.append_assoc,
      List.nil_append]
  have hbreak : ¬ (Bytes.ofString (String.ofList line)).HasBreak := by
    rwa [Bytes.hasBreak_ofString_iff, String.toList_ofList]
  rw [hbytes, Frame.parse?_array, Frame.lengthLine?_digits (by decide)]
  simp only [Except.bind, Frame.parseMany?_succ, Frame.parseMany?_zero, Frame.parse?_simple,
    Frame.textLine?_ofString hbreak, Except.map]
  cases Frame.parse? (spilled tail) with
  | error e => rfl
  | ok found => rfl

/-- A setting whose name has a line break is read as one frame if what stands behind the break
is one. -/
theorem exists_reads_setting_iff {parameter : String} {line tail : List Char}
    (h : breakOff parameter.toList = some (line, tail)) :
    (∃ frames, frames.length = 1 ∧ Frame.Reads (setting parameter "").encode frames []) ↔
      ∃ frame, Frame.parse? (spilled tail) = .ok (frame, []) := by
  have hparse := parse?_setting h
  constructor
  · rintro ⟨frames, hlength, hreads⟩
    obtain ⟨frame, rfl⟩ := List.length_eq_one_iff.mp hlength
    obtain ⟨mid, hframe, rfl⟩ := hreads
    rw [hparse] at hframe
    cases hspilled : Frame.parse? (spilled tail) with
    | error e =>
        rw [hspilled] at hframe
        exact nomatch hframe
    | ok found =>
        rw [hspilled] at hframe
        obtain ⟨-, hrest⟩ := Prod.mk.inj (Except.ok.inj hframe)
        exact ⟨found.1, by rw [← hrest]⟩
  · rintro ⟨frame, hframe⟩
    rw [hframe] at hparse
    exact ⟨[_], rfl, [], hparse, rfl⟩

/-- Whether a name is a pattern, which settings are not looked up by. -/
def isPattern (parameter : String) : Bool := parameter.toList.any fun c => c = '*' ∨ c = '?'

/-- A setting with a line break in its name reads as empty. -/
theorem config_of_break {subcommand parameter : String} {line tail : List Char}
    (hget : Upper.spells subcommand "GET" = true) (hplain : isPattern parameter = false)
    (h : breakOff parameter.toList = some (line, tail)) :
    config subcommand parameter = return setting parameter "" := by
  obtain ⟨hparameter, -⟩ := breakOff_eq_some h
  have hother : Bytes.lower (Bytes.ofString parameter) ≠ Bytes.ofString "appendonly" := by
    intro heq
    have hmem : (13 : UInt8) ∈ Bytes.lower (Bytes.ofString parameter) := by
      rw [← String.ofList_toList (s := parameter), hparameter, Bytes.ofString_ofList]
      refine List.mem_map.mpr ⟨13, List.mem_flatMap.mpr ⟨'\r', ?_, by decide⟩, by decide⟩
      exact List.mem_append_right line List.mem_cons_self
    rw [heq] at hmem
    exact absurd hmem (by decide)
  rw [isPattern] at hplain
  simp only [config, hget, hplain, hother, if_true, if_false, Bool.false_eq_true, setting]

/-- Every other answer about settings is one frame. -/
theorem framed_config {subcommand parameter : String}
    (h : Upper.spells subcommand "GET" = true → isPattern parameter = false →
      breakOff parameter.toList = none) : RepliesFramed (config subcommand parameter) := by
  rw [isPattern] at h
  rw [config]
  split
  · rename_i hget
    split
    · exact yields_throw _
    · rename_i hplain
      have hbreak := breakOff_eq_none (h hget (Bool.not_eq_true _ ▸ hplain))
      refine yields_pure (framed_setting hbreak ?_)
      split
      · decide
      · decide
  · split
    · exact yields_pure Reply.framed_ok
    · exact yields_throw _

end Execution

/-! ### Requests -/

/-- How many frames the reply to a command is to be read as. -/
def Command.frameCount (registry : Registry) : Command → Nat
  | .subscribe channels => channels.length
  | .unsubscribe channels => registry.leaveCount channels
  | _ => 1

namespace Handler

open RespStore.Task

/-- How many frames the reply to a request is to be read as. -/
def frameCount (h : Handler) (request : Request) : Nat :=
  match Command.ofRequest request with
  | .error _ => 1
  | .ok command => command.frameCount h.registry

/-- Whether a request, unless it fails for good, is answered with so many frames. -/
abbrev AnswersFramed (n : Nat) : Except Fatal Completion → Prop :=
  Completes (Registry.CompletesFramed n)

/-- A command whose action replies with one frame is answered with one frame. -/
theorem framed_answer {action : Action Reply} (h : Execution.RepliesFramed action) :
    (answer action).Always Store.Serves (AnswersFramed 1) :=
  always_answer h (fun _ hreply => hreply) Reply.framed_error

/-- What the name of a setting has to be like for the answer to be framed. -/
def SettingFramed (command : Command) : Prop :=
  ∀ subcommand parameter, command = .config subcommand parameter →
    Upper.spells subcommand "GET" = true → Execution.isPattern parameter = false →
      Execution.breakOff parameter.toList = none

/-- In normal mode a command is answered with as many frames as are expected, unless it asks for a
setting with a line break in its name. -/
theorem framed_perform {command : Command} (hfits : ∀ b ∈ command.echoed, b.Fits)
    (hsetting : SettingFramed command) :
    (perform command).Always Store.Serves (AnswersFramed (command.frameCount ∅)) := by
  have hok : Execution.RepliesFramed (return .ok) := yields_pure Reply.framed_ok
  cases command with
  | del keys => exact framed_answer (Execution.framed_del keys)
  | get key => exact framed_answer (Execution.framed_get key)
  | incrByFloat key increment => exact framed_answer (Execution.framed_incrByFloat key increment)
  | lcs query => exact framed_answer (Execution.framed_lcs query)
  | set key value => exact framed_answer (Execution.framed_set key value)
  | lindex key index => exact framed_answer (Execution.framed_lindex key index)
  | llen key => exact framed_answer (Execution.framed_llen key)
  | pop side key count => exact framed_answer (Execution.framed_pop side key count)
  | push side key values => exact framed_answer (Execution.framed_push side key values)
  | lrange key start stop => exact framed_answer (Execution.framed_lrange key start stop)
  | publish channel message => exact framed_answer (Execution.framed_publish channel message)
  | subscribe channels =>
      have := Registry.framed_subscribe ∅ (List.forall_mem_nil _) hfits
      rw [List.length_nil, Nat.zero_add] at this
      exact always_ok_map this
  | unsubscribe channels =>
      exact always_ok_map (Registry.framed_unsubscribe (fun _ hmem => absurd hmem (by simp)) hfits)
  | client _ => exact framed_answer hok
  | config subcommand parameter =>
      exact framed_answer (Execution.framed_config (hsetting subcommand parameter rfl))
  | echo message =>
      exact framed_answer (yields_pure (Reply.framed_bulk (hfits message List.mem_cons_self)))
  | ping payload =>
      exact framed_answer (yields_pure (Execution.framed_pong fun b hb =>
        hfits b (Option.mem_toList.mpr hb)))
  | quit => exact completes_ok Reply.framed_ok
  | readOnly => exact framed_answer hok
  | readWrite => exact framed_answer hok

/-- In subscriber mode every command is answered with as many frames as are expected. -/
theorem framed_performSubscribed {registry : Registry} {command : Command}
    (hregistry : registry.Fits) (hfits : ∀ b ∈ command.echoed, b.Fits) :
    (performSubscribed registry command).Always Store.Serves
      (AnswersFramed (command.frameCount registry)) := by
  cases command with
  | subscribe channels =>
      have := Registry.framed_subscribe registry (List.forall_mem_nil _) hfits
      rw [List.length_nil, Nat.zero_add] at this
      exact always_ok_map this
  | unsubscribe channels => exact always_ok_map (Registry.framed_unsubscribe hregistry hfits)
  | ping payload =>
      exact completes_ok (Execution.framed_pong fun b hb => hfits b (Option.mem_toList.mpr hb))
  | quit => exact completes_ok Reply.framed_ok
  | _ => exact completes_ok (Reply.framed_error _)

/-- Whether the reply to a request is not what a client takes it for: a setting is asked for in
normal mode, its name has a line break, and what the client reads behind the first break is not
just the value of the setting. -/
def Injects (h : Handler) (request : Request) : Prop :=
  h.isSubscriber = false ∧ ∃ subcommand parameter line tail,
    Command.ofRequest request = .ok (.config subcommand parameter) ∧
      Upper.spells subcommand "GET" = true ∧ Execution.isPattern parameter = false ∧
      Execution.breakOff parameter.toList = some (line, tail) ∧
      ∀ frame, Frame.parse? (Execution.spilled tail) ≠ .ok (frame, [])

/-- Unless a setting is asked for that has a line break in its name, the reply to a request is as
many frames as a client expects. -/
theorem framed_handle {h : Handler} {request : Request} (hh : h.Fits) (hrequest : request.Fits)
    (hsetting : h.isSubscriber = false → ∀ command, Command.ofRequest request = .ok command →
      SettingFramed command) :
    (h.handle request).Always Store.Serves (AnswersFramed (h.frameCount request)) := by
  rw [handle, frameCount]
  cases hcommand : Command.ofRequest request with
  | error e => exact completes_ok (Reply.framed_error _)
  | ok command =>
      have hfits : ∀ b ∈ command.echoed, b.Fits := fun b hb =>
        hrequest b (Command.mem_args_of_mem_echoed hcommand hb)
      cases h with
      | normal => exact framed_perform hfits (hsetting rfl command hcommand)
      | subscriber registry => exact framed_performSubscribed hh hfits

/-- **Replies are framed.** A request to a handler over a store, whatever others do with the
store meanwhile: unless it fails for good, its reply is read as exactly as many frames as it
is expected to be, with nothing left over, if and only if the request does not inject into
it. -/
theorem framed_iff {h : Handler} {request : Request} {completion : Completion} (hh : h.Fits)
    (hrequest : request.Fits)
    (hends : (h.handle request).Ends Store.Serves (.ok completion)) :
    (∃ frames, frames.length = h.frameCount request ∧
      Frame.Reads completion.reply.encode frames []) ↔ ¬ h.Injects request := by
  by_cases hbreak : h.isSubscriber = false ∧ ∃ subcommand parameter line tail,
      Command.ofRequest request = .ok (.config subcommand parameter) ∧
        Upper.spells subcommand "GET" = true ∧ Execution.isPattern parameter = false ∧
        Execution.breakOff parameter.toList = some (line, tail)
  · obtain ⟨hnormal, subcommand, parameter, line, tail, hcommand, hget, hplain, hcut⟩ := hbreak
    have hcount : h.frameCount request = 1 := by
      rw [frameCount]
      rw [hcommand]
      rfl
    have hreply : completion.reply = Execution.setting parameter "" := by
      cases h with
      | subscriber registry => exact nomatch hnormal
      | normal =>
          rw [handle] at hends
          rw [hcommand] at hends
          simp only [perform, Execution.config_of_break hget hplain hcut] at hends
          cases hends
          rfl
    rw [hcount, hreply, Execution.exists_reads_setting_iff hcut]
    constructor
    · rintro ⟨frame, hframe⟩ ⟨-, subcommand', parameter', line', tail', hcommand', -, -, hcut',
        hnone⟩
      rw [hcommand] at hcommand'
      obtain ⟨rfl, rfl⟩ := Command.config.inj (Except.ok.inj hcommand')
      rw [hcut] at hcut'
      obtain ⟨rfl, rfl⟩ := Prod.mk.inj (Option.some.inj hcut')
      exact hnone frame hframe
    · intro hinjects
      by_cases hframe : ∃ frame, Frame.parse? (Execution.spilled tail) = .ok (frame, [])
      · exact hframe
      · exact absurd ⟨hnormal, subcommand, parameter, line, tail, hcommand, hget, hplain, hcut,
          fun frame heq => hframe ⟨frame, heq⟩⟩ hinjects
  · have hsetting : h.isSubscriber = false → ∀ command,
        Command.ofRequest request = .ok command → SettingFramed command := by
      rintro hnormal _ hcommand subcommand parameter rfl hget hplain
      cases hcut : Execution.breakOff parameter.toList with
      | none => rfl
      | some parts =>
          exact absurd ⟨hnormal, subcommand, parameter, parts.1, parts.2, hcommand, hget, hplain,
            hcut⟩ hbreak
    have hframed := always_iff.mp (framed_handle hh hrequest hsetting) _ hends completion rfl
    refine iff_of_true hframed.exists_reads ?_
    rintro ⟨hnormal, subcommand, parameter, line, tail, hcommand, hget, hplain, hcut, -⟩
    exact hbreak ⟨hnormal, subcommand, parameter, line, tail, hcommand, hget, hplain, hcut⟩

/-- Asking for a setting named `a`, line break, `b`: the client reads the setting `a`, and then
meets a `b` where a value should begin. -/
theorem not_framed_config_get :
    let request : Request := ⟨Bytes.ofString "CONFIG", [Bytes.ofString "GET", [97, 13, 10, 98]]⟩
    let completion : Completion :=
      { handler := .normal, reply := .array [.simple "a\r\nb", .simple ""] }
    normal.Fits ∧ request.Fits ∧ (normal.handle request).Ends Store.Serves (.ok completion) ∧
      ¬ ∃ frames, frames.length = normal.frameCount request ∧
        Frame.Reads completion.reply.encode frames [] := by
  intro request completion
  have hfits : normal.Fits := fun channel hchannel => absurd hchannel (by simp [registry])
  have hrequest : request.Fits := by
    unfold Request.Fits Bytes.Fits
    decide
  have hends : (normal.handle request).Ends Store.Serves (.ok completion) := .done
  refine ⟨hfits, hrequest, hends, fun hreads => (framed_iff hfits hrequest hends).mp hreads ?_⟩
  refine ⟨rfl, "GET", "a\r\nb", ['a'], ['b'], rfl, by decide, by decide, by decide, ?_⟩
  intro frame hframe
  have hspilled : Execution.spilled ['b'] = 98 :: [13, 10, 43, 13, 10] := by decide
  rw [hspilled, Frame.parse?_unknown _ (by decide)] at hframe
  exact nomatch hframe

end Handler

end RespStore
