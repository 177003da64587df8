import RespStore.Proofs.Decimal.Length
import RespStore.Proofs.Wire.Consumption
import RespStore.Proofs.Wire.Replies

/-!
# What is written comes back

A client reads a reply off the wire with the parser that the server reads requests with. This
module says for which replies it gets back what was meant, whatever bytes follow.

* `Reply.Regular` is what that takes: several replies at once do not stand inside an array, a line
  of text has no break inside, and whatever is counted can be counted in a 64-bit signed integer.
* `Reply.integers` are the numbers that a reply speaks of, and `Frame.integers` those that are read
  in a frame. `Reply.integers_frames` says that they are the same, so none has wrapped around.
* `Reply.parse_encode` is the main result, about the parser as it runs.
-/

namespace RespStore

/-- The offsets and the length that a range announces. -/
def MatchRange.announced (r : MatchRange) : List Nat :=
  [r.a.first, r.a.last, r.b.first, r.b.last] ++ r.length.toList

namespace Frame

mutual

/-- The integers in a frame, in the order in which they are read. -/
def integers : Frame → List Int
  | .integer value => [value.toInt]
  | .array items => integersOfEach items
  | _ => []

/-- The integers in several frames. -/
def integersOfEach : List Frame → List Int
  | [] => []
  | item :: items => integers item ++ integersOfEach items

end

/-- A reading of several frames without its proofs is a reading. -/
theorem exists_of_parseMany? {count : Nat} {input rest : Bytes} {frames : List Frame}
    (h : parseMany? count input = .ok (frames, rest)) :
    ∃ read, parseMany count input = .ok read ∧
      read.values = frames ∧ read.taken = input.length - rest.length ∧ read.rest = rest := by
  rw [parseMany?] at h
  cases hread : parseMany count input with
  | error e =>
      rw [hread] at h
      cases h
  | ok read =>
      rw [hread] at h
      obtain ⟨rfl, rfl⟩ := Prod.mk.inj (Except.ok.inj h)
      exact ⟨read, rfl, rfl, Nat.eq_sub_of_add_eq' read.length_rest_add, rfl⟩

/-- The integers in frames one behind the other stand one behind the other. -/
theorem integersOfEach_append (items more : List Frame) :
    integersOfEach (items ++ more) = integersOfEach items ++ integersOfEach more := by
  induction items with
  | nil => rfl
  | cons item items ih => rw [List.cons_append, integersOfEach, integersOfEach, ih,
      List.append_assoc]

end Frame

namespace Reply

/-- Whether a reply is several replies at once. -/
def isMany : Reply → Bool
  | .many _ => true
  | _ => false

mutual

/-- A reply and all replies inside it. -/
def nodes : Reply → List Reply
  | .array items => .array items :: nodesOfEach items
  | .many replies => .many replies :: nodesOfEach replies
  | reply => [reply]

/-- Several replies and all replies inside them. -/
def nodesOfEach : List Reply → List Reply
  | [] => []
  | reply :: replies => nodes reply ++ nodesOfEach replies

end

/-- The lengths, counts and offsets that a reply announces. Those of the replies inside it are not
among them. -/
def announced : Reply → List Nat
  | .bulk payload => [payload.length]
  | .array items => [items.length]
  | .alignment ranges total => [ranges.length, total] ++ ranges.flatMap MatchRange.announced
  | .message channel payload => [channel.length, payload.length]
  | .subscribed channel count => [channel.length, count]
  | .unsubscribed channel count => (channel.map List.length).toList ++ [count]
  | _ => []

/-- Whether a reply can be told by a client that reads it. -/
structure Regular (reply : Reply) : Prop where
  /-- Several replies at once do not stand inside an array. -/
  unnested : ∀ items, .array items ∈ reply.nodes → ∀ item ∈ items, item.isMany = false
  /-- A line of text has no break inside. -/
  unbroken : ∀ text, .simple text ∈ reply.nodes → ¬ ['\r', '\n'] <:+: text.toList
  /-- What is announced can be counted in a 64-bit signed integer. -/
  countable : ∀ node ∈ reply.nodes, ∀ n ∈ node.announced, n < 2 ^ 63

mutual

/-- The integers that a reply speaks of, in order. -/
def integers : Reply → List Int
  | .integer value => [value.toInt]
  | .array items => integersOfEach items
  | .alignment ranges total => (ranges.flatMap MatchRange.announced ++ [total]).map Int.ofNat
  | .subscribed _ count => [count]
  | .unsubscribed _ count => [count]
  | .many replies => integersOfEach replies
  | _ => []

/-- The integers that several replies speak of. -/
def integersOfEach : List Reply → List Int
  | [] => []
  | reply :: replies => integers reply ++ integersOfEach replies

end

/-! ### Replies inside replies -/

section Nodes

variable {reply : Reply} {items : List Reply}

/-- A reply is inside itself. -/
theorem self_mem_nodes (reply : Reply) : reply ∈ reply.nodes := by
  cases reply with
  | array items => exact List.mem_cons_self
  | many replies => exact List.mem_cons_self
  | _ => exact List.mem_singleton_self _

/-- What is inside one of several replies is inside all of them together. -/
theorem nodes_subset_nodesOfEach (h : reply ∈ items) : reply.nodes ⊆ nodesOfEach items := by
  induction items with
  | nil => exact absurd h List.not_mem_nil
  | cons item items ih =>
      intro node hnode
      rw [nodesOfEach, List.mem_append]
      rcases List.mem_cons.mp h with rfl | h
      · exact .inl hnode
      · exact .inr (ih h hnode)

mutual

/-- What is inside a reply inside another one is inside that one. -/
theorem nodes_subset : (reply : Reply) → ∀ node ∈ reply.nodes, node.nodes ⊆ reply.nodes
  | .array items, node, h => by
      rcases List.mem_cons.mp h with rfl | h
      · exact List.Subset.refl _
      · exact fun _ hinner => List.mem_cons_of_mem _ (nodesOfEach_subset items node h hinner)
  | .many replies, node, h => by
      rcases List.mem_cons.mp h with rfl | h
      · exact List.Subset.refl _
      · exact fun _ hinner => List.mem_cons_of_mem _ (nodesOfEach_subset replies node h hinner)
  | .ok, _, h | .simple _, _, h | .error _, _, h | .integer _, _, h | .double _, _, h
  | .bulk _, _, h | .null, _, h | .nullArray, _, h | .alignment _ _, _, h | .message _ _, _, h
  | .subscribed _ _, _, h | .unsubscribed _ _, _, h => by
      rw [List.mem_singleton.mp h]
      exact List.Subset.refl _

/-- What is inside a reply inside several ones is inside them. -/
theorem nodesOfEach_subset :
    (replies : List Reply) → ∀ node ∈ nodesOfEach replies, node.nodes ⊆ nodesOfEach replies
  | [], _, h => absurd h List.not_mem_nil
  | reply :: replies, node, h => by
      rw [nodesOfEach] at h ⊢
      rcases List.mem_append.mp h with h | h
      · exact fun _ hinner => List.mem_append_left _ (nodes_subset reply node h hinner)
      · exact fun _ hinner => List.mem_append_right _ (nodesOfEach_subset replies node h hinner)

end

/-- What is inside a reply that can be told can be told. -/
theorem Regular.of_subset {outer : Reply} (h : outer.Regular)
    (hsubset : reply.nodes ⊆ outer.nodes) : reply.Regular where
  unnested inner hinner := h.unnested inner (hsubset hinner)
  unbroken text htext := h.unbroken text (hsubset htext)
  countable node hnode := h.countable node (hsubset hnode)

/-- The elements of an array that can be told can be told. -/
theorem Regular.of_mem_array (h : (Reply.array items).Regular) : ∀ item ∈ items, item.Regular :=
  fun _ hitem => h.of_subset fun _ hnode =>
    List.mem_cons_of_mem _ (nodes_subset_nodesOfEach hitem hnode)

/-- Each of several replies that can be told can be told. -/
theorem Regular.of_mem_many (h : (Reply.many items).Regular) : ∀ item ∈ items, item.Regular :=
  fun _ hitem => h.of_subset fun _ hnode =>
    List.mem_cons_of_mem _ (nodes_subset_nodesOfEach hitem hnode)

/-- What a reply announces that can be told can be counted. -/
theorem Regular.announced_lt (h : reply.Regular) : ∀ n ∈ reply.announced, n < 2 ^ 63 :=
  h.countable reply (self_mem_nodes reply)

end Nodes

/-! ### The frames of a reply -/

/-- A reply is one frame, unless it is several replies. -/
theorem exists_frame {reply : Reply} (h : reply.isMany = false) :
    ∃ frame, reply.frames = [frame] := by
  cases reply with
  | many replies => exact nomatch h
  | _ => exact ⟨_, rfl⟩

/-- Replies none of which is several at once are as many frames as they are. -/
theorem length_framesOfEach {items : List Reply} (h : ∀ item ∈ items, item.isMany = false) :
    (framesOfEach items).length = items.length := by
  induction items with
  | nil => rfl
  | cons item items ih =>
      obtain ⟨hitem, hitems⟩ := List.forall_mem_cons.mp h
      obtain ⟨frame, hframe⟩ := exists_frame hitem
      rw [framesOfEach, List.length_append, ih hitems, hframe, List.length_singleton,
        List.length_cons, Nat.add_comm]

/-- Several replies are read one after the other. -/
theorem framesOfEach_eq_flatMap (replies : List Reply) :
    framesOfEach replies = replies.flatMap frames := by
  induction replies with
  | nil => rfl
  | cons reply replies ih => rw [framesOfEach, List.flatMap_cons, ih]

mutual

/-- A reply that can be told has pieces that fit together. -/
theorem Regular.wellFramed : (reply : Reply) → reply.Regular → reply.WellFramed
  | .simple text, h => fun hbreak =>
      h.unbroken text (List.mem_singleton_self _) (Bytes.hasBreak_ofString_iff.mp hbreak)
  | .double value, _ => Decimal.Real.length_ofString_text_lt value
  | .bulk payload, h => h.announced_lt _ (List.mem_singleton_self _)
  | .array items, h =>
      ⟨h.announced_lt _ (List.mem_singleton_self _),
        length_framesOfEach (h.unnested items (self_mem_nodes _)),
        Regular.eachWellFramed items h.of_mem_array⟩
  | .alignment ranges total, h => h.announced_lt _ List.mem_cons_self
  | .message channel payload, h =>
      ⟨h.announced_lt _ List.mem_cons_self,
        h.announced_lt _ (List.mem_cons_of_mem _ (List.mem_singleton_self _))⟩
  | .subscribed channel count, h => h.announced_lt _ List.mem_cons_self
  | .unsubscribed channel count, h => fun name hname =>
      h.announced_lt _ (List.mem_append_left _ (by
        rw [Option.mem_def.mp hname]
        exact List.mem_singleton_self _))
  | .many replies, h => Regular.eachWellFramed replies h.of_mem_many
  | .ok, _ => trivial
  | .error _, _ => trivial
  | .integer _, _ => trivial
  | .null, _ => trivial
  | .nullArray, _ => trivial

/-- Replies that can be told fit together as frames. -/
theorem Regular.eachWellFramed :
    (replies : List Reply) → (∀ reply ∈ replies, reply.Regular) → EachWellFramed replies
  | [], _ => trivial
  | reply :: replies, h =>
      ⟨Regular.wellFramed reply (List.forall_mem_cons.mp h).1,
        Regular.eachWellFramed replies (List.forall_mem_cons.mp h).2⟩

end

/-! ### The numbers of a reply -/

/-- The integers that are read in ranges are the offsets and lengths that the ranges announce. -/
theorem integers_ranges {ranges : List MatchRange}
    (h : ∀ n ∈ ranges.flatMap MatchRange.announced, n < 2 ^ 63) :
    Frame.integersOfEach (ranges.map MatchRange.frame) =
      (ranges.flatMap MatchRange.announced).map Int.ofNat := by
  have hspan {s : Span} (hfirst : s.first < 2 ^ 63) (hlast : s.last < 2 ^ 63) :
      (MatchRange.spanFrame s).integers = [Int.ofNat s.first, Int.ofNat s.last] := by
    simp only [MatchRange.spanFrame, Frame.integers, Frame.integersOfEach,
      Int64.toInt_ofNat_of_lt hfirst, Int64.toInt_ofNat_of_lt hlast]
    rfl
  induction ranges with
  | nil => rfl
  | cons r ranges ih =>
      rw [List.flatMap_cons, List.forall_mem_append] at h
      obtain ⟨hr, hranges⟩ := h
      rw [List.map_cons, Frame.integersOfEach, ih hranges, List.flatMap_cons, List.map_append]
      refine congrArg (· ++ _) ?_
      obtain ⟨a, b, length⟩ := r
      simp only [MatchRange.announced, List.cons_append, List.nil_append,
        List.forall_mem_cons] at hr ⊢
      obtain ⟨ha, ha', hb, hb', hlength⟩ := hr
      cases length with
      | none =>
          simp only [MatchRange.frame, Frame.integers, Frame.integersOfEach, hspan ha ha',
            hspan hb hb']
          rfl
      | some n =>
          have hn : n < 2 ^ 63 := hlength n (List.mem_singleton_self n)
          simp only [MatchRange.frame, Frame.integers, Frame.integersOfEach, hspan ha ha',
            hspan hb hb', Int64.toInt_ofNat_of_lt hn]
          rfl

mutual

/-- The integers that are read are those that the reply speaks of. -/
theorem integers_frames : (reply : Reply) → reply.Regular →
    Frame.integersOfEach reply.frames = reply.integers
  | .integer value, _ => rfl
  | .array items, h => by
      rw [frames, Frame.integersOfEach, Frame.integers, Frame.integersOfEach, List.append_nil]
      exact integers_framesOfEach items h.of_mem_array
  | .alignment ranges total, h => by
      obtain ⟨-, htotal, hranges⟩ := List.forall_mem_cons.mp h.announced_lt |>.imp_right
        List.forall_mem_cons.mp
      simp only [frames, Frame.integersOfEach, Frame.integers, integers_ranges hranges,
        Int64.toInt_ofNat_of_lt htotal, List.nil_append, List.append_nil, integers, List.map_append]
      rfl
  | .subscribed channel count, h => by
      have hcount : count < 2 ^ 63 :=
        h.announced_lt _ (List.mem_cons_of_mem _ (List.mem_singleton_self _))
      simp only [frames, Frame.integersOfEach, Frame.integers, Int64.toInt_ofNat_of_lt hcount]
      rfl
  | .unsubscribed channel count, h => by
      have hcount : count < 2 ^ 63 :=
        h.announced_lt _ (List.mem_append_right _ (List.mem_singleton_self _))
      cases channel with
      | _ =>
          simp only [frames, Option.elim, Frame.integersOfEach, Frame.integers,
            Int64.toInt_ofNat_of_lt hcount]
          rfl
  | .many replies, h => integers_framesOfEach replies h.of_mem_many
  | .ok, _ => rfl
  | .simple _, _ => rfl
  | .error _, _ => rfl
  | .double _, _ => rfl
  | .bulk _, _ => rfl
  | .null, _ => rfl
  | .nullArray, _ => rfl
  | .message _ _, _ => rfl

/-- The integers that are read in several replies are those that they speak of. -/
theorem integers_framesOfEach : (replies : List Reply) → (∀ reply ∈ replies, reply.Regular) →
    Frame.integersOfEach (framesOfEach replies) = integersOfEach replies
  | [], _ => rfl
  | reply :: replies, h => by
      rw [framesOfEach, Frame.integersOfEach_append, integersOfEach,
        integers_frames reply (List.forall_mem_cons.mp h).1,
        integers_framesOfEach replies (List.forall_mem_cons.mp h).2]

end

/-! ### What is absent and what is empty -/

/-- Whether a frame tells what is absent from what is empty, for a reply that it stands for. -/
structure TellsAbsent (reply : Reply) (frame : Frame) : Prop where
  /-- Only an absent value and an absent sequence are null. -/
  null_iff : frame = .null ↔ reply = .null ∨ reply = .nullArray
  /-- Only a payload without bytes is an empty payload. -/
  bulk_iff : frame = .bulk [] ↔ reply = .bulk []
  /-- Only a sequence without elements is an empty array. -/
  array_iff : frame = .array [] ↔ reply = .array []
  /-- No channel is not the channel without a name. -/
  channel_iff : ∀ channel count, reply = .unsubscribed channel count →
    ∃ name, frame = .array [.bulk (Bytes.ofString "unsubscribe"), name, .integer (.ofNat count)] ∧
      (name = .null ↔ channel = none) ∧ (name = .bulk [] ↔ channel = some [])

/-- The text of a floating-point number is not empty. -/
theorem ofString_text_ne_nil (x : Float) : Bytes.ofString (Decimal.Real.text x) ≠ [] := by
  intro hnil
  have htext := Bytes.toString?_ofString (Decimal.Real.text x)
  have hempty : Bytes.toString? (Bytes.ofString "") = some "" := Bytes.toString?_ofString ""
  rw [hnil] at htext
  exact Decimal.Real.text_ne_empty x (Option.some.inj (htext.symm.trans hempty))

/-- A client that reads a single reply tells what is absent in it from what is empty. -/
theorem Regular.tellsAbsent {reply : Reply} {frame : Frame} (h : reply.Regular)
    (hframe : reply.frames = [frame]) (hone : reply.isMany = false) : reply.TellsAbsent frame := by
  cases reply with
  | many replies => exact nomatch hone
  | array items =>
      obtain rfl := List.singleton_inj.mp hframe
      have hlength := length_framesOfEach (h.unnested items (self_mem_nodes _))
      have hempty : framesOfEach items = [] ↔ items = [] := by
        rw [← List.length_eq_zero_iff, hlength, List.length_eq_zero_iff]
      exact ⟨by simp, by simp, by simpa using hempty, fun _ _ => nofun⟩
  | double value =>
      obtain rfl := List.singleton_inj.mp hframe
      exact ⟨by simp, by simpa using ofString_text_ne_nil value, by simp, fun _ _ => nofun⟩
  | unsubscribed channel count =>
      obtain rfl := List.singleton_inj.mp hframe
      refine ⟨by simp, by simp, by simp, ?_⟩
      rintro channel' count' heq
      obtain ⟨rfl, rfl⟩ := Reply.unsubscribed.inj heq
      refine ⟨_, rfl, ?_⟩
      cases channel with
      | none => simp
      | some name => simp
  | _ =>
      obtain rfl := List.singleton_inj.mp hframe
      exact ⟨by simp, by simp, by simp, fun _ _ => nofun⟩

/-! ### Reading a reply -/

/-- **What is written comes back.** A reply that can be told is read as its frames, whatever bytes
follow it, and reading stops right behind it.

* A reply that is not several replies is one frame, and several replies are read one after the
  other.
* Every count and every offset is read as the number that it was.
* Nowhere in the reply is anything absent taken for something empty, or the other way round. -/
theorem parse_encode {reply : Reply} (h : reply.Regular) (rest : Bytes) :
    (∃ read, Frame.parseMany reply.frames.length (reply.encode ++ rest) = .ok read ∧
      read.values = reply.frames ∧ read.taken = reply.encode.length ∧ read.rest = rest) ∧
    (reply.isMany = false → ∃ frame read, reply.frames = [frame] ∧
      Frame.parse (reply.encode ++ rest) = .ok read ∧
      read.value = frame ∧ read.taken = reply.encode.length ∧ read.rest = rest) ∧
    (∀ replies, reply = .many replies → reply.frames = replies.flatMap frames) ∧
    Frame.integersOfEach reply.frames = reply.integers ∧
    ∀ node ∈ reply.nodes, node.isMany = false →
      ∃ frame, node.frames = [frame] ∧ node.TellsAbsent frame := by
  have hreads := reads_encode h.wellFramed rest
  have hlength : (reply.encode ++ rest).length - rest.length = reply.encode.length := by
    rw [List.length_append, Nat.add_sub_cancel]
  refine ⟨?_, fun hone => ?_, ?_, integers_frames reply h, fun node hnode hone => ?_⟩
  · obtain ⟨read, hread, hvalues, htaken, hrest⟩ :=
      Frame.exists_of_parseMany? (Frame.parseMany?_eq_ok_iff.mpr ⟨rfl, hreads⟩)
    exact ⟨read, hread, hvalues, htaken.trans hlength, hrest⟩
  · obtain ⟨frame, hframe⟩ := exists_frame hone
    rw [hframe] at hreads
    obtain ⟨_, hparse, rfl⟩ := hreads
    obtain ⟨read, hread, hvalue, htaken, hrest⟩ := Frame.exists_of_parse? hparse
    exact ⟨frame, read, hframe, hread, hvalue, htaken.trans hlength, hrest⟩
  · rintro replies rfl
    exact framesOfEach_eq_flatMap replies
  · obtain ⟨frame, hframe⟩ := exists_frame hone
    exact ⟨frame, hframe, (h.of_subset (nodes_subset reply node hnode)).tellsAbsent hframe hone⟩

/-- Three replies at once: an array with empty and absent things in it, the acknowledgement of a
client that has no channel, and the ranges of an alignment. -/
theorem parse_encode_three :
    let reply := Reply.many [
      .array [.bulk [], .null, .array [], .nullArray, .simple "a\rb", .error "c\r\nd",
        .integer (-12)],
      .unsubscribed none 0,
      .alignment [⟨⟨1, 2⟩, ⟨0, 1⟩, some 2⟩] 2]
    reply.Regular ∧
      ∃ read, Frame.parseMany 3 (reply.encode ++ [43]) = .ok read ∧
        read.values = [
          .array [.bulk [], .null, .array [], .null, .simple "a\rb", .error "c  d", .integer (-12)],
          .array [.bulk (Bytes.ofString "unsubscribe"), .null, .integer 0],
          .array [.bulk (Bytes.ofString "matches"),
            .array [.array [.array [.integer 1, .integer 2], .array [.integer 0, .integer 1],
              .integer 2]],
            .bulk (Bytes.ofString "len"), .integer 2]] ∧
        read.taken = reply.encode.length ∧ read.rest = [43] := by
  have hregular : (Reply.many [
      .array [.bulk [], .null, .array [], .nullArray, .simple "a\rb", .error "c\r\nd",
        .integer (-12)],
      .unsubscribed none 0,
      .alignment [⟨⟨1, 2⟩, ⟨0, 1⟩, some 2⟩] 2]).Regular := by
    refine ⟨?_, ?_, ?_⟩
    · simp [nodes, nodesOfEach, isMany]
    · intro text htext
      obtain rfl : text = "a\rb" := by simpa [nodes, nodesOfEach] using htext
      decide
    · simp [nodes, nodesOfEach, announced, MatchRange.announced]
  obtain ⟨⟨read, hread, hvalues, htaken, hrest⟩, -⟩ := parse_encode hregular [43]
  exact ⟨hregular, read, hread, hvalues, htaken, hrest⟩

end Reply

end RespStore
