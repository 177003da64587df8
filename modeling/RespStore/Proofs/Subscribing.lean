import RespStore.Proofs.Faults
import Mathlib.Data.Finset.Card
import Mathlib.Data.List.Forall2

/-!
# Counting subscriptions

`SUBSCRIBE` and `UNSUBSCRIBE` go through a list of channels and acknowledge each of them with the
number of subscriptions then held. This module says which number that is, whichever channels are
subscribed already, are named twice, or are not subscribed at all, and what becomes of the rest when
a listener is refused.

* `Registry.held` is the set of the subscribed channels, and `Registry.Aim` tells the two commands
  apart: the channels are to be in the set, or out of it.
* `Registry.Aim.Settles` says what a change of subscriptions comes to: its calls, the registry, and
  the replies. `Registry.Aim.settles_pursue` is the induction along the channels.
* `Registry.acks_channels` counts down to zero when all channels are left in order.
* `Handler.acknowledgements_exact` is the main result, for the requests in both modes.
-/

namespace RespStore

/-! ### The order of channels -/

namespace Bytes

/-- Byte strings are compared as lists are ordered. -/
theorem compare_eq_lt_iff (b c : Bytes) : compare b c = .lt ↔ b < c := by
  induction b generalizing c with
  | nil =>
      cases c with
      | nil => exact ⟨nofun, fun h => absurd h (List.lt_irrefl _)⟩
      | cons y c => exact ⟨fun _ => List.nil_lt_cons y c, fun _ => rfl⟩
  | cons x b ih =>
      cases c with
      | nil => exact ⟨nofun, fun h => absurd h (List.not_lt_nil _)⟩
      | cons y c =>
          rw [List.compare_cons_cons, Ordering.then_eq_lt, Std.compare_eq_lt,
            Std.compare_eq_iff_eq, ih, List.cons_lt_cons_iff]

end Bytes

/-! ### Courses of tasks -/

namespace Task

variable {α : Type}

/-- Whether the calls of a dialogue are answered as somebody responds who has heard the dialogue so
far. -/
def Answered (respond : List Asked → (q : Call) → q.Answer) (dialogue : List Asked) : Prop :=
  ∀ front asked behind, dialogue = front ++ asked :: behind →
    asked.answer = respond front asked.call

/-- Whatever its calls are answered, a task comes to its end. -/
theorem exists_unfolds (task : Task α) (respond : List Asked → (q : Call) → q.Answer) :
    ∃ dialogue value, task.Unfolds dialogue value ∧ Answered respond dialogue := by
  induction task generalizing respond with
  | done value =>
      refine ⟨[], value, .done value, fun front asked behind h => ?_⟩
      exact absurd h.symm (List.append_ne_nil_of_right_ne_nil _ (List.cons_ne_nil _ _))
  | call owned q next ih =>
      let asked : Asked := ⟨owned, q, respond [] q⟩
      obtain ⟨dialogue, value, hunfolds, hanswered⟩ :=
        ih (respond [] q) fun past => respond (asked :: past)
      refine ⟨asked :: dialogue, value, .call _ hunfolds, fun front other behind h => ?_⟩
      cases front with
      | nil =>
          obtain ⟨rfl, -⟩ := List.cons.inj h
          rfl
      | cons first front =>
          obtain ⟨rfl, rfl⟩ := List.cons.inj h
          exact hanswered front other behind rfl
  | aside next ih =>
      obtain ⟨dialogue, value, hunfolds, hanswered⟩ := ih respond
      exact ⟨dialogue, value, .aside hunfolds, hanswered⟩

/-- A task whose value is wrapped takes the same course. -/
theorem Unfolds.of_map {β : Type} {f : α → β} {task : Task α} {dialogue : List Asked} {value : β}
    (h : (f <$> task : Task β).Unfolds dialogue value) :
    ∃ inner, task.Unfolds dialogue inner ∧ value = f inner := by
  change (task.bind fun inner => .done (f inner)).Unfolds dialogue value at h
  induction task generalizing dialogue with
  | done inner =>
      cases h with
      | done => exact ⟨inner, .done inner, rfl⟩
  | call owned q next ih =>
      cases h with
      | call answer hnext =>
          obtain ⟨inner, hinner, rfl⟩ := ih answer hnext
          exact ⟨inner, .call answer hinner, rfl⟩
  | aside next ih =>
      cases h with
      | aside hnext =>
          obtain ⟨inner, hinner, rfl⟩ := ih hnext
          exact ⟨inner, .aside hinner, rfl⟩

end Task

/-! ### The set of subscribed channels -/

namespace Registry

/-- The channels with a listener, as a set. -/
def held (registry : Registry) : Finset Bytes := registry.channels.toFinset

variable {registry : Registry} {channel : Bytes}

/-- A channel is in the set just when it is in the registry. -/
@[simp]
theorem mem_held : channel ∈ registry.held ↔ channel ∈ registry := by
  rw [held, List.mem_toFinset, channels, Std.ExtTreeMap.mem_keys]

/-- The channels come in ascending order. -/
theorem sorted_channels (registry : Registry) : registry.channels.Pairwise (· < ·) :=
  Std.ExtTreeMap.ordered_keys.imp fun h => (Bytes.compare_eq_lt_iff _ _).mp h

/-- No channel comes twice. -/
theorem nodup_channels (registry : Registry) : registry.channels.Nodup :=
  registry.sorted_channels.imp fun h => by
    rintro rfl
    exact List.lt_irrefl _ h

/-- The set has as many channels as the registry has listeners. -/
@[simp]
theorem card_held (registry : Registry) : registry.held.card = registry.size := by
  rw [held, List.toFinset_card_of_nodup registry.nodup_channels]
  exact Std.ExtTreeMap.length_keys

/-- A channel that is entered in the registry is entered in the set. -/
@[simp]
theorem held_insert (registry : Registry) (channel : Bytes) (id : ListenerId) :
    held (Std.ExtTreeMap.insert registry channel id) = insert channel registry.held := by
  ext other
  rw [mem_held, Std.ExtTreeMap.mem_insert, Finset.mem_insert, mem_held, Std.compare_eq_iff_eq,
    eq_comm]

/-- A channel that is taken out of the registry is taken out of the set. -/
@[simp]
theorem held_erase (registry : Registry) (channel : Bytes) :
    held (Std.ExtTreeMap.erase registry channel) = registry.held.erase channel := by
  ext other
  rw [mem_held, Std.ExtTreeMap.mem_erase, Finset.mem_erase, mem_held, ne_eq, ne_eq,
    Std.compare_eq_iff_eq, eq_comm]

/-- No channel is held just when the registry is empty. -/
theorem held_eq_empty_iff : registry.held = ∅ ↔ registry = ∅ := by
  rw [← Finset.card_eq_zero, card_held, ← Std.ExtTreeMap.isEmpty_iff,
    Std.ExtTreeMap.isEmpty_eq_size_beq_zero, beq_iff_eq]

/-! ### What a change of subscriptions aims at -/

/-- What a change of subscriptions aims at. -/
inductive Aim where
  /-- The channels are to be subscribed. -/
  | joined
  /-- The channels are to be left. -/
  | left
  deriving Repr, DecidableEq

namespace Aim

/-- The command with this aim. -/
def command : Aim → List Bytes → Command
  | .joined => .subscribe
  | .left => .unsubscribe

/-- The subscribed channels, once the aim is reached for some more. -/
def after : Aim → Finset Bytes → List Bytes → Finset Bytes
  | .joined, held, channels => held ∪ channels.toFinset
  | .left, held, channels => held \ channels.toFinset

/-- Whether a channel is as it should be. -/
def Met : Aim → Finset Bytes → Bytes → Prop
  | .joined, held, channel => channel ∈ held
  | .left, held, channel => channel ∉ held

instance (aim : Aim) (held : Finset Bytes) (channel : Bytes) : Decidable (aim.Met held channel) :=
  match aim with
  | .joined => inferInstanceAs (Decidable (channel ∈ held))
  | .left => inferInstanceAs (Decidable (channel ∉ held))

/-- The acknowledgement of a channel, with the number of subscriptions. -/
def ack : Aim → Bytes → Nat → Reply
  | .joined, channel, count => .subscribed channel count
  | .left, channel, count => .unsubscribed (some channel) count

/-- The acknowledgements of channels: each has the number of subscriptions that are held once this
channel and those before it are as they should be. -/
def acks (aim : Aim) (held : Finset Bytes) (channels : List Bytes) : List Reply :=
  channels.mapIdx fun i channel => aim.ack channel (aim.after held (channels.take (i + 1))).card

/-- The channels that take a call to the store: those that are not yet as they should be when it is
their turn. -/
def due (aim : Aim) (held : Finset Bytes) : List Bytes → List Bytes
  | [] => []
  | channel :: channels =>
    if aim.Met held channel then due aim held channels
    else channel :: due aim (aim.after held [channel]) channels

/-- Whether a call is about a channel: it asks for a listener there, or takes off the listener that
the registry has. -/
def Asks : Aim → Registry → Bytes → Call → Prop
  | .joined, _, channel, q => q = .listen channel
  | .left, registry, channel, q => ∃ id, registry[channel]? = some id ∧ q = .unlisten id

/-- What is done about channels, one after the other. -/
def pursue : Aim → Registry → List Reply → List Bytes → Task Completion
  | .joined => subscribe
  | .left => leave

/-- What is done for the command. -/
def start : Aim → Registry → List Bytes → Task Completion
  | .joined, registry => registry.subscribe []
  | .left, registry => registry.unsubscribe

variable {aim : Aim} {held : Finset Bytes} {channels : List Bytes}

/-- Without channels the set stays as it is. -/
@[simp]
theorem after_nil (aim : Aim) (held : Finset Bytes) : aim.after held [] = held := by
  cases aim with
  | joined => exact Finset.union_empty held
  | left => exact Finset.sdiff_empty

/-- Channels may be dealt with in two steps. -/
theorem after_append (aim : Aim) (held : Finset Bytes) (channels more : List Bytes) :
    aim.after held (channels ++ more) = aim.after (aim.after held channels) more := by
  cases aim with
  | joined => rw [after, after, after, List.toFinset_append, Finset.union_assoc]
  | left => rw [after, after, after, List.toFinset_append, sdiff_sdiff_left,
      Finset.sup_eq_union]

/-- Channels are dealt with one after the other. -/
theorem after_cons (aim : Aim) (held : Finset Bytes) (channel : Bytes) (channels : List Bytes) :
    aim.after held (channel :: channels) = aim.after (aim.after held [channel]) channels :=
  after_append aim held [channel] channels

/-- To join a channel adds it to the set. -/
theorem after_joined (held : Finset Bytes) (channel : Bytes) :
    joined.after held [channel] = insert channel held := by
  rw [after, List.toFinset_cons, List.toFinset_nil, insert_empty_eq, Finset.union_singleton]

/-- To leave a channel takes it out of the set. -/
theorem after_left (held : Finset Bytes) (channel : Bytes) :
    left.after held [channel] = held.erase channel := by
  rw [after, List.toFinset_cons, List.toFinset_nil, insert_empty_eq,
    Finset.sdiff_singleton_eq_erase]

/-- A channel that is as it should be changes nothing. -/
theorem Met.after_eq (h : aim.Met held channel) : aim.after held [channel] = held := by
  cases aim with
  | joined => exact (after_joined held channel).trans (Finset.insert_eq_of_mem h)
  | left => exact (after_left held channel).trans (Finset.erase_eq_of_notMem h)

/-- A channel that has been dealt with is as it should be. -/
theorem met_after (aim : Aim) (held : Finset Bytes) {channel : Bytes}
    (h : channel ∈ channels) : aim.Met (aim.after held channels) channel := by
  cases aim with
  | joined => exact Finset.mem_union_right _ (List.mem_toFinset.mpr h)
  | left => exact fun hmem => (Finset.mem_sdiff.mp hmem).2 (List.mem_toFinset.mpr h)

/-- What is as it should be stays so. -/
theorem Met.after (h : aim.Met held channel) (channels : List Bytes) :
    aim.Met (aim.after held channels) channel := by
  cases aim with
  | joined => exact Finset.mem_union_left _ h
  | left => exact fun hmem => h (Finset.mem_sdiff.mp hmem).1

/-- The first channel is acknowledged with the count behind it, and the others follow from there. -/
theorem acks_cons (aim : Aim) (held : Finset Bytes) (channel : Bytes) (channels : List Bytes) :
    aim.acks held (channel :: channels) =
      aim.ack channel (aim.after held [channel]).card ::
        aim.acks (aim.after held [channel]) channels := by
  rw [acks, List.mapIdx_cons, acks]
  simp only [List.take_succ_cons, List.take_zero, after_cons aim held channel (channels.take _)]

/-- A channel that is as it should be takes no call. -/
theorem not_mem_due (h : aim.Met held channel) (channels : List Bytes) :
    channel ∉ aim.due held channels := by
  induction channels generalizing held with
  | nil => exact List.not_mem_nil
  | cons other channels ih =>
      rw [due]
      split
      · exact ih h
      · rename_i hother
        refine List.not_mem_cons_of_ne_of_not_mem ?_ (ih (h.after [other]))
        rintro rfl
        exact hother h

/-- Which call is about a channel depends on what the registry has there. -/
theorem Asks.of_eq {registry' : Registry} {q : Call} (h : aim.Asks registry channel q)
    (heq : registry[channel]? = registry'[channel]?) : aim.Asks registry' channel q := by
  cases aim with
  | joined => exact h
  | left => rwa [Asks, heq] at h

/-! ### What a change of subscriptions comes to -/

/-- How a registry and the channels that are dealt with go together: each channel that was not as it
should be took one call, which succeeded, and nothing else was changed. -/
structure Reaches (aim : Aim) (registry : Registry) (channels : List Bytes) (calls : List Asked)
    (registry' : Registry) : Prop where
  /-- The calls, in the order of the channels. -/
  calls : List.Forall₂ (fun channel asked => aim.Asks registry channel asked.call ∧
    asked.alarm? = none) (aim.due registry.held channels) calls
  /-- All channels are as they should be. -/
  held : registry'.held = aim.after registry.held channels
  /-- What took no call has the listener that it had. -/
  untouched : ∀ channel ∉ aim.due registry.held channels, registry'[channel]? = registry[channel]?

/-- What a change of subscriptions comes to, with its calls, the registry behind it and the
replies. -/
inductive Settles (aim : Aim) (registry : Registry) :
    List Bytes → List Asked → Registry → List Reply → Prop where
  /-- All channels are dealt with, and acknowledged. -/
  | all {channels : List Bytes} {calls : List Asked} {registry' : Registry}
      (h : aim.Reaches registry channels calls registry') :
      Settles aim registry channels calls registry' (aim.acks registry.held channels)
  /-- The call about a channel fails. The channels before it are dealt with and acknowledged, the
  error is the last reply, and there is no call about the channels behind it. -/
  | refused {channels : List Bytes} {channel : Bytes} {later : List Bytes} {calls : List Asked}
      {asked : Asked} {registry' : Registry} {text : String}
      (h : aim.Reaches registry channels calls registry')
      (hdue : ¬ aim.Met (aim.after registry.held channels) channel)
      (hasks : aim.Asks registry channel asked.call)
      (hfails : asked.alarm? = some (.complaint registry' (.error text))) :
      Settles aim registry (channels ++ channel :: later) (calls ++ [asked]) registry'
        (aim.acks registry.held channels ++ [.error text])

variable {registry₁ registry' : Registry} {calls dialogue : List Asked} {asked : Asked}
  {replies : List Reply}

/-- Without channels there is nothing to reach. -/
theorem Reaches.nil (aim : Aim) (registry : Registry) : aim.Reaches registry [] [] registry :=
  ⟨.nil, (after_nil aim _).symm, fun _ _ => rfl⟩

/-- A channel that is as it should be takes no call, and leaves the registry as it is. -/
theorem Reaches.met (h : aim.Reaches registry channels calls registry')
    (hmet : aim.Met registry.held channel) :
    aim.Reaches registry (channel :: channels) calls registry' := by
  have hdue : aim.due registry.held (channel :: channels) = aim.due registry.held channels :=
    if_pos hmet
  refine ⟨hdue ▸ h.calls, ?_, hdue ▸ h.untouched⟩
  rw [after_cons, hmet.after_eq]
  exact h.held

/-- A channel that is not as it should be takes one call, and the others follow from what this one
leaves. -/
theorem Reaches.granted (h : aim.Reaches registry₁ channels calls registry')
    (hmet : ¬ aim.Met registry.held channel) (hasks : aim.Asks registry channel asked.call)
    (hfine : asked.alarm? = none) (hheld : registry₁.held = aim.after registry.held [channel])
    (hframe : ∀ other ≠ channel, registry₁[other]? = registry[other]?) :
    aim.Reaches registry (channel :: channels) (asked :: calls) registry' := by
  have hdue : aim.due registry.held (channel :: channels) =
      channel :: aim.due registry₁.held channels := by
    rw [hheld]
    exact if_neg hmet
  -- The channel has been dealt with, so that all other calls are about other channels.
  have hne : ∀ other ∈ aim.due registry₁.held channels, other ≠ channel := by
    rintro other hother rfl
    refine not_mem_due ?_ channels hother
    rw [hheld]
    exact met_after aim _ (List.mem_singleton_self _)
  refine ⟨?_, ?_, fun other hother => ?_⟩
  · rw [hdue]
    refine .cons ⟨hasks, hfine⟩ ?_
    refine (List.forall₂_and_left _ _ |>.mpr ⟨hne, h.calls⟩).imp ?_
    rintro other asked ⟨hother, hother_asks, hother_fine⟩
    exact ⟨hother_asks.of_eq (hframe other hother), hother_fine⟩
  · rw [after_cons, ← hheld]
    exact h.held
  · rw [hdue] at hother
    obtain ⟨hfirst, hlater⟩ := not_or.mp (mt List.mem_cons.mpr hother)
    exact (h.untouched other hlater).trans (hframe other hfirst)

/-- A channel that is as it should be is acknowledged in front of the others, with the count as it
stands. -/
theorem Settles.met (h : aim.Settles registry channels dialogue registry' replies)
    (hmet : aim.Met registry.held channel) :
    aim.Settles registry (channel :: channels) dialogue registry'
      (aim.ack channel registry.held.card :: replies) := by
  have hacks : ∀ channels, aim.ack channel registry.held.card :: aim.acks registry.held channels =
      aim.acks registry.held (channel :: channels) := fun channels => by
    rw [acks_cons, hmet.after_eq]
  cases h with
  | all hreaches =>
      rw [hacks]
      exact .all (hreaches.met hmet)
  | refused hreaches hdue hasks hfails =>
      rw [← List.cons_append, ← List.cons_append, hacks]
      refine .refused (hreaches.met hmet) ?_ hasks hfails
      rwa [after_cons, hmet.after_eq]

/-- A channel whose call is granted is acknowledged in front of the others, with the count behind
it. -/
theorem Settles.granted (h : aim.Settles registry₁ channels dialogue registry' replies)
    (hmet : ¬ aim.Met registry.held channel) (hasks : aim.Asks registry channel asked.call)
    (hfine : asked.alarm? = none) (hheld : registry₁.held = aim.after registry.held [channel])
    (hframe : ∀ other ≠ channel, registry₁[other]? = registry[other]?) :
    aim.Settles registry (channel :: channels) (asked :: dialogue) registry'
      (aim.ack channel registry₁.held.card :: replies) := by
  have hacks : ∀ channels,
      aim.ack channel registry₁.held.card :: aim.acks registry₁.held channels =
        aim.acks registry.held (channel :: channels) := fun channels => by
    rw [acks_cons, hheld]
  cases h with
  | all hreaches =>
      rw [hacks]
      exact .all (hreaches.granted hmet hasks hfine hheld hframe)
  | @refused _ other _ _ _ _ _ hreaches hdue hother hfails =>
      rw [← List.cons_append, ← List.cons_append, ← List.cons_append, hacks]
      have hne : other ≠ channel := by
        rintro rfl
        refine hdue (Met.after ?_ _)
        rw [hheld]
        exact met_after aim _ (List.mem_singleton_self _)
      refine .refused (hreaches.granted hmet hasks hfine hheld hframe) ?_
        (hother.of_eq (hframe other hne)) hfails
      rwa [after_cons, ← hheld]

/-- One channel that is as it should be is acknowledged at once. -/
theorem pursue_of_met (hmet : aim.Met registry.held channel) (acks : List Reply)
    (channels : List Bytes) : aim.pursue registry acks (channel :: channels) =
      aim.pursue registry (aim.ack channel registry.held.card :: acks) channels := by
  rw [card_held]
  cases aim with
  | joined =>
      rw [pursue, subscribe, if_pos (Std.ExtTreeMap.contains_iff_mem.mpr (mem_held.mp hmet))]
      rfl
  | left =>
      rw [pursue, leave, Std.ExtTreeMap.getElem?_eq_none (mt mem_held.mpr hmet)]
      rfl

/-- The course for one channel that is not as it should be. -/
theorem unfolds_pursue_of_not_met {acks : List Reply} {completion : Completion}
    (hmet : ¬ aim.Met registry.held channel)
    (h : (aim.pursue registry acks (channel :: channels)).Unfolds dialogue completion) :
    ∃ asked, aim.Asks registry channel asked.call ∧
      ((∃ registry₁ behind, asked.alarm? = none ∧
        registry₁.held = aim.after registry.held [channel] ∧
        (∀ other ≠ channel, registry₁[other]? = registry[other]?) ∧
        dialogue = asked :: behind ∧
        (aim.pursue registry₁ (aim.ack channel registry₁.held.card :: acks) channels).Unfolds
          behind completion) ∨
      ∃ text, asked.alarm? = some (.complaint registry (.error text)) ∧ dialogue = [asked] ∧
        completion = registry.complete (.error text :: acks)) := by
  cases aim with
  | joined =>
      have hnew : ¬ registry.contains channel = true := fun hcontains =>
        hmet (mem_held.mpr (Std.ExtTreeMap.contains_iff_mem.mp hcontains))
      rw [pursue, subscribe, if_neg hnew] at h
      cases h with
      | @call _ _ _ answer behind _ hnext =>
          refine ⟨⟨registry, .listen channel, answer⟩, rfl, ?_⟩
          cases answer with
          | ok id =>
              refine .inl ⟨Std.ExtTreeMap.insert registry channel id, behind, rfl, ?_,
                fun other hother => ?_, rfl, ?_⟩
              · rw [held_insert, after_joined]
              · rw [Std.ExtTreeMap.getElem?_insert, if_neg]
                rw [Std.compare_eq_iff_eq]
                exact hother.symm
              · rw [card_held]
                exact hnext
          | error e =>
              cases hnext with
              | done => exact .inr ⟨_, rfl, rfl, rfl⟩
  | left =>
      have hmem : channel ∈ registry := mem_held.mp (not_not.mp hmet)
      obtain ⟨id, hid⟩ :=
        Option.isSome_iff_exists.mp (Std.ExtTreeMap.mem_iff_isSome_getElem?.mp hmem)
      rw [pursue, leave, hid] at h
      cases h with
      | @call _ _ _ answer behind _ hnext =>
          refine ⟨⟨registry, .unlisten id, answer⟩, ⟨id, hid, rfl⟩, ?_⟩
          cases answer with
          | ok _ =>
              refine .inl ⟨Std.ExtTreeMap.erase registry channel, behind, rfl, ?_,
                fun other hother => ?_, rfl, ?_⟩
              · rw [held_erase, after_left]
              · rw [Std.ExtTreeMap.getElem?_erase, if_neg]
                rw [Std.compare_eq_iff_eq]
                exact hother.symm
              · rw [card_held]
                exact hnext
          | error e =>
              cases hnext with
              | done => exact .inr ⟨_, rfl, rfl, rfl⟩

/-- Whatever a store answers, a change of subscriptions is settled. -/
theorem settles_pursue {acks : List Reply} {completion : Completion}
    (h : (aim.pursue registry acks channels).Unfolds dialogue completion) :
    ∃ registry' replies, aim.Settles registry channels dialogue registry' replies ∧
      completion = registry'.complete (replies.reverse ++ acks) := by
  induction channels generalizing registry acks dialogue with
  | nil =>
      have hdone : aim.pursue registry acks [] = .done (registry.complete acks) := by
        cases aim with
        | joined => rfl
        | left => rfl
      rw [hdone] at h
      cases h with
      | done => exact ⟨registry, [], .all (.nil aim registry), rfl⟩
  | cons channel channels ih =>
      by_cases hmet : aim.Met registry.held channel
      · rw [pursue_of_met hmet] at h
        obtain ⟨registry', replies, hsettles, rfl⟩ := ih h
        refine ⟨registry', _, hsettles.met hmet, ?_⟩
        rw [List.reverse_cons, List.append_assoc, List.singleton_append]
      · obtain ⟨asked, hasks, ⟨registry₁, behind, hfine, hheld, hframe, rfl, hnext⟩ |
          ⟨text, hfails, rfl, rfl⟩⟩ := unfolds_pursue_of_not_met hmet h
        · obtain ⟨registry', replies, hsettles, rfl⟩ := ih hnext
          refine ⟨registry', _, hsettles.granted hmet hasks hfine hheld hframe, ?_⟩
          rw [List.reverse_cons, List.append_assoc, List.singleton_append]
        · refine ⟨registry, [.error text], ?_, rfl⟩
          exact .refused (.nil aim registry) ((after_nil aim _).symm ▸ hmet) hasks hfails

end Aim

/-! ### Leaving everything -/

variable {registry : Registry}

/-- Leaving channels that are all subscribed, once each, counts down. -/
theorem acks_left_of_nodup {held : Finset Bytes} {channels : List Bytes} (hnodup : channels.Nodup)
    (hsub : channels.toFinset ⊆ held) : Aim.left.acks held channels =
      channels.mapIdx fun i channel => .unsubscribed (some channel) (held.card - 1 - i) := by
  have hcount : ∀ i < channels.length,
      (Aim.left.after held (channels.take (i + 1))).card = held.card - 1 - i := by
    intro i hi
    have htake : (channels.take (i + 1)).toFinset ⊆ held := fun channel hchannel =>
      hsub (List.mem_toFinset.mpr (List.mem_of_mem_take (List.mem_toFinset.mp hchannel)))
    have hcard : (channels.take (i + 1)).toFinset.card = i + 1 := by
      rw [List.toFinset_card_of_nodup (hnodup.sublist (List.take_sublist _ _)),
        List.length_take_of_le hi]
    rw [Aim.after, Finset.card_sdiff_of_subset htake, hcard]
    omega
  refine List.ext_getElem (by rw [Aim.acks, List.length_mapIdx, List.length_mapIdx])
    fun i hi _ => ?_
  rw [Aim.acks, List.length_mapIdx] at hi
  simp only [Aim.acks, List.getElem_mapIdx, hcount i hi]
  rfl

/-- However far one comes with leaving all channels, the counts are one less each. -/
theorem acks_channels {channels later : List Bytes} (h : registry.channels = channels ++ later) :
    Aim.left.acks registry.held channels =
      channels.mapIdx fun i channel =>
        .unsubscribed (some channel) (registry.held.card - 1 - i) := by
  have hsub : channels.Sublist registry.channels := h ▸ List.sublist_append_left channels later
  refine acks_left_of_nodup (registry.nodup_channels.sublist hsub) fun channel hchannel => ?_
  exact List.mem_toFinset.mpr (hsub.subset (List.mem_toFinset.mp hchannel))

/-- There is no channel to leave just when the set is empty. -/
theorem channels_eq_nil_iff : registry.channels = [] ↔ registry.held = ∅ := by
  rw [held, List.toFinset_eq_empty_iff]

/-- Leaving all channels leaves none. -/
theorem after_channels (registry : Registry) :
    Aim.left.after registry.held registry.channels = ∅ :=
  Finset.sdiff_self registry.held

namespace Aim

/-- Channels that are named are dealt with one after the other. -/
theorem start_eq_pursue {aim : Aim} {channels : List Bytes} (h : aim = .joined ∨ channels ≠ []) :
    aim.start registry channels = aim.pursue registry [] channels := by
  cases aim with
  | joined => rfl
  | left =>
      obtain ⟨channel, channels, rfl⟩ := List.exists_cons_of_ne_nil (h.resolve_left nofun)
      rfl

/-- When none is named, these are all that are subscribed. -/
theorem start_left_nil (h : registry.held.Nonempty) :
    left.start registry [] = left.pursue registry [] registry.channels := by
  have hne : registry.channels ≠ [] := fun hnil => h.ne_empty (channels_eq_nil_iff.mp hnil)
  rw [start, unsubscribe, List.isEmpty_nil, if_pos rfl]
  split
  · contradiction
  · rfl

/-- When none is named and none is subscribed, that alone is acknowledged, with the count zero. -/
theorem start_left_nil_of_empty (h : registry.held = ∅) :
    left.start registry [] = .done (registry.complete [.unsubscribed none 0]) := by
  rw [start, unsubscribe, List.isEmpty_nil, if_pos rfl, channels_eq_nil_iff.mpr h]

end Aim

end Registry

/-! ### Requests -/

namespace Handler

open Registry (Aim)

variable {h : Handler} {aim : Aim} {channels : List Bytes}

/-- A handler of a registry is a subscriber just when there are subscriptions. -/
theorem isSubscriber_ofRegistry (registry : Registry) :
    (ofRegistry registry).isSubscriber = true ↔ registry.held.Nonempty := by
  rw [Finset.nonempty_iff_ne_empty, ne_eq, Registry.held_eq_empty_iff,
    ← Std.ExtTreeMap.isEmpty_iff, ofRegistry]
  cases registry.isEmpty with
  | false => exact iff_of_true rfl Bool.false_ne_true
  | true => exact iff_of_false Bool.false_ne_true fun hne => hne rfl

/-- What is done for a command about subscriptions is the same in both modes. -/
theorem handle_command {request : Request}
    (hcommand : Command.ofRequest request = .ok (aim.command channels)) :
    h.handle request = Except.ok <$> aim.start h.registry channels := by
  rw [handle, hcommand]
  cases h with
  | normal =>
      cases aim with
      | joined => rfl
      | left => rfl
  | subscriber registry =>
      cases aim with
      | joined => rfl
      | left => rfl

/-- **Every channel is acknowledged with the number of subscriptions then held.** A request to
subscribe to channels or to leave some, in either mode, the channels being named in any order and
any number of times. It makes calls about listeners only, and comes to its end whatever they are
answered. Then this holds:

* The request does not fail, the connection goes on, and it is a subscriber just when there are
  subscriptions.
* The channels that are named are dealt with one after the other: each is acknowledged with the
  number of subscriptions once it and those before it have joined the set, or left it. There is one
  call for each channel that is not as it should be. If it fails, the error is the last reply, the
  set is the one that the channels before have led to, and nothing is done about those behind.
* When channels are to be left and none is named, it is as if all subscribed channels were named in
  ascending order. Their acknowledgements count down, and at the end the set is empty.
* When there are none to leave, this alone is acknowledged, without a channel, and no call is
  made. -/
theorem acknowledgements_exact {request : Request}
    (hcommand : Command.ofRequest request = .ok (aim.command channels)) :
    (∀ respond, ∃ dialogue result, (h.handle request).Unfolds dialogue result ∧
      Task.Answered respond dialogue) ∧
    (∀ dialogue result, (h.handle request).Unfolds dialogue result → ∃ registry' replies,
      result = .ok { handler := ofRegistry registry', reply := .many replies, close := false } ∧
      ((ofRegistry registry').isSubscriber = true ↔ registry'.held.Nonempty) ∧
      (aim = .joined ∨ channels ≠ [] →
        aim.Settles h.registry channels dialogue registry' replies) ∧
      (aim = .left → channels = [] → h.registry.held.Nonempty →
        aim.Settles h.registry h.registry.channels dialogue registry' replies) ∧
      (aim = .left → channels = [] → h.registry.held = ∅ →
        dialogue = [] ∧ registry'.held = ∅ ∧ replies = [.unsubscribed none 0])) ∧
    h.registry.channels.Pairwise (· < ·) ∧ h.registry.channels.toFinset = h.registry.held ∧
    Aim.left.after h.registry.held h.registry.channels = ∅ ∧
    ∀ front behind, h.registry.channels = front ++ behind →
      Aim.left.acks h.registry.held front = front.mapIdx fun i channel =>
        .unsubscribed (some channel) (h.registry.held.card - 1 - i) := by
  refine ⟨(h.handle request).exists_unfolds, fun dialogue result hunfolds => ?_,
    h.registry.sorted_channels, rfl, h.registry.after_channels,
    fun front behind => Registry.acks_channels⟩
  rw [handle_command hcommand] at hunfolds
  obtain ⟨completion, hstart, rfl⟩ := hunfolds.of_map
  -- The replies of a task that deals with one channel after the other.
  have hpursued : ∀ {pursued}, (aim.pursue h.registry [] pursued).Unfolds dialogue completion →
      ∃ registry' replies, aim.Settles h.registry pursued dialogue registry' replies ∧
        completion = { handler := ofRegistry registry', reply := .many replies } := by
    intro pursued hpursued
    obtain ⟨registry', replies, hsettles, rfl⟩ := Aim.settles_pursue hpursued
    refine ⟨registry', replies, hsettles, ?_⟩
    rw [Registry.complete, List.append_nil, List.reverse_reverse]
  by_cases hnamed : aim = .joined ∨ channels ≠ []
  · rw [Aim.start_eq_pursue hnamed] at hstart
    obtain ⟨registry', replies, hsettles, rfl⟩ := hpursued hstart
    have hnot : aim = .left → channels ≠ [] := by
      rintro rfl
      exact hnamed.resolve_left (by decide)
    exact ⟨registry', replies, rfl, isSubscriber_ofRegistry registry', fun _ => hsettles,
      fun haim hnil => absurd hnil (hnot haim), fun haim hnil => absurd hnil (hnot haim)⟩
  · obtain ⟨haim, hnil⟩ := not_or.mp hnamed
    obtain rfl : channels = [] := not_not.mp hnil
    obtain rfl : aim = .left := by
      cases aim with
      | joined => exact absurd rfl haim
      | left => rfl
    rcases h.registry.held.eq_empty_or_nonempty with hempty | hheld
    · rw [Aim.start_left_nil_of_empty hempty] at hstart
      cases hstart with
      | done =>
          exact ⟨h.registry, _, rfl, isSubscriber_ofRegistry _,
            fun hnamed' => absurd hnamed' hnamed,
            fun _ _ hheld => absurd hempty hheld.ne_empty, fun _ _ _ => ⟨rfl, hempty, rfl⟩⟩
    · rw [Aim.start_left_nil hheld] at hstart
      obtain ⟨registry', replies, hsettles, rfl⟩ := hpursued hstart
      exact ⟨registry', replies, rfl, isSubscriber_ofRegistry registry',
        fun hnamed' => absurd hnamed' hnamed, fun _ _ _ => hsettles,
        fun _ _ hempty => absurd hempty hheld.ne_empty⟩

/-- A subscriber of `b` subscribes to `a`, `b`, `a`, `c` and `d`, and gets no listener at `c`. -/
theorem acknowledgements_exact_refused :
    let registry : Registry := Std.ExtTreeMap.insert ∅ [98] 7
    let request : Request := ⟨Bytes.ofString "SUBSCRIBE", [[97], [98], [97], [99], [100]]⟩
    let replies : List Reply := [.subscribed [97] 2, .subscribed [98] 2, .subscribed [97] 2,
      .error "ERR Failed to subscribe to channel: store unavailable: boom"]
    Command.ofRequest request = .ok (Aim.joined.command request.args) ∧
    ∃ dialogue registry', dialogue.length = 2 ∧ registry'.held = {[97], [98]} ∧
      ((subscriber registry).handle request).Unfolds dialogue
        (.ok { handler := ofRegistry registry', reply := .many replies, close := false }) ∧
      Aim.joined.Settles registry request.args dialogue registry' replies := by
  intro registry request replies
  have hcommand : Command.ofRequest request = .ok (Aim.joined.command request.args) := by
    decide +kernel
  let registry' : Registry := Std.ExtTreeMap.insert registry [97] 9
  have hstart : (Except.ok <$> registry.subscribe [] request.args :
      Task (Except Fatal Completion)).Unfolds
      [⟨registry, .listen [97], .ok 9⟩, ⟨registry', .listen [99], .error (.unavailable "boom")⟩]
      (.ok { handler := ofRegistry registry', reply := .many replies, close := false }) :=
    .call _ (.call _ (.done _))
  have hunfolds := handle_command (h := subscriber registry) hcommand ▸ hstart
  obtain ⟨other, _, heq, -, hsettles, -⟩ := (acknowledgements_exact hcommand).2.1 _ _ hunfolds
  obtain ⟨hhandler, hreply, -⟩ := Completion.mk.inj (Except.ok.inj heq)
  obtain rfl := Reply.many.inj hreply
  obtain rfl : registry' = other := by
    rw [← registry_ofRegistry registry', hhandler, registry_ofRegistry]
  exact ⟨hcommand, _, registry', rfl, by decide +kernel, hunfolds, hsettles (.inl rfl)⟩

end Handler

end RespStore
