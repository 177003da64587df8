import Mathlib
import RespStore.Backend
import RespStore.Handler
import RespStore.Proofs.Apply
import RespStore.Proofs.Task

/-!
# Sizes that can be counted

Lengths go on the wire as 64-bit signed integers. No byte string and no list in memory is
longer than that can count; `Bytes.Fits` and its companions say so of the byte strings of a
value, a store, a registry and a request. What a list operation takes off a list that fits
fits as well.

`Store.Serves` relates a call to the answers that it gets from such a store.
-/

namespace RespStore

/-- Whether the length of a byte string can be announced in front of it. -/
def Bytes.Fits (b : Bytes) : Prop := b.length < 2 ^ 63

/-- Whether byte strings and their number can be announced. -/
structure EachFits (items : List Bytes) : Prop where
  /-- Their number. -/
  length_lt : items.length < 2 ^ 63
  /-- Each of them. -/
  fits : ∀ item ∈ items, item.Fits

/-- Whether the byte strings of a value can be announced. -/
def Value.Fits : Value → Prop
  | .bytes content => content.Fits
  | .list items => EachFits items

/-- Whether every value of a store can be announced. -/
def Store.Fits (s : Store Subscriber) : Prop :=
  ∀ key value, s.get key = some value → value.Fits

/-- Whether every channel of a registry can be announced. -/
def Registry.Fits (registry : Registry) : Prop := ∀ channel ∈ registry, channel.Fits

/-- Whether every channel of a handler can be announced. -/
def Handler.Fits (h : Handler) : Prop := h.registry.Fits

/-- Whether the arguments of a request can be announced. -/
def Request.Fits (request : Request) : Prop := ∀ arg ∈ request.args, arg.Fits

/-- Whether a call gets an answer from some store that fits. Between two calls of a task
others may have used the store, so that nothing is said about which one it is. -/
def Store.Serves : Answers := fun request answer =>
  ∃ (s : Store Subscriber) (client : Nat), s.Fits ∧ (s.serve client request).answer = answer

/-! ### What list operations take off a list -/

namespace EachFits

/-- What is taken out of a list that fits, in its order, fits as well. -/
theorem of_sublist {items taken : List Bytes} (h : EachFits items) (hsub : taken.Sublist items) :
    EachFits taken where
  length_lt := Nat.lt_of_le_of_lt hsub.length_le h.length_lt
  fits item hitem := h.fits item (hsub.mem hitem)

/-- A list that fits fits in the other order. -/
theorem reverse {items : List Bytes} (h : EachFits items) : EachFits items.reverse where
  length_lt := by
    rw [List.length_reverse]
    exact h.length_lt
  fits item hitem := h.fits item (List.mem_reverse.mp hitem)

/-- A list of nothing fits. -/
theorem nil : EachFits [] := ⟨by decide, fun _ h => nomatch h⟩

end EachFits

namespace ListValue

variable {α : Type}

/-- An element that is found at an offset is one of the list. -/
theorem mem_of_index {items : List α} {offset : Int64} {item : α}
    (h : index items offset = some item) : item ∈ items := by
  simp only [index] at h
  split at h
  · exact List.mem_of_head? h
  · split at h
    · exact List.mem_of_getLast? h
    · split at h
      · split at h
        · exact nomatch h
        · exact List.mem_of_getElem? h
      · split at h
        · exact nomatch h
        · exact List.mem_reverse.mp (List.mem_of_getElem? h)

/-- The part of a list between two offsets has the order of the list. -/
theorem sublist_sublist (items : List α) (first last : Int64) :
    (sublist items first last).Sublist items := by
  rw [sublist]
  split
  · exact List.nil_sublist items
  · split
    · cases h : index items first with
      | none => exact List.nil_sublist items
      | some item => exact List.singleton_sublist.mpr (mem_of_index h)
    · have hitems : items.zipIdx.map Prod.fst = items := List.zipIdx_map_fst 0 items
      have hscan := ((List.takeWhile_sublist fun p : α × Nat =>
          Int64.ofNat p.2 ≤ fromHead (.ofNat items.length) last).trans
        (@List.dropWhile_sublist _ items.zipIdx fun p : α × Nat =>
          Int64.ofNat p.2 < fromHead (.ofNat items.length) first)).map Prod.fst
      rwa [hitems] at hscan

/-- What is taken off an end of a list has the order of the list. -/
theorem poll_sublist (items : List α) (side : ListEnd) (count : Nat) :
    (poll items side count).1.Sublist items := by
  unfold poll
  split
  · exact List.Sublist.refl items
  · cases side with
    | head => exact List.take_sublist count items
    | tail => exact List.drop_sublist _ items

end ListValue

/-! ### What a store that fits answers -/

namespace Store.Serves

variable {key : Bytes}

/-- Reading a key does not fail, and a value that is found fits. -/
theorem get {answer : Except StoreError (Option Value)} (h : Serves (.get key) answer) :
    ∃ value : Option Value, answer = .ok value ∧ ∀ v ∈ value, v.Fits := by
  obtain ⟨s, client, hs, rfl⟩ := h
  exact ⟨s.get key, rfl, fun v hv => hs key v hv⟩

/-- An apply answers what its transform makes of some value that fits. -/
theorem apply {transform : Transform} {answer : Except StoreError Output}
    (h : Serves (.apply key transform) answer) :
    ∃ value : Option Value, (∀ v ∈ value, v.Fits) ∧
      answer = (transform value).map Decision.output := by
  obtain ⟨s, client, hs, rfl⟩ := h
  exact ⟨s.get key, fun v hv => hs key v hv, s.result_apply key transform⟩

/-- A listener that is registered gets a number. -/
theorem listen {channel : Bytes} {answer : Except StoreError ListenerId}
    (h : Serves (.listen channel) answer) : ∃ id, answer = .ok id := by
  obtain ⟨s, client, hs, rfl⟩ := h
  exact ⟨s.nextListener, rfl⟩

/-- Taking a listener off does not fail. -/
theorem unlisten {id : ListenerId} {answer : Except StoreError Unit}
    (h : Serves (.unlisten id) answer) : answer = .ok () := by
  obtain ⟨s, client, hs, rfl⟩ := h
  rfl

end Store.Serves

/-- The list that a transform works on fits if the value does. -/
theorem Transform.eachFits_of_listOf {current : Option Value} {items : List Bytes}
    (hcurrent : ∀ v ∈ current, v.Fits) (h : listOf current = .ok (some items)) :
    EachFits items := by
  unfold listOf at h
  split at h
  · exact nomatch h
  · rename_i items'
    obtain rfl := Option.some.inj (Except.ok.inj h)
    exact hcurrent (.list items') rfl
  · exact nomatch h

end RespStore
