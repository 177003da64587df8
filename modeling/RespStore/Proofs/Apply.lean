import RespStore.Store

/-!
# Applies that nobody interferes with

An apply while nobody else commits runs its transform once, on the value that the key has.
These are the facts about such an apply that everything else is told by: what it answers, what
it leaves behind, and that one which asks for no commit leaves everything as it was.
-/

namespace RespStore

/-- What every key holds. -/
abbrev Contents := Bytes → Option Value

/-- Whether a transform asks for a commit when it sees a value. -/
def Transform.writes (transform : Transform) (value : Option Value) : Bool :=
  match transform value with
  | .error _ => false
  | .ok ⟨.keep, _⟩ => false
  | .ok _ => true

/-- What a key holds once an update of it has been carried out. -/
def Update.leaves (update : Update) (held : Option Value) : Option Value :=
  match update with
  | .keep => held
  | .put value => some value
  | .remove => none

/-- What a key holds once a transform has been applied to it. -/
def Transform.leaves (transform : Transform) (held : Option Value) : Option Value :=
  match transform held with
  | .error _ => held
  | .ok decision => decision.update.leaves held

namespace Store

variable {τ : Type}

/-- A commit leaves the other keys as they are, with their versions. -/
theorem entry_commit_of_ne (s : Store τ) {key other : Bytes} (h : other ≠ key) (update : Update) :
    (s.commit key update).1.entries[other]? = s.entries[other]? := by
  cases update with
  | keep => rfl
  | put value => exact (getElem?_entries_put s key other value).trans (if_neg (Ne.symm h))
  | remove =>
      rw [commit]
      split
      · exact (getElem?_entries_erase s key other).trans (if_neg (Ne.symm h))
      · rfl

/-- A commit changes one key, to what the update says. -/
theorem get_commit (s : Store τ) (key : Bytes) (update : Update) (other : Bytes) :
    (s.commit key update).1.get other =
      if other = key then update.leaves (s.get key) else s.get other := by
  cases update with
  | keep =>
      change s.get other = if other = key then s.get key else s.get other
      split
      · rename_i heq
        rw [heq]
      · rfl
  | put value =>
      simp only [commit, get, getElem?_entries_put, Update.leaves, eq_comm (a := key)]
      split <;> rfl
  | remove =>
      simp only [commit, Update.leaves]
      split
      · simp only [get, getElem?_entries_erase, eq_comm (a := key)]
        split <;> rfl
      · rename_i habsent
        split
        · rename_i heq
          have hnone : s.entries[key]? = none := Std.ExtTreeMap.getElem?_eq_none habsent
          rw [heq, get, hnone]
          rfl
        · rfl

/-- An apply whose transform fails leaves the store alone and tells nobody. -/
theorem apply_of_error {s : Store τ} {key : Bytes} {transform : Transform} {e : StoreError}
    (h : transform (s.get key) = .error e) :
    s.apply key transform = ⟨.error e, s, [], [s.get key]⟩ := by
  simp only [apply, h]

/-- An apply whose transform decides commits the update of that decision, and the listeners that are
registered hear what the commit did. -/
theorem apply_of_ok {s : Store τ} {key : Bytes} {transform : Transform} {decision : Decision}
    (h : transform (s.get key) = .ok decision) :
    s.apply key transform = ⟨.ok decision.output, (s.commit key decision.update).1,
      ((s.commit key decision.update).2.map (s.commit key decision.update).1.noticesOf).getD [],
      [s.get key]⟩ := by
  simp only [apply, h]

/-- An apply answers what its transform makes of the value of the key. -/
theorem result_apply (s : Store τ) (key : Bytes) (transform : Transform) :
    (s.apply key transform).result = (transform (s.get key)).map Decision.output := by
  cases h : transform (s.get key) with
  | error e => rw [apply_of_error h]; rfl
  | ok decision => rw [apply_of_ok h]; rfl

/-- An apply leaves the other keys as they are, with their versions. -/
theorem entry_apply_of_ne (s : Store τ) {key other : Bytes} (h : other ≠ key)
    (transform : Transform) :
    (s.apply key transform).store.entries[other]? = s.entries[other]? := by
  cases hdecision : transform (s.get key) with
  | error e => rw [apply_of_error hdecision]
  | ok decision =>
      rw [apply_of_ok hdecision]
      exact entry_commit_of_ne s h decision.update

/-- An apply changes one key, to what its transform makes of the value of the key. -/
theorem get_apply (s : Store τ) (key : Bytes) (transform : Transform) (other : Bytes) :
    (s.apply key transform).store.get other =
      if other = key then transform.leaves (s.get key) else s.get other := by
  split
  · rename_i heq
    subst heq
    rw [Transform.leaves]
    cases hdecision : transform (s.get other) with
    | error e => rw [apply_of_error hdecision]
    | ok decision => rw [apply_of_ok hdecision, get_commit, if_pos rfl]
  · rename_i hne
    exact congrArg (Option.map Entry.value) (entry_apply_of_ne s hne transform)

/-- An apply without rivals runs its transform once, on the value of the key. -/
theorem seen_apply (s : Store τ) (key : Bytes) (transform : Transform) :
    (s.apply key transform).seen = [s.get key] := by
  cases h : transform (s.get key) with
  | error e => rw [apply_of_error h]
  | ok decision => rw [apply_of_ok h]

/-- An apply that asks for no commit leaves the store alone, and nobody hears of it. -/
theorem apply_of_not_writes {s : Store τ} {key : Bytes} {transform : Transform}
    (h : transform.writes (s.get key) = false) :
    (s.apply key transform).store = s ∧ (s.apply key transform).notices = [] := by
  rw [Transform.writes] at h
  split at h
  · rename_i e he
    rw [apply_of_error he]
    exact ⟨rfl, rfl⟩
  · rename_i output he
    rw [apply_of_ok he]
    exact ⟨rfl, rfl⟩
  · exact absurd h (by simp)

end Store

end RespStore
