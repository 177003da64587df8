import RespStore.Proofs.EventLog
import RespStore.Proofs.Linearization

/-!
# What makes an attempt count

An attempt of an apply asks for a commit on the strength of a snapshot. It is discarded, and the
transform run again, when the key has another version by then. This module says exactly which
attempts are discarded, by the commits that fall between the snapshot and the end of the attempt,
whoever makes them and however they are interfered with themselves.

* `Contents.Touches` says that some commits create, modify or remove a key.
* `Store.Follows` is the invariant that all applies keep: a key that was touched is absent, or has a
  version that is greater than every version before. `Store.follows_applyFrom` is the induction.
* `Store.attempts` lists the attempts of an apply amid rivals, each with the commits that fell into
  it, and `Attempt.Discarded` is the condition.
* `Store.attempts_exact` is the main result.

A version goes away with its entry. So there is one way for a key to be touched without a trace: it
was absent at the snapshot, and is absent at the end.
-/

namespace RespStore

/-! ### Keys that are touched -/

namespace Contents

/-- Whether one of some commits creates, modifies or removes a key. -/
def Touches (held : Contents) (cs : List Commit) (key : Bytes) : Prop :=
  ∃ e ∈ held.events cs, e.key = key

theorem not_touches_nil (held : Contents) (key : Bytes) : ¬ held.Touches [] key :=
  fun ⟨_, hmem, _⟩ => List.not_mem_nil hmem

/-- A key is touched by commits in two parts if one of the parts touches it. -/
theorem touches_append {held : Contents} {cs ds : List Commit} {key : Bytes} :
    held.Touches (cs ++ ds) key ↔ held.Touches cs key ∨ Touches (cs.foldl after held) ds key := by
  rw [Touches, events_append]
  constructor
  · rintro ⟨e, hmem, hkey⟩
    exact (List.mem_append.mp hmem).imp (⟨e, ·, hkey⟩) (⟨e, ·, hkey⟩)
  · rintro (⟨e, hmem, hkey⟩ | ⟨e, hmem, hkey⟩)
    · exact ⟨e, List.mem_append_left _ hmem, hkey⟩
    · exact ⟨e, List.mem_append_right _ hmem, hkey⟩

end Contents

/-- A transform that asks for no commit has none. -/
theorem Transform.commit?_of_not_writes {transform : Transform} {value : Option Value}
    (h : transform.writes value = false) (key : Bytes) : transform.commit? key value = none := by
  rw [writes] at h
  rw [commit?]
  split at h
  · rename_i e he
    rw [he]
  · rename_i output he
    rw [he]
    rfl
  · cases h

namespace Store

variable {τ : Type} {s s₀ s₁ : Store τ} {cs ds : List Commit} {key : Bytes} {transform : Transform}

/-- An update touches the key that its event is about. -/
theorem touches_commit {update : Update} {other : Bytes} :
    Contents.Touches s.get (update.commit? key).toList other ↔
      ∃ e, (s.commit key update).2 = some e ∧ e.key = other := by
  rw [Contents.Touches, Contents.events_toList, ← snd_commit]
  exact exists_congr fun e => and_congr_left fun _ => Option.mem_toList

/-! ### Stores that follow one another -/

/-- Whether a store comes about from another one by some commits. -/
structure Follows (s s₀ : Store τ) (cs : List Commit) : Prop where
  /-- Every key holds what the commits leave there. -/
  get_eq : s.get = cs.foldl Contents.after s₀.get
  /-- The counter has not gone back. -/
  commits_le : s₀.commits ≤ s.commits
  /-- A key that was touched has a new version, if it has one. -/
  fresh : ∀ {key : Bytes} {entry : Entry}, Contents.Touches s₀.get cs key →
    s.entries[key]? = some entry → s₀.commits < entry.version
  /-- A key that was not touched is as it was. -/
  same : ∀ {key : Bytes}, ¬ Contents.Touches s₀.get cs key → s.entries[key]? = s₀.entries[key]?

namespace Follows

theorem refl (s : Store τ) : s.Follows s [] :=
  ⟨rfl, Nat.le_refl _, fun h => absurd h (Contents.not_touches_nil _ _), fun _ => rfl⟩

/-- Commits in two parts: a key has its version from the last part that touches it. -/
theorem append (h₁ : s₁.Follows s₀ cs) (h : s.Follows s₁ ds) : s.Follows s₀ (cs ++ ds) where
  get_eq := by rw [List.foldl_append, ← h₁.get_eq, h.get_eq]
  commits_le := Nat.le_trans h₁.commits_le h.commits_le
  fresh := by
    intro key entry htouches hentry
    by_cases hlate : Contents.Touches s₁.get ds key
    · exact Nat.lt_of_le_of_lt h₁.commits_le (h.fresh hlate hentry)
    · rw [Contents.touches_append, ← h₁.get_eq, or_iff_left hlate] at htouches
      exact h₁.fresh htouches (h.same hlate ▸ hentry)
  same := by
    intro key hnot
    rw [Contents.touches_append, ← h₁.get_eq, not_or] at hnot
    exact (h.same hnot.2).trans (h₁.same hnot.1)

/-- A commit gives its key a version greater than all before, and other keys keep their entries. -/
theorem commit (s : Store τ) (key : Bytes) (update : Update) :
    (s.commit key update).1.Follows s (update.commit? key).toList where
  get_eq := (Outcome.Logs.commit (.ok .unit) key update []).get_eq
  commits_le := (IsLaterThan.commit s key update).commits_le
  fresh := by
    intro other entry htouches hentry
    obtain ⟨e, hevent, rfl⟩ := touches_commit.mp htouches
    cases update with
    | keep => cases hevent
    | put value =>
        obtain rfl := Option.some.inj hevent
        rw [Store.commit, getElem?_entries_put, if_pos rfl] at hentry
        obtain rfl := Option.some.inj hentry
        exact Nat.lt_succ_self _
    | remove =>
        rw [Store.commit] at hevent hentry
        split at hevent
        · rename_i hcontains
          obtain rfl := Option.some.inj hevent
          rw [if_pos hcontains, getElem?_entries_erase, if_pos rfl] at hentry
          cases hentry
        · cases hevent
  same := by
    intro other hnot
    by_cases hother : other = key
    · subst hother
      cases update with
      | keep => rfl
      | put value =>
          have htouches : Contents.Touches s.get (Update.commit? other (.put value)).toList other :=
            touches_commit.mpr ⟨_, rfl, rfl⟩
          exact absurd htouches hnot
      | remove =>
          rw [touches_commit, Store.commit] at hnot
          rw [Store.commit]
          split
          · rename_i hcontains
            rw [if_pos hcontains] at hnot
            exact absurd ⟨_, rfl, rfl⟩ hnot
          · rfl
    · exact entry_commit_of_ne s hother update

/-- A store that follows another one is later: a version that is old enough has not moved. -/
theorem isLaterThan (h : s.Follows s₀ cs) : s.IsLaterThan s₀ where
  commits_le := h.commits_le
  entry_of_version_le := by
    intro key entry hentry hle
    have hnot : ¬ Contents.Touches s₀.get cs key := fun htouches =>
      Nat.not_lt.mpr hle (h.fresh htouches hentry)
    exact h.same hnot ▸ hentry

/-- **What a version tells.** A key has another version just when it was touched, unless it was
absent before and is absent now. -/
theorem version_ne_iff (h : s.Follows s₀ cs) : s.version key ≠ s₀.version key ↔
    Contents.Touches s₀.get cs key ∧ (s₀.get key ≠ none ∨ s.get key ≠ none) := by
  constructor
  · intro hne
    refine ⟨Classical.byContradiction fun hnot => ?_, Classical.byContradiction fun hnone => ?_⟩
    · exact hne (congrArg (Option.map Entry.version) (h.same hnot))
    · obtain ⟨h₀, hnow⟩ := not_or.mp hnone
      refine hne ?_
      rw [version, version, Option.map_eq_none_iff.mp (Decidable.not_not.mp h₀),
        Option.map_eq_none_iff.mp (Decidable.not_not.mp hnow)]
  · rintro ⟨htouches, hpresent⟩ heq
    have hentry := h.isLaterThan.entry_eq heq
    have hget : s.get key = s₀.get key := congrArg (Option.map Entry.value) hentry
    rw [hget, or_self, get, ne_eq, Option.map_eq_none_iff] at hpresent
    obtain ⟨entry, h₀⟩ := Option.ne_none_iff_exists'.mp hpresent
    exact Nat.not_lt.mpr (s₀.version_le h₀) (h.fresh htouches (hentry.trans h₀))

end Follows

/-! ### The ends of attempts -/

/-- An apply that nobody interferes with makes the commit that its transform asks for, or none. -/
theorem follows_apply (s : Store τ) (key : Bytes) (transform : Transform) :
    (s.apply key transform).store.Follows s (transform.commit? key (s.get key)).toList := by
  rw [Transform.commit?]
  cases h : transform (s.get key) with
  | error e =>
      rw [apply_of_error h]
      exact .refl s
  | ok decision =>
      rw [apply_of_ok h]
      exact .commit s key decision.update

/-- An attempt that is not repeated commits what its transform asks for. -/
theorem follows_finish {outcome : Outcome τ} (h : s.IsLaterThan s₀)
    (hfinish : s.finish key transform s₀.entries[key]? = some outcome) :
    outcome.store.Follows s (transform.commit? key (s₀.get key)).toList := by
  obtain ⟨hwrites, hends⟩ | ⟨-, hentry, hends⟩ | ⟨-, -, hends⟩ := finish_cases h key transform
  · obtain rfl := Option.some.inj (hfinish.symm.trans hends)
    rw [Transform.commit?_of_not_writes hwrites]
    exact .refl s
  · obtain rfl := Option.some.inj (hfinish.symm.trans hends)
    have hget : s.get key = s₀.get key := congrArg (Option.map Entry.value) hentry
    exact hget ▸ s.follows_apply key transform
  · exact nomatch hfinish.symm.trans hends

/-- **Every apply keeps versions honest**, and so do its rivals. Induction on what the rivals do,
for all applies at once, since rivals are applies with rivals of their own. -/
theorem follows_applyFrom (rivals : Rivals) (key : Bytes) (transform : Transform)
    (h : s.IsLaterThan s₀) :
    (applyFrom key transform s₀.entries[key]? s rivals).store.Follows s
      (commitsFrom key transform s₀.entries[key]? s rivals) := by
  induction rivals generalizing key transform s₀ s with
  | none =>
      rw [applyFrom, commitsFrom]
      cases hfinish : s.finish key transform s₀.entries[key]? with
      | some outcome => exact follows_finish h hfinish
      | none => exact s.follows_apply key transform
  | call rivalKey rivalTransform amid more ihamid ihmore =>
      have hrival := ihamid rivalKey rivalTransform (.refl s)
      exact hrival.append (ihmore key transform (hrival.isLaterThan.trans h))
  | attempt later ih =>
      rw [applyFrom, commitsFrom]
      cases hfinish : s.finish key transform s₀.entries[key]? with
      | some outcome => exact follows_finish h hfinish
      | none => exact ih key transform (.refl s)

end Store

/-! ### Attempts -/

/-- An attempt of an apply. -/
structure Attempt (τ : Type) where
  /-- The store at the snapshot. -/
  before : Store τ
  /-- The commits between the snapshot and the end of the attempt. -/
  fallen : List Commit
  /-- The store at the end of the attempt. -/
  after : Store τ

namespace Attempt

variable {τ : Type}

/-- Whether an attempt of applying a transform to a key is to be repeated: it asks for a commit, and
meanwhile others have touched the key, which was present at the snapshot or is present now. -/
def Discarded (a : Attempt τ) (key : Bytes) (transform : Transform) : Prop :=
  transform.writes (a.before.get key) = true ∧ Contents.Touches a.before.get a.fallen key ∧
    (a.before.get key ≠ none ∨ a.after.get key ≠ none)

/-- The store behind an attempt that is not repeated. -/
def committed (a : Attempt τ) (key : Bytes) (transform : Transform) : Store τ :=
  if transform.writes (a.before.get key) then (a.after.apply key transform).store else a.after

/-- Whether attempts follow one another, from a store on: each takes its snapshot where the one
before has ended, and ends where the commits that fall into it lead to. -/
def Consecutive : Store τ → List (Attempt τ) → Prop
  | _, [] => True
  | s, a :: attempts => a.before = s ∧ a.after.get = a.fallen.foldl Contents.after s.get ∧
    Consecutive a.after attempts

end Attempt

namespace Store

variable {τ : Type}

/-- The attempts of an apply whose current attempt started from the store `start` and had the
commits `fallen` fall into it so far. -/
def attemptsFrom (key : Bytes) (transform : Transform) (start s : Store τ) (fallen : List Commit) :
    Rivals → List (Attempt τ)
  | .none =>
    match s.finish key transform start.entries[key]? with
    | some _ => [⟨start, fallen, s⟩]
    | none => [⟨start, fallen, s⟩, ⟨s, [], s⟩]
  | .call rivalKey rivalTransform amid more =>
    attemptsFrom key transform start (s.applyAmid rivalKey rivalTransform amid).store
      (fallen ++ s.commitsAmid rivalKey rivalTransform amid) more
  | .attempt later =>
    match s.finish key transform start.entries[key]? with
    | some _ => [⟨start, fallen, s⟩]
    | none => ⟨start, fallen, s⟩ :: attemptsFrom key transform s s [] later

/-- The attempts of an apply amid rivals. -/
def attempts (s : Store τ) (key : Bytes) (transform : Transform) (rivals : Rivals) :
    List (Attempt τ) :=
  attemptsFrom key transform s s [] rivals

/-- Whether these are the attempts of an apply with this outcome, from a store on, and all commits
that happen meanwhile. -/
structure Recounts (key : Bytes) (transform : Transform) (start : Store τ)
    (attempts : List (Attempt τ)) (outcome : Outcome τ) (commits : List Commit) : Prop where
  /-- The transform ran once in each attempt, on the value at its snapshot. -/
  seen_eq : outcome.seen = attempts.map fun a => a.before.get key
  /-- The attempts follow one another. -/
  consecutive : Attempt.Consecutive start attempts
  /-- All attempts but the last are discarded. The last one tells the outcome, and what happens are
  the commits that fall into the attempts, and then its own. -/
  ends : ∃ discarded last, attempts = discarded ++ [last] ∧
    (∀ a ∈ discarded, a.Discarded key transform) ∧ ¬ last.Discarded key transform ∧
    (transform.writes (last.before.get key) = true → last.after.get key = last.before.get key) ∧
    outcome.result = (transform (last.before.get key)).map Decision.output ∧
    outcome.store = last.committed key transform ∧
    commits = attempts.flatMap Attempt.fallen ++
      (transform.commit? key (last.before.get key)).toList

variable {s start : Store τ} {fallen commits : List Commit} {key : Bytes} {transform : Transform}
  {outcome : Outcome τ} {attempts : List (Attempt τ)}

/-- An attempt that is discarded comes before the others. -/
theorem Recounts.again (h : s.Follows start fallen)
    (hdiscarded : Attempt.Discarded ⟨start, fallen, s⟩ key transform)
    (hnext : Recounts key transform s attempts outcome commits) :
    Recounts key transform start (⟨start, fallen, s⟩ :: attempts)
      { outcome with seen := start.get key :: outcome.seen } (fallen ++ commits) := by
  obtain ⟨discarded, last, rfl, hall, hlast, hcurrent, hresult, hstore, rfl⟩ := hnext.ends
  refine ⟨congrArg (start.get key :: ·) hnext.seen_eq, ⟨rfl, h.get_eq, hnext.consecutive⟩,
    ⟨start, fallen, s⟩ :: discarded, last, rfl, List.forall_mem_cons.mpr ⟨hdiscarded, hall⟩, hlast,
    hcurrent, hresult, hstore, ?_⟩
  rw [List.flatMap_cons, List.append_assoc]

/-- An attempt that is not discarded is the last one. -/
theorem Recounts.last (h : s.Follows start fallen)
    (hfinish : s.finish key transform start.entries[key]? = some outcome) :
    Recounts key transform start [⟨start, fallen, s⟩] outcome
      (fallen ++ (transform.commit? key (start.get key)).toList) := by
  have hcommits : fallen ++ (transform.commit? key (start.get key)).toList =
      [⟨start, fallen, s⟩].flatMap (Attempt.fallen (τ := τ)) ++
        (transform.commit? key (start.get key)).toList := by
    rw [List.flatMap_singleton]
  have hseen : outcome.seen = [start.get key] := seen_finish hfinish
  refine ⟨hseen, ⟨rfl, h.get_eq, trivial⟩, [], _, rfl, List.forall_mem_nil _, ?_⟩
  obtain ⟨hwrites, hends⟩ | ⟨hwrites, hentry, hends⟩ | ⟨-, -, hends⟩ :=
    finish_cases h.isLaterThan key transform
  · obtain rfl := Option.some.inj (hfinish.symm.trans hends)
    refine ⟨fun hdiscarded => ?_, fun htrue => ?_, rfl, ?_, hcommits⟩
    · exact nomatch hwrites.symm.trans hdiscarded.1
    · exact nomatch hwrites.symm.trans htrue
    · exact (if_neg (Bool.eq_false_iff.mp hwrites)).symm
  · obtain rfl := Option.some.inj (hfinish.symm.trans hends)
    have hget : s.get key = start.get key := congrArg (Option.map Entry.value) hentry
    refine ⟨fun hdiscarded => ?_, fun _ => hget, ?_, ?_, hcommits⟩
    · exact h.version_ne_iff.mpr hdiscarded.2 (congrArg (Option.map Entry.version) hentry)
    · rw [result_apply, hget]
    · exact (if_pos hwrites).symm
  · exact nomatch hfinish.symm.trans hends

/-- An attempt without an outcome is one that is discarded. -/
theorem discarded_of_finish (h : s.Follows start fallen)
    (hfinish : s.finish key transform start.entries[key]? = none) :
    Attempt.Discarded ⟨start, fallen, s⟩ key transform := by
  obtain ⟨-, hends⟩ | ⟨-, -, hends⟩ | ⟨hwrites, hversion, -⟩ :=
    finish_cases h.isLaterThan key transform
  · exact nomatch hfinish.symm.trans hends
  · exact nomatch hfinish.symm.trans hends
  · exact ⟨hwrites, h.version_ne_iff.mp hversion⟩

/-- The attempts that an apply makes from some point of an attempt on. -/
theorem recounts_attemptsFrom (rivals : Rivals) (h : s.Follows start fallen) :
    Recounts key transform start (attemptsFrom key transform start s fallen rivals)
      (applyFrom key transform start.entries[key]? s rivals)
      (fallen ++ commitsFrom key transform start.entries[key]? s rivals) := by
  induction rivals generalizing start s fallen with
  | none =>
      rw [attemptsFrom, applyFrom, commitsFrom]
      cases hfinish : s.finish key transform start.entries[key]? with
      | some outcome => exact .last h hfinish
      | none =>
          have hnext := Recounts.last (.refl s) (s.finish_self key transform)
          exact .again h (discarded_of_finish h hfinish) hnext
  | call rivalKey rivalTransform amid more _ ihmore =>
      rw [commitsFrom, ← List.append_assoc]
      obtain ⟨hseen, hconsecutive, hends⟩ :=
        ihmore (h.append (follows_applyFrom amid rivalKey rivalTransform (.refl s)))
      exact ⟨hseen, hconsecutive, hends⟩
  | attempt later ih =>
      rw [attemptsFrom, applyFrom, commitsFrom]
      cases hfinish : s.finish key transform start.entries[key]? with
      | some outcome => exact .last h hfinish
      | none => exact .again h (discarded_of_finish h hfinish) (ih (.refl s))

/-- An attempt is discarded just when there is one behind it. -/
theorem Recounts.discarded_iff (h : Recounts key transform s attempts outcome commits)
    {front behind : List (Attempt τ)} {a : Attempt τ} (hsplit : attempts = front ++ a :: behind) :
    behind ≠ [] ↔ a.Discarded key transform := by
  obtain ⟨discarded, last, rfl, hall, hlast, -⟩ := h.ends
  rcases List.eq_nil_or_concat behind with rfl | ⟨between, final, rfl⟩
  · obtain ⟨-, heq⟩ := List.append_inj' hsplit rfl
    exact iff_of_false (fun hne => hne rfl) (List.singleton_inj.mp heq ▸ hlast)
  · rw [List.concat_eq_append, ← List.cons_append, ← List.append_assoc] at hsplit
    obtain ⟨rfl, -⟩ := List.append_inj' hsplit rfl
    refine iff_of_true ?_ (hall a (List.mem_append_right _ List.mem_cons_self))
    rw [List.concat_eq_append]
    exact List.append_ne_nil_of_right_ne_nil _ (List.cons_ne_nil _ _)

/-- **Which attempts count.** An apply of any transform to any key of any store, whatever rivals
commit meanwhile. Its attempts follow one another, and the transform runs once in each of them, on
what the key held at its snapshot. Then this holds:

* An attempt is discarded, and the transform run again on what is there by then, if and only if it
  asks for a commit, the key was created, modified or removed since the snapshot, and the key was
  present at the snapshot or is present at the end. So an attempt that asks for a commit while
  others touch the key counts just when the key is absent at both ends: others have created and
  removed it in between.
* The last attempt gives the answer. What it asks for is committed to the store at its end, where
  the key holds what the transform was run on.
* All commits that happen are those that fall into the attempts, and behind them the one of the last
  attempt. -/
theorem attempts_exact (s : Store τ) (key : Bytes) (transform : Transform) (rivals : Rivals) :
    let outcome := s.applyAmid key transform rivals
    let attempts := s.attempts key transform rivals
    outcome.seen = attempts.map (fun a => a.before.get key) ∧
    Attempt.Consecutive s attempts ∧
    (∀ front a behind, attempts = front ++ a :: behind →
      (behind ≠ [] ↔ transform.writes (a.before.get key) = true ∧
        Contents.Touches a.before.get a.fallen key ∧
        (a.before.get key ≠ none ∨ a.after.get key ≠ none))) ∧
    ∃ front last, attempts = front ++ [last] ∧
      (transform.writes (last.before.get key) = true →
        last.after.get key = last.before.get key ∧
        outcome.store = (last.after.apply key transform).store) ∧
      (transform.writes (last.before.get key) = false → outcome.store = last.after) ∧
      outcome.result = (transform (last.before.get key)).map Decision.output ∧
      s.commitsAmid key transform rivals = attempts.flatMap Attempt.fallen ++
        (transform.commit? key (last.before.get key)).toList := by
  intro outcome attempts
  have h : Recounts key transform s attempts outcome (s.commitsAmid key transform rivals) :=
    recounts_attemptsFrom rivals (.refl s)
  obtain ⟨front, last, hlast, -, -, hcurrent, hresult, hstore, hcommits⟩ := h.ends
  refine ⟨h.seen_eq, h.consecutive, fun _ _ _ hsplit => h.discarded_iff hsplit,
    front, last, hlast, fun hwrites => ⟨hcurrent hwrites, ?_⟩, fun hkeeps => ?_, hresult, hcommits⟩
  · exact hstore.trans (if_pos hwrites)
  · exact hstore.trans (if_neg (Bool.eq_false_iff.mp hkeeps))

/-- A rival creates and removes an absent key, and the attempt that this falls into counts. -/
theorem attempts_exact_unnoticed :
    let write (value : Bytes) : Transform := fun _ => .ok ⟨.put (.bytes value), .unit⟩
    let remove : Transform := fun _ => .ok ⟨.remove, .unit⟩
    let rivals : Rivals := .call [107] (write [1]) .none (.call [107] remove .none .none)
    let s : Store Unit := empty
    (s.applyAmid [107] (write [2]) rivals).seen = [none] ∧
      ∃ a, s.attempts [107] (write [2]) rivals = [a] ∧
        a.fallen = [⟨[107], some (.bytes [1])⟩, ⟨[107], none⟩] ∧
        Contents.Touches a.before.get a.fallen [107] ∧
        a.before.get [107] = none ∧ a.after.get [107] = none := by
  intro write remove rivals s
  have hone : (s.attempts [107] (write [2]) rivals).map Attempt.fallen =
      [[⟨[107], some (.bytes [1])⟩, ⟨[107], none⟩]] := by decide +kernel
  obtain ⟨a, ha, hfallen⟩ := List.map_eq_singleton_iff.mp hone
  obtain ⟨hseen, -, hexact, -⟩ := attempts_exact s [107] (write [2]) rivals
  have hnone : (s.applyAmid [107] (write [2]) rivals).seen = [none] := by decide +kernel
  have hbefore : a.before.get [107] = none := by
    rw [hnone, ha] at hseen
    exact (List.singleton_inj.mp hseen).symm
  have htouches : Contents.Touches a.before.get a.fallen [107] := by
    rw [hfallen, Contents.Touches, Contents.events, hbefore]
    exact ⟨_, List.mem_cons_self, rfl⟩
  refine ⟨hnone, a, ha, hfallen, htouches, hbefore, Classical.byContradiction fun hafter => ?_⟩
  exact (hexact [] a [] ha).mpr ⟨rfl, htouches, .inr hafter⟩ rfl

end Store

end RespStore
