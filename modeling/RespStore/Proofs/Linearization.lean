import RespStore.Proofs.Apply

/-!
# Applies take effect at one moment

An apply may be interfered with by rivals, and these by rivals of their own. This module shows
that nobody can tell: whatever the rivals do, the outcome is that of a sequence of applies
that nobody interferes with, in which each rival that took place and the apply itself stand
exactly once.

* `Store.replay` carries out such a sequence.
* `Store.placement` says where the apply stands in it. An apply that commits stands behind
  every rival that took place. One that changes nothing stands where its last attempt took its
  snapshot, in front of the rivals that fell into that attempt.
* `Store.took` lists the rivals that took place, in the order in which they were called.

The argument rests on `Store.IsLaterThan.entry_eq`: versions come from a counter that only
grows, so a key that has the version of a snapshot, or is absent as it was then, holds what it
held then.

What the applies of the sequence do is said by `Store.get_apply` and `Store.result_apply`: each
changes its own key, to what its transform makes of the value there, and answers accordingly.
`Store.finish_self` says that such an apply is nothing but an attempt without rivals. So the last
attempt of an apply, behind which no rival is left, cannot fail to commit.
-/

namespace RespStore

/-- A key, and a transform that is applied to it. -/
structure Change where
  /-- The key. -/
  key : Bytes
  /-- The transform. -/
  transform : Transform

/-- Where an apply stands among the rivals that took place. Both lists are in the order in
which the rivals took effect. -/
structure Placement where
  /-- The rivals that took effect before the apply. -/
  before : List Change
  /-- The rivals that took effect after it. -/
  after : List Change

namespace Placement

/-- The rivals, with the apply itself in its place. -/
def around (p : Placement) (change : Change) : List Change := p.before ++ change :: p.after

/-- The placement of an apply whose last attempt ran on `value`, among the rivals that fell
into that attempt. -/
def ofAttempt (transform : Transform) (value : Option Value) (fallen : List Change) : Placement :=
  if transform.writes value then ⟨fallen, []⟩ else ⟨[], fallen⟩

/-- The placement of an attempt holds the rivals that fell into it, in their order. -/
theorem append_ofAttempt (transform : Transform) (value : Option Value) (fallen : List Change) :
    (ofAttempt transform value fallen).before ++ (ofAttempt transform value fallen).after =
      fallen := by
  rw [ofAttempt]
  split
  · exact List.append_nil _
  · rfl

/-- The placement once more rivals are known to have taken effect before. -/
def behind (p : Placement) (earlier : List Change) : Placement := ⟨earlier ++ p.before, p.after⟩

end Placement

/-- How many attempts of an apply its rivals fall into at most. -/
def Rivals.rounds : Rivals → Nat
  | .none => 1
  | .call _ _ _ more => more.rounds
  | .attempt later => later.rounds + 1

namespace Store

variable {τ : Type}

/-- Carries out several applies, one after the other and with nobody in between. Answers the
store and the notices that went out. -/
def replay (s : Store τ) : List Change → Store τ × List (Notice τ)
  | [] => (s, [])
  | c :: cs =>
    let outcome := s.apply c.key c.transform
    let rest := replay outcome.store cs
    (rest.1, outcome.notices ++ rest.2)

/-- The placement of an apply whose current attempt runs on the snapshot `seen`, and into
which the rivals `fallen` fell so far. -/
def placementFrom (key : Bytes) (transform : Transform) (seen : Option Entry) (s : Store τ)
    (fallen : List Change) : Rivals → Placement
  | .none =>
    match s.finish key transform seen with
    | some _ => .ofAttempt transform (seen.map Entry.value) fallen
    | none => ⟨fallen, []⟩
  | .call rivalKey rivalTransform amid more =>
    let rival := applyFrom rivalKey rivalTransform s.entries[rivalKey]? s amid
    let place := placementFrom rivalKey rivalTransform s.entries[rivalKey]? s [] amid
    placementFrom key transform seen rival.store
      (fallen ++ place.around ⟨rivalKey, rivalTransform⟩) more
  | .attempt later =>
    match s.finish key transform seen with
    | some _ => .ofAttempt transform (seen.map Entry.value) fallen
    | none => (placementFrom key transform s.entries[key]? s [] later).behind fallen

/-- The placement of an apply among the rivals that took place. -/
def placement (s : Store τ) (key : Bytes) (transform : Transform) (rivals : Rivals) : Placement :=
  placementFrom key transform s.entries[key]? s [] rivals

/-- The rivals that take place from the current attempt on, each behind those that it is
interfered with by itself. What is left of a schedule once the apply is over takes no place. -/
def tookFrom (key : Bytes) (transform : Transform) (seen : Option Entry) (s : Store τ) :
    Rivals → List Change
  | .none => []
  | .call rivalKey rivalTransform amid more =>
    let rival := applyFrom rivalKey rivalTransform s.entries[rivalKey]? s amid
    tookFrom rivalKey rivalTransform s.entries[rivalKey]? s amid ++
      ⟨rivalKey, rivalTransform⟩ :: tookFrom key transform seen rival.store more
  | .attempt later =>
    match s.finish key transform seen with
    | some _ => []
    | none => tookFrom key transform s.entries[key]? s later

/-- The rivals of an apply that take place. -/
def took (s : Store τ) (key : Bytes) (transform : Transform) (rivals : Rivals) : List Change :=
  tookFrom key transform s.entries[key]? s rivals

section Call

variable (key rivalKey : Bytes) (transform rivalTransform : Transform) (seen : Option Entry)
  (s : Store τ) (fallen : List Change) (amid more : Rivals)

/-- An apply into whose attempt a rival falls goes on with the store that the rival leaves, behind
its notices. -/
theorem applyFrom_call :
    applyFrom key transform seen s (.call rivalKey rivalTransform amid more) =
      { applyFrom key transform seen (s.applyAmid rivalKey rivalTransform amid).store more with
        notices := (s.applyAmid rivalKey rivalTransform amid).notices ++
          (applyFrom key transform seen
            (s.applyAmid rivalKey rivalTransform amid).store more).notices } := rfl

theorem placementFrom_call :
    placementFrom key transform seen s fallen (.call rivalKey rivalTransform amid more) =
      placementFrom key transform seen (s.applyAmid rivalKey rivalTransform amid).store
        (fallen ++ (s.placement rivalKey rivalTransform amid).around ⟨rivalKey, rivalTransform⟩)
        more := rfl

theorem tookFrom_call :
    tookFrom key transform seen s (.call rivalKey rivalTransform amid more) =
      s.took rivalKey rivalTransform amid ++ ⟨rivalKey, rivalTransform⟩ ::
        tookFrom key transform seen (s.applyAmid rivalKey rivalTransform amid).store more := rfl

end Call

/-! ### Sequences of applies -/

/-- Applies behind others are carried out on what these leave. -/
theorem replay_append (s : Store τ) (cs ds : List Change) :
    s.replay (cs ++ ds) =
      (((s.replay cs).1.replay ds).1, (s.replay cs).2 ++ ((s.replay cs).1.replay ds).2) := by
  induction cs generalizing s with
  | nil => rfl
  | cons c cs ih => simp only [List.cons_append, replay, ih, List.append_assoc]

/-- A sequence of one apply does what that apply does. -/
theorem replay_singleton (s : Store τ) (c : Change) :
    s.replay [c] = ((s.apply c.key c.transform).store, (s.apply c.key c.transform).notices) := by
  simp only [replay, List.append_nil]

/-! ### Versions tell values apart -/

/-- Whether a store can have come about from another one: no commit has been taken back, and
an entry as old as the other store is an entry of the other store. -/
structure IsLaterThan (s s₀ : Store τ) : Prop where
  /-- The counter has not gone back. -/
  commits_le : s₀.commits ≤ s.commits
  /-- What was committed before has stayed as it was. -/
  entry_of_version_le : ∀ {key : Bytes} {entry : Entry},
    s.entries[key]? = some entry → entry.version ≤ s₀.commits → s₀.entries[key]? = some entry

namespace IsLaterThan

theorem refl (s : Store τ) : s.IsLaterThan s := ⟨Nat.le_refl _, fun h _ => h⟩

/-- What came about from a store that came about from another one came about from that one. -/
theorem trans {s s₁ s₀ : Store τ} (h : s.IsLaterThan s₁) (h₁ : s₁.IsLaterThan s₀) :
    s.IsLaterThan s₀ where
  commits_le := Nat.le_trans h₁.commits_le h.commits_le
  entry_of_version_le hentry hle :=
    h₁.entry_of_version_le (h.entry_of_version_le hentry (Nat.le_trans hle h₁.commits_le)) hle

/-- A value that is stored has a greater version than all before it. -/
theorem put (s : Store τ) (key : Bytes) (value : Value) : (s.put key value).IsLaterThan s where
  commits_le := Nat.le_succ _
  entry_of_version_le := by
    intro other entry h hle
    rw [getElem?_entries_put] at h
    split at h
    · obtain rfl := Option.some.inj h
      exact absurd hle (by simp)
    · exact h

/-- A key that is taken off leaves the others with their versions. -/
theorem erase (s : Store τ) (key : Bytes) : (s.erase key).IsLaterThan s where
  commits_le := Nat.le_refl _
  entry_of_version_le := by
    intro other entry h hle
    rw [getElem?_entries_erase] at h
    split at h
    · exact absurd h (by simp)
    · exact h

/-- A commit takes back none before it. -/
theorem commit (s : Store τ) (key : Bytes) (update : Update) :
    (s.commit key update).1.IsLaterThan s := by
  cases update with
  | keep => exact refl s
  | put value => exact put s key value
  | remove =>
      simp only [Store.commit]
      split
      · exact erase s key
      · exact refl s

/-- An apply takes back no commit. -/
theorem apply (s : Store τ) (key : Bytes) (transform : Transform) :
    (s.apply key transform).store.IsLaterThan s := by
  cases h : transform (s.get key) with
  | error e => exact apply_of_error h ▸ refl s
  | ok decision => exact apply_of_ok h ▸ commit s key decision.update

/-- A sequence of applies takes back no commit. -/
theorem replay (s : Store τ) (cs : List Change) : (s.replay cs).1.IsLaterThan s := by
  induction cs generalizing s with
  | nil => exact refl s
  | cons c cs ih => exact (ih _).trans (apply s c.key c.transform)

/-- **Equal versions mean equal entries.** A key whose version is that of an earlier store, or
which is absent as it was there, has the entry that it had there. -/
theorem entry_eq {s s₀ : Store τ} (h : s.IsLaterThan s₀) {key : Bytes}
    (hversion : s.version key = s₀.version key) : s.entries[key]? = s₀.entries[key]? := by
  unfold version at hversion
  cases h₀ : s₀.entries[key]? with
  | none =>
      rw [h₀, Option.map_none, Option.map_eq_none_iff] at hversion
      exact hversion
  | some entry₀ =>
      rw [h₀, Option.map_some, Option.map_eq_some_iff] at hversion
      obtain ⟨entry, hentry, hv⟩ := hversion
      have hold : s₀.entries[key]? = some entry :=
        h.entry_of_version_le hentry (hv ▸ s₀.version_le h₀)
      rw [hentry, ← hold, h₀]

end IsLaterThan

/-! ### The end of an attempt -/

/-- An attempt that asks for no commit ends its apply, whatever has become of the key. -/
theorem finish_of_not_writes (s : Store τ) (key : Bytes) {transform : Transform}
    {seen : Option Entry} (h : transform.writes (seen.map Entry.value) = false) :
    s.finish key transform seen =
      some ⟨(transform (seen.map Entry.value)).map Decision.output, s, [],
        [seen.map Entry.value]⟩ := by
  rw [Transform.writes] at h
  rw [finish]
  split at h
  · rename_i e he
    simp only [he, Except.map]
  · rename_i output he
    simp only [he, Except.map]
  · exact absurd h (by simp)

/-- An attempt that asks for a commit, on a key that has not changed since, does what an apply
does that nobody interferes with. -/
theorem finish_of_entry_eq {s : Store τ} {key : Bytes} {transform : Transform}
    {seen : Option Entry} (h : transform.writes (seen.map Entry.value) = true)
    (hentry : s.entries[key]? = seen) :
    s.finish key transform seen = some (s.apply key transform) := by
  subst hentry
  rw [Transform.writes] at h
  rw [finish, apply, get]
  split at h
  · exact absurd h (by simp)
  · exact absurd h (by simp)
  · rename_i decision hkeep he
    obtain ⟨update, output⟩ := decision
    cases update with
    | keep => exact absurd rfl (hkeep output)
    | put value => simp only [he, version, if_true]
    | remove => simp only [he, version, if_true]

/-- An attempt whose snapshot is still what is there ends, and does what an apply does that nobody
interferes with. So an apply without rivals is one attempt, and an attempt that is repeated once all
rivals are done is the last one. -/
theorem finish_self (s : Store τ) (key : Bytes) (transform : Transform) :
    s.finish key transform s.entries[key]? = some (s.apply key transform) := by
  cases hwrites : transform.writes (s.get key) with
  | true => exact finish_of_entry_eq hwrites rfl
  | false =>
      obtain ⟨hstore, hnotices⟩ := apply_of_not_writes hwrites
      have happly : s.apply key transform = ⟨(s.apply key transform).result,
        (s.apply key transform).store, (s.apply key transform).notices,
        (s.apply key transform).seen⟩ := rfl
      rw [finish_of_not_writes s key hwrites, happly, hstore, hnotices, result_apply, seen_apply]
      rfl

/-- An attempt that asks for a commit, on a key that has another version by now, is repeated. -/
theorem finish_of_version_ne {s : Store τ} {key : Bytes} {transform : Transform}
    {seen : Option Entry} (h : transform.writes (seen.map Entry.value) = true)
    (hversion : s.version key ≠ seen.map Entry.version) :
    s.finish key transform seen = none := by
  rw [Transform.writes] at h
  rw [finish]
  split at h
  · exact absurd h (by simp)
  · exact absurd h (by simp)
  · rename_i decision hkeep he
    obtain ⟨update, output⟩ := decision
    cases update with
    | keep => exact absurd rfl (hkeep output)
    | put value => simp only [he, if_neg hversion]
    | remove => simp only [he, if_neg hversion]

/-- An attempt that ran on a snapshot of an earlier store ends in one of three ways: it changes
nothing, or it commits, or it is to be repeated. -/
theorem finish_cases {s s₀ : Store τ} (h : s.IsLaterThan s₀) (key : Bytes) (transform : Transform) :
    (transform.writes (s₀.get key) = false ∧ s.finish key transform s₀.entries[key]? =
      some ⟨(transform (s₀.get key)).map Decision.output, s, [], [s₀.get key]⟩) ∨
    (transform.writes (s₀.get key) = true ∧ s.entries[key]? = s₀.entries[key]? ∧
      s.finish key transform s₀.entries[key]? = some (s.apply key transform)) ∨
    (transform.writes (s₀.get key) = true ∧ s.version key ≠ s₀.version key ∧
      s.finish key transform s₀.entries[key]? = none) := by
  cases hwrites : transform.writes (s₀.get key) with
  | false => exact .inl ⟨rfl, finish_of_not_writes s key hwrites⟩
  | true =>
      by_cases hversion : s.version key = s₀.version key
      · have hentry := h.entry_eq hversion
        exact .inr (.inl ⟨rfl, hentry, finish_of_entry_eq hwrites hentry⟩)
      · exact .inr (.inr ⟨rfl, hversion, finish_of_version_ne hwrites hversion⟩)

end Store

/-! ### The moment at which an apply takes effect -/

/-- Whether an outcome is that of an apply which runs at its place among its rivals, with
nobody in between. The rivals start from the store `s₀`; notices that went out before the
current attempt stand in `earlier`. -/
structure Placement.Explains {τ : Type} (p : Placement) (change : Change) (s₀ : Store τ)
    (earlier : List (Notice τ)) (outcome : Outcome τ) : Prop where
  /-- The store and the notices are those of the whole sequence. -/
  replay_around : s₀.replay (p.around change) = (outcome.store, earlier ++ outcome.notices)
  /-- The answer is what the transform makes of the value at its place. -/
  result_eq : outcome.result =
    (change.transform ((s₀.replay p.before).1.get change.key)).map Decision.output
  /-- That value is the one which the last attempt ran on. -/
  getLast?_seen : outcome.seen.getLast? = some ((s₀.replay p.before).1.get change.key)
  /-- An apply that commits stands last. -/
  after_eq_nil : change.transform.writes ((s₀.replay p.before).1.get change.key) = true →
    p.after = []

namespace Store

variable {τ : Type} {s s₀ : Store τ} {key : Bytes} {transform : Transform}
  {fallen : List Change} {earlier : List (Notice τ)}

/-- An apply that nobody interferes with any more takes effect behind all rivals. -/
theorem explains_apply (h : s₀.replay fallen = (s, earlier)) :
    Placement.Explains ⟨fallen, []⟩ ⟨key, transform⟩ s₀ earlier (s.apply key transform) where
  replay_around := by
    simp only [Placement.around, replay_append, h, replay_singleton]
  result_eq := by simp only [h, result_apply]
  getLast?_seen := by simp only [h, seen_apply, List.getLast?_singleton]
  after_eq_nil _ := rfl

/-- An attempt that ends its apply takes effect behind the rivals that fell into it if it
commits, and in front of them otherwise. -/
theorem explains_finish {outcome : Outcome τ} (h : s₀.replay fallen = (s, earlier))
    (hfinish : s.finish key transform s₀.entries[key]? = some outcome) :
    (Placement.ofAttempt transform (s₀.get key) fallen).Explains
      ⟨key, transform⟩ s₀ earlier outcome := by
  have hlater : s.IsLaterThan s₀ := by
    have := IsLaterThan.replay s₀ fallen
    rwa [h] at this
  rw [Placement.ofAttempt]
  obtain ⟨hwrites, hends⟩ | ⟨hwrites, -, hends⟩ | ⟨-, -, hends⟩ := finish_cases hlater key transform
  · obtain rfl := Option.some.inj (hfinish.symm.trans hends)
    obtain ⟨hstore, hnotices⟩ := @apply_of_not_writes _ s₀ key _ hwrites
    rw [if_neg (Bool.eq_false_iff.mp hwrites)]
    refine ⟨?_, rfl, rfl, fun hw => ?_⟩
    · change s₀.replay (⟨key, transform⟩ :: fallen) = (s, earlier ++ [])
      simp only [replay, hstore, hnotices, h, List.nil_append, List.append_nil]
    · change transform.writes (s₀.get key) = true at hw
      exact absurd (hw.symm.trans hwrites) (by simp)
  · obtain rfl := Option.some.inj (hfinish.symm.trans hends)
    rw [if_pos hwrites]
    exact explains_apply h
  · exact absurd (hfinish.symm.trans hends) (by simp)

/-- The placement of a later attempt, seen from the first one. -/
theorem explains_behind {p : Placement} {outcome : Outcome τ} {change : Change}
    (seen : Option Value) (h : s₀.replay fallen = (s, earlier))
    (hp : p.Explains change s [] outcome) :
    (p.behind fallen).Explains change s₀ earlier { outcome with seen := seen :: outcome.seen } := by
  have hbefore : (s₀.replay (p.behind fallen).before).1 = (s.replay p.before).1 := by
    simp only [Placement.behind, replay_append, h]
  refine ⟨?_, ?_, ?_, ?_⟩
  · have haround : (p.behind fallen).around change = fallen ++ p.around change :=
      List.append_assoc _ _ _
    rw [haround, replay_append, h, hp.replay_around, List.nil_append]
  · rw [hbefore]
    exact hp.result_eq
  · rw [hbefore, List.getLast?_cons, hp.getLast?_seen, Option.getD_some]
  · rw [hbefore]
    exact hp.after_eq_nil

/-- The outcome of an apply is explained by its placement, also when attempts and rivals lie
behind already. Induction on what the rivals do, for all applies at once, since rivals are
applies with rivals of their own. -/
theorem explains_applyFrom (rivals : Rivals) (h : s₀.replay fallen = (s, earlier)) :
    (placementFrom key transform s₀.entries[key]? s fallen rivals).Explains ⟨key, transform⟩
      s₀ earlier (applyFrom key transform s₀.entries[key]? s rivals) := by
  induction rivals generalizing key transform s₀ s fallen earlier with
  | none =>
      rw [placementFrom, applyFrom]
      cases hfinish : s.finish key transform s₀.entries[key]? with
      | some outcome => exact explains_finish h hfinish
      | none =>
          have := explains_behind (s₀.entries[key]?.map Entry.value) h
            (@explains_apply _ s s key transform [] [] rfl)
          simpa only [Placement.behind, List.append_nil] using this
  | call rivalKey rivalTransform amid more ihamid ihmore =>
      rw [placementFrom_call, applyFrom_call]
      have hrival : (s.placement rivalKey rivalTransform amid).Explains
          ⟨rivalKey, rivalTransform⟩ s [] (s.applyAmid rivalKey rivalTransform amid) := ihamid rfl
      have hnext : s₀.replay (fallen ++ (s.placement rivalKey rivalTransform amid).around
            ⟨rivalKey, rivalTransform⟩) =
          ((s.applyAmid rivalKey rivalTransform amid).store,
            earlier ++ (s.applyAmid rivalKey rivalTransform amid).notices) := by
        rw [replay_append, h, hrival.replay_around, List.nil_append]
      have hmore := @ihmore _ _ key transform _ _ hnext
      exact ⟨by rw [hmore.replay_around, List.append_assoc], hmore.result_eq,
        hmore.getLast?_seen, hmore.after_eq_nil⟩
  | attempt later ih =>
      rw [placementFrom, applyFrom]
      cases hfinish : s.finish key transform s₀.entries[key]? with
      | some outcome => exact explains_finish h hfinish
      | none =>
          exact explains_behind (s₀.entries[key]?.map Entry.value) h
            (@ih s s key transform [] [] rfl)

/-! ### The rivals of a placement -/

/-- A placement holds every rival that took place, and each of them once. -/
theorem placementFrom_perm (rivals : Rivals) (seen : Option Entry) (s : Store τ)
    (fallen : List Change) :
    ((placementFrom key transform seen s fallen rivals).before ++
        (placementFrom key transform seen s fallen rivals).after).Perm
      (fallen ++ tookFrom key transform seen s rivals) := by
  induction rivals generalizing key transform seen s fallen with
  | none =>
      rw [placementFrom, tookFrom]
      cases s.finish key transform seen with
      | some outcome => simp only [Placement.append_ofAttempt, List.append_nil, List.Perm.refl]
      | none => simp only [List.append_nil, List.Perm.refl]
  | call rivalKey rivalTransform amid more ihamid ihmore =>
      rw [placementFrom_call, tookFrom_call]
      have hrival : ((s.placement rivalKey rivalTransform amid).around
          ⟨rivalKey, rivalTransform⟩).Perm
          (s.took rivalKey rivalTransform amid ++ [⟨rivalKey, rivalTransform⟩]) :=
        (List.perm_middle.trans ((ihamid s.entries[rivalKey]? s []).cons _)).trans
          (List.perm_append_singleton _ _).symm
      refine (ihmore seen _ _).trans ?_
      rw [List.append_assoc]
      refine List.Perm.append_left fallen ?_
      refine (hrival.append_right _).trans ?_
      simp only [List.append_assoc, List.singleton_append, List.Perm.refl]
  | attempt later ih =>
      rw [placementFrom, tookFrom]
      cases s.finish key transform seen with
      | some outcome => simp only [Placement.append_ofAttempt, List.append_nil, List.Perm.refl]
      | none =>
          simp only [Placement.behind, List.append_assoc]
          exact (ih s.entries[key]? s []).append_left fallen

/-! ### The number of attempts -/

/-- An attempt runs the transform once. -/
theorem seen_finish {seen : Option Entry} {outcome : Outcome τ}
    (h : s.finish key transform seen = some outcome) : outcome.seen = [seen.map Entry.value] := by
  simp only [finish] at h
  split at h
  · exact Option.some.inj h ▸ rfl
  · exact Option.some.inj h ▸ rfl
  · split at h
    · exact Option.some.inj h ▸ rfl
    · exact absurd h (by simp)

/-- An attempt is repeated only when rivals fell into it, so there is at most one attempt more
than those that rivals can fall into. -/
theorem length_seen_applyFrom_le (rivals : Rivals) (seen : Option Entry) (s : Store τ) :
    (applyFrom key transform seen s rivals).seen.length ≤ rivals.rounds + 1 := by
  induction rivals generalizing key transform seen s with
  | none =>
      rw [applyFrom]
      cases hfinish : s.finish key transform seen with
      | some outcome =>
          change outcome.seen.length ≤ 2
          rw [seen_finish hfinish]
          exact Nat.le_succ 1
      | none =>
          change (s.apply key transform).seen.length + 1 ≤ 2
          rw [seen_apply]
          exact Nat.le_refl 2
  | call rivalKey rivalTransform amid more _ ihmore =>
      rw [applyFrom_call]
      exact ihmore seen _
  | attempt later ih =>
      rw [applyFrom]
      cases hfinish : s.finish key transform seen with
      | some outcome =>
          change outcome.seen.length ≤ later.rounds + 2
          rw [seen_finish hfinish]
          exact Nat.succ_le_succ (Nat.zero_le _)
      | none =>
          have := @ih key transform s.entries[key]? s
          simp only [List.length_cons, Rivals.rounds]
          omega

/-! ### The main statement -/

/-- **Applies are linearizable.** Whatever rivals do meanwhile, an apply ends, and store,
notices and answer are those of a sequence in which it stands once among the rivals that took
place, each of them once as well, with nobody in between. Its answer is what its transform
makes of the value that the key has at that place, which is the value that its last attempt
ran on. When that asks for a commit, all rivals stand before it, so the value is the latest
one; when it does not, the rivals alone make up the store and the notices.

The applies of the sequence are told by `get_apply` and `result_apply`, and `finish_self` says why
the last attempt succeeds once no rival is left. -/
theorem applyAmid_linearizable (s : Store τ) (key : Bytes) (transform : Transform)
    (rivals : Rivals) :
    let outcome := s.applyAmid key transform rivals
    let place := s.placement key transform rivals
    let now := (s.replay place.before).1
    (place.before ++ place.after).Perm (s.took key transform rivals) ∧
      s.replay (place.around ⟨key, transform⟩) = (outcome.store, outcome.notices) ∧
      outcome.result = (transform (now.get key)).map Decision.output ∧
      outcome.seen.getLast? = some (now.get key) ∧
      (transform.writes (now.get key) = true →
        place.after = [] ∧ outcome.store = (now.apply key transform).store) ∧
      (transform.writes (now.get key) = false →
        s.replay (place.before ++ place.after) = (outcome.store, outcome.notices)) ∧
      outcome.seen.length ≤ rivals.rounds + 1 := by
  intro outcome place now
  have hplace : place.Explains ⟨key, transform⟩ s [] outcome :=
    @explains_applyFrom _ s s key transform [] [] rivals rfl
  have haround : s.replay (place.around ⟨key, transform⟩) = (outcome.store, outcome.notices) :=
    hplace.replay_around
  refine ⟨placementFrom_perm rivals s.entries[key]? s [], haround, hplace.result_eq,
    hplace.getLast?_seen, fun hwrites => ?_, fun hkeeps => ?_,
    length_seen_applyFrom_le rivals s.entries[key]? s⟩
  · have hlast : place.after = [] := hplace.after_eq_nil hwrites
    rw [Placement.around, hlast, replay_append, replay_singleton] at haround
    exact ⟨hlast, (congrArg Prod.fst haround).symm⟩
  · obtain ⟨hstore, hnotices⟩ := apply_of_not_writes hkeeps
    rw [Placement.around, replay_append, replay, hstore, hnotices, List.nil_append] at haround
    rw [replay_append]
    exact haround

end Store

end RespStore
