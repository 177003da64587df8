import RespStore.Server

/-!
# Runs of several connections

A step of a server is a step of one of its connections, with messages put into mailboxes
behind it. What one step keeps, a run keeps (`Server.run_induction`). `Server.run_invariant` is
the rule for what concerns one connection at a time: what holds of a connection and of the notes
about it, and is kept by its own steps and by every message that is put into its mailbox or
lost, holds throughout every run, whatever the other connections do.
-/

namespace RespStore

namespace Connection

/-! ### Messages that are put into a mailbox -/

section Post

variable (c : Connection)

/-- Nothing but the mailbox changes when a message is put into it. -/
theorem post_eq (d : Delivery) : ∃ mailbox, (c.post d).1 = { c with mailbox } := by
  rw [post]
  split
  · exact ⟨_, rfl⟩
  · exact ⟨c.mailbox, rfl⟩

/-- Messages change nothing about a connection but its mailbox. -/
theorem postEach_eq (ds : List Delivery) : ∃ mailbox, (c.postEach ds).1 = { c with mailbox } := by
  induction ds generalizing c with
  | nil => exact ⟨c.mailbox, rfl⟩
  | cons d ds ih =>
      obtain ⟨first, hfirst⟩ := post_eq c d
      obtain ⟨mailbox, hrest⟩ := ih (c.post d).1
      refine ⟨mailbox, hrest.trans ?_⟩
      rw [hfirst]

/-- What is noted about a message that is put into a mailbox. -/
theorem note_of_mem_post {d : Delivery} {note : Note} (h : note ∈ (c.post d).2) :
    note = .accepted d ∨ note = .lost d := by
  rw [post] at h
  split at h
  · exact .inl (List.mem_singleton.mp h)
  · exact .inr (List.mem_singleton.mp h)

/-- A message that arrives is accepted or lost. -/
theorem note_of_mem_postEach {ds : List Delivery} {note : Note} (h : note ∈ (c.postEach ds).2) :
    ∃ d, note = .accepted d ∨ note = .lost d := by
  induction ds generalizing c with
  | nil => exact nomatch h
  | cons d ds ih =>
      change note ∈ (c.post d).2 ++ ((c.post d).1.postEach ds).2 at h
      rcases List.mem_append.mp h with hfirst | hrest
      · exact ⟨d, note_of_mem_post c hfirst⟩
      · exact ih _ hrest

end Post

end Connection

/-- What stands among old and new notes is one of the old ones or one of the new ones. -/
theorem split_append {α : Type} {notes more front behind : List α} {note : α}
    (h : notes ++ more = front ++ note :: behind) :
    (∃ rest, notes = front ++ note :: rest) ∨
      ∃ mid, front = notes ++ mid ∧ more = mid ++ note :: behind := by
  rcases List.append_eq_append_iff.mp h with ⟨mid, hfront, hmore⟩ | ⟨rest, hnotes, hbehind⟩
  · exact .inr ⟨mid, hfront, hmore⟩
  · cases rest with
    | nil => exact .inr ⟨[], by rw [hnotes, List.append_nil, List.append_nil], hbehind.symm⟩
    | cons first rest =>
        obtain ⟨rfl, -⟩ := List.cons.inj hbehind
        exact .inl ⟨rest, hnotes⟩

/-- What stands among old notes and a new one is one of the old ones or the new one. -/
theorem split_concat {α : Type} {notes front behind : List α} {note last : α}
    (h : notes ++ [last] = front ++ note :: behind) :
    (∃ rest, notes = front ++ note :: rest) ∨ front = notes ∧ note = last := by
  rcases split_append h with hold | ⟨mid, hfront, hlast⟩
  · exact .inl hold
  · cases mid with
    | nil => exact .inr ⟨hfront.trans (List.append_nil notes), (List.cons.inj hlast).1.symm⟩
    | cons first mid => exact nomatch (List.append_eq_nil_iff.mp (List.cons.inj hlast).2.symm).2

namespace Server

/-! ### Steps and runs -/

/-- The notes about one connection, in order. -/
def notesOf (j : Nat) (log : Log) : List Note :=
  log.filterMap fun entry => if entry.1 = j then some entry.2 else none

theorem notesOf_append (j : Nat) (log more : Log) :
    notesOf j (log ++ more) = notesOf j log ++ notesOf j more :=
  List.filterMap_append

/-- Notes that are all about one connection. -/
theorem notesOf_map (j i : Nat) (notes : List Note) :
    notesOf j (notes.map fun note => (i, note)) = if i = j then notes else [] := by
  rw [notesOf]
  rw [List.filterMap_map]
  by_cases hij : i = j
  · rw [if_pos hij]
    have hkept : ((fun entry : Nat × Note => if entry.1 = j then some entry.2 else none) ∘
        fun note => (i, note)) = some := funext fun note => if_pos hij
    rw [hkept, List.filterMap_some]
  · rw [if_neg hij]
    exact List.filterMap_eq_nil_iff.mpr fun note _ => if_neg hij

/-- Notes that are gathered from connections by their numbers, the first of which is `k`. -/
theorem notesOf_mapIdx (j k : Nat) (stepped : List Connection.Stepped) :
    notesOf j ((stepped.mapIdx fun i p => p.2.map fun note => (k + i, note)).flatten) =
      if k ≤ j then ((stepped[j - k]?.map Prod.snd).getD []) else [] := by
  induction stepped generalizing k with
  | nil => simp [notesOf]
  | cons p stepped ih =>
      have hshift : (fun i (p : Connection.Stepped) => p.2.map fun note => (k + (i + 1), note)) =
          fun i p => p.2.map fun note => (k + 1 + i, note) := by
        funext i p
        rw [Nat.add_comm i 1, Nat.add_assoc]
      rw [List.mapIdx_cons, List.flatten_cons, notesOf_append, Nat.add_zero, notesOf_map]
      simp only [hshift]
      rw [ih]
      rcases Nat.lt_trichotomy k j with hlt | rfl | hgt
      · obtain ⟨d, rfl⟩ := Nat.exists_eq_add_of_lt hlt
        rw [if_neg (Nat.ne_of_lt hlt), if_pos (by omega), if_pos (by omega), List.nil_append]
        have h₁ : k + d + 1 - (k + 1) = d := by omega
        have h₂ : k + d + 1 - k = d + 1 := by omega
        rw [h₁, h₂, List.getElem?_cons_succ]
      · rw [if_pos rfl, if_neg (by omega), if_pos (Nat.le_refl k), Nat.sub_self, List.append_nil]
        rfl
      · rw [if_neg (Nat.ne_of_gt hgt), if_neg (by omega), if_neg (by omega)]
        rfl

/-- A step of a server: the connection that makes it, and what becomes of each connection. -/
theorem step_cases {y y' : Server} {i : Nat} {m : Move} {log : Log}
    (h : y.step i m = some (y', log)) :
    ∃ c p, y.connections[i]? = some c ∧ c.step i y.store m = some p ∧ y'.store = p.store ∧
      (∀ j : Nat, y'.connections[j]? = (y.connections.set i p.connection)[j]?.map fun c =>
        (c.postEach (deliveriesFor j p.notices)).1) ∧
      ∀ j : Nat, notesOf j log = (if i = j then p.notes else []) ++
        (((y.connections.set i p.connection)[j]?.map fun c =>
          (c.postEach (deliveriesFor j p.notices)).2).getD []) := by
  rw [Server.step] at h
  obtain ⟨c, hc, h⟩ := Option.bind_eq_some_iff.mp h
  obtain ⟨p, hp, h⟩ := Option.bind_eq_some_iff.mp h
  obtain ⟨rfl, rfl⟩ := Prod.mk.inj (Option.some.inj h)
  refine ⟨c, p, hc, hp, rfl, fun j => ?_, fun j => ?_⟩
  · simp only [postAll, List.getElem?_map, List.getElem?_mapIdx, Option.map_map]
    rfl
  · have hgathered := notesOf_mapIdx j 0 (postAll p.notices (y.connections.set i p.connection))
    simp only [Nat.zero_add, Nat.zero_le, if_true, Nat.sub_zero] at hgathered
    rw [notesOf_append, notesOf_map, hgathered]
    simp only [postAll, List.getElem?_mapIdx, Option.map_map]
    rfl

/-- A step of a server, seen from one connection: it has made the step itself or is as it was, and
messages may have been put into its mailbox behind that. -/
theorem step_at {y y' : Server} {i j : Nat} {m : Move} {log : Log} {c' : Connection}
    (h : y.step i m = some (y', log)) (hc' : y'.connections[j]? = some c') :
    ∃ c p moved ds, y.connections[i]? = some c ∧ c.step i y.store m = some p ∧
      y'.store = p.store ∧ c' = (moved.postEach ds).1 ∧
      notesOf j log = (if i = j then p.notes else []) ++ (moved.postEach ds).2 ∧
      (i = j ∧ moved = p.connection ∨ i ≠ j ∧ y.connections[j]? = some moved) := by
  obtain ⟨c, p, hc, hp, hstore, hconnections, hnotes⟩ := step_cases h
  rw [hconnections] at hc'
  obtain ⟨moved, hmoved, rfl⟩ := Option.map_eq_some_iff.mp hc'
  refine ⟨c, p, moved, deliveriesFor j p.notices, hc, hp, hstore, rfl, ?_, ?_⟩
  · rw [hnotes, hmoved, Option.map_some, Option.getD_some]
  · by_cases hij : i = j
    · subst hij
      rw [List.getElem?_set_self (List.getElem?_eq_some_iff.mp hc).1] at hmoved
      exact .inl ⟨rfl, (Option.some.inj hmoved).symm⟩
    · rw [List.getElem?_set_ne hij] at hmoved
      exact .inr ⟨hij, hmoved⟩

/-- Whatever move a connection can make, the server can make. -/
theorem exists_step {y : Server} {j : Nat} {m : Move} {c : Connection} {p : Progress}
    (hc : y.connections[j]? = some c) (hp : c.step j y.store m = some p) :
    ∃ y' log, y.step j m = some (y', log) := by
  rw [Server.step, hc, Option.bind_eq_bind, Option.bind_some, hp]
  exact ⟨_, _, rfl⟩

/-- No step adds or removes a connection. -/
theorem length_step {y y' : Server} {i : Nat} {m : Move} {log : Log}
    (h : y.step i m = some (y', log)) : y'.connections.length = y.connections.length := by
  rw [Server.step] at h
  obtain ⟨c, -, h⟩ := Option.bind_eq_some_iff.mp h
  obtain ⟨p, -, h⟩ := Option.bind_eq_some_iff.mp h
  obtain ⟨rfl, rfl⟩ := Prod.mk.inj (Option.some.inj h)
  rw [List.length_map, postAll, List.length_mapIdx, List.length_set]

/-- Moves one after the other are a run and then another one. -/
theorem run_append (y : Server) (moves more : List (Nat × Move)) :
    y.run (moves ++ more) = (y.run moves).bind fun result =>
      (result.1.run more).map fun result' => (result'.1, result.2 ++ result'.2) := by
  induction moves generalizing y with
  | nil =>
      change y.run more = (y.run more).map fun result => (result.1, [] ++ result.2)
      cases y.run more with
      | none => rfl
      | some result => rfl
  | cons move moves ih =>
      obtain ⟨i, m⟩ := move
      rw [List.cons_append, run, run]
      cases y.step i m with
      | none => rfl
      | some first =>
          obtain ⟨mid, log₁⟩ := first
          change ((mid.run (moves ++ more)).bind fun result => some (result.1, log₁ ++ result.2)) =
            ((mid.run moves).bind fun result => some (result.1, log₁ ++ result.2)).bind _
          rw [ih]
          cases mid.run moves with
          | none => rfl
          | some second =>
              obtain ⟨last, log₂⟩ := second
              simp only [Option.bind_some]
              cases last.run more with
              | none => rfl
              | some third =>
                  exact congrArg (fun log => some (third.1, log)) (List.append_assoc _ _ _).symm

/-- What one move keeps, moves one after the other keep. It may speak about the moves made so far,
and the moves may be restricted. Induction on the moves. -/
theorem run_induction {Q : List (Nat × Move) → Server → Log → Prop} {R : Nat → Move → Prop}
    (hstep : ∀ {made y y' i m before log}, Q made y before → R i m →
      y.step i m = some (y', log) → Q (made ++ [(i, m)]) y' (before ++ log))
    {y y' : Server} {moves : List (Nat × Move)} {log : Log} (h : Q [] y [])
    (hmoves : ∀ move ∈ moves, R move.1 move.2) (hrun : y.run moves = some (y', log)) :
    Q moves y' log := by
  suffices hmore : ∀ made before, Q made y before → Q (made ++ moves) y' (before ++ log) from
    hmore [] [] h
  clear h
  induction moves generalizing y log with
  | nil =>
      intro made before h
      obtain ⟨rfl, rfl⟩ := Prod.mk.inj (Option.some.inj hrun)
      rwa [List.append_nil, List.append_nil]
  | cons move moves ih =>
      intro made before h
      obtain ⟨i, m⟩ := move
      obtain ⟨hmove, hmoves⟩ := List.forall_mem_cons.mp hmoves
      obtain ⟨⟨mid, log₁⟩, hfirst, hrun⟩ := Option.bind_eq_some_iff.mp hrun
      obtain ⟨⟨last, log₂⟩, hrest, hrun⟩ := Option.bind_eq_some_iff.mp hrun
      obtain ⟨rfl, rfl⟩ := Prod.mk.inj (Option.some.inj hrun)
      have := ih hmoves hrest _ _ (hstep h hmove hfirst)
      rwa [List.append_assoc, List.append_assoc] at this

/-- No connection comes or goes. -/
theorem length_run {y y' : Server} {moves : List (Nat × Move)} {log : Log}
    (hrun : y.run moves = some (y', log)) : y'.connections.length = y.connections.length :=
  run_induction (Q := fun _ y' _ => y'.connections.length = y.connections.length)
    (R := fun _ _ => True) (fun h _ hstep => (length_step hstep).trans h) rfl
    (fun _ _ => trivial) hrun

/-- A connection that was there is there behind a run. -/
theorem exists_connection {y y' : Server} {j : Nat} {c : Connection}
    (hlength : y'.connections.length = y.connections.length) (hc : y.connections[j]? = some c) :
    ∃ c', y'.connections[j]? = some c' :=
  ⟨_, List.getElem?_eq_getElem (hlength ▸ (List.getElem?_eq_some_iff.mp hc).1)⟩

section Invariant

variable {P : Connection → List Note → Prop}

/-- What is kept by one message is kept by several. -/
theorem postEach_invariant
    (hpost : ∀ c notes d, P c notes → P (c.post d).1 (notes ++ (c.post d).2))
    (ds : List Delivery) {c : Connection} {notes : List Note} (h : P c notes) :
    P (c.postEach ds).1 (notes ++ (c.postEach ds).2) := by
  induction ds generalizing c notes with
  | nil => exact (List.append_nil notes).symm ▸ h
  | cons d ds ih =>
      have := ih (hpost c notes d h)
      rwa [List.append_assoc] at this

variable (hstep : ∀ {client s c m p notes}, P c notes → Connection.step client s c m = some p →
    P p.connection (notes ++ p.notes))
  (hpost : ∀ c notes d, P c notes → P (c.post d).1 (notes ++ (c.post d).2))

include hstep hpost

/-- What holds of one connection still holds of it after a step, whoever makes it. -/
theorem step_invariant {y y' : Server} {i j : Nat} {m : Move} {log before : Log}
    (h : ∀ c, y.connections[j]? = some c → P c (notesOf j before))
    (hrun : y.step i m = some (y', log)) :
    ∀ c, y'.connections[j]? = some c → P c (notesOf j (before ++ log)) := by
  intro c' hc'
  obtain ⟨c, p, moved, ds, hc, hp, -, rfl, hnotes, hmoved⟩ := step_at hrun hc'
  rw [notesOf_append, hnotes, ← List.append_assoc]
  refine postEach_invariant hpost ds ?_
  rcases hmoved with ⟨rfl, rfl⟩ | ⟨hij, hmoved⟩
  · rw [if_pos rfl]
    exact hstep (h c hc) hp
  · rw [if_neg hij, List.append_nil]
    exact h moved hmoved

/-- What holds of one connection at first holds of it after a run. -/
theorem run_invariant_at {y y' : Server} {moves : List (Nat × Move)} {log : Log} {j : Nat}
    (h : ∀ c, y.connections[j]? = some c → P c []) (hrun : y.run moves = some (y', log)) :
    ∀ c, y'.connections[j]? = some c → P c (notesOf j log) :=
  run_induction (Q := fun _ y log => ∀ c, y.connections[j]? = some c → P c (notesOf j log))
    (R := fun _ _ => True) (fun h _ hfirst => step_invariant hstep hpost h hfirst) h
    (fun _ _ => trivial) hrun

/-- What holds at first of a connection that is known holds of it after a run. -/
theorem run_invariant_of {y y' : Server} {moves : List (Nat × Move)} {log : Log} {j : Nat}
    {c c' : Connection} (hc : y.connections[j]? = some c) (h : P c [])
    (hrun : y.run moves = some (y', log)) (hc' : y'.connections[j]? = some c') :
    P c' (notesOf j log) :=
  run_invariant_at hstep hpost (fun _ hc₀ => Option.some.inj (hc.symm.trans hc₀) ▸ h) hrun c' hc'

/-- What holds of every connection at first holds of every connection after a run. -/
theorem run_invariant {y y' : Server} {moves : List (Nat × Move)} {log : Log}
    (h : ∀ (j : Nat) c, y.connections[j]? = some c → P c []) (hrun : y.run moves = some (y', log)) :
    ∀ (j : Nat) c, y'.connections[j]? = some c → P c (notesOf j log) :=
  fun j => run_invariant_at hstep hpost (h j) hrun

/-- What holds of new connections holds of every connection after a run of them. -/
theorem run_invariant_new {y y' : Server} {moves : List (Nat × Move)} {log : Log}
    (hnew : ∀ c ∈ y.connections, ∃ settings, c = Connection.new settings)
    (h : ∀ settings, P (Connection.new settings) []) (hrun : y.run moves = some (y', log)) :
    ∀ (j : Nat) c, y'.connections[j]? = some c → P c (notesOf j log) := by
  refine run_invariant hstep hpost (fun j c hc => ?_) hrun
  obtain ⟨settings, rfl⟩ := hnew c (List.mem_of_getElem? hc)
  exact h settings

end Invariant

end Server

end RespStore
