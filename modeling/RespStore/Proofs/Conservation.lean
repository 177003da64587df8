import RespStore.Proofs.Dealings

/-!
# Concurrent pushes and pops

Any number of connections push to the list of a key and pop from it. Which of them waits for the
store, and for how long, is up to the moves of a run. What is done to the list is a sequence of
deeds nevertheless, in the order in which the store carries out the calls. That an apply counts as
one call, whatever falls into its attempts, is `Store.applyAmid_linearizable`.

* `Server.deeds` are the deeds of a run, with the connections for which they are done.
* `Server.Conserves` is the invariant of a run: the list is what the deeds make of the list that was
  there at first, and each connection replies what was done for it.
* `Server.elements_conserved` is the main result, about every run of any number of connections.
-/

namespace RespStore

namespace Connection

/-! ### Messages that are put into a mailbox -/

section Post

variable {c : Connection}

/-- Messages that arrive do not concern a connection that takes its listeners off. -/
theorem Removes.post (h : c.Removes) (d : Delivery) : (c.post d).1.Removes := by
  obtain ⟨mailbox, heq⟩ := post_eq c d
  exact heq ▸ h

/-- A message has nothing to do with lists. -/
theorem Deals.postEach {key : Bytes} {notes : List Note} {done : List (Command × Reply)}
    (h : Deals key c notes done) (ds : List Delivery) :
    Deals key (c.postEach ds).1 (notes ++ (c.postEach ds).2) done := by
  have hquiet := quiet_postEach c ds
  obtain ⟨mailbox, heq⟩ := postEach_eq c ds
  have hphase : (c.postEach ds).1.phase = c.phase := heq ▸ rfl
  by_cases hopen : Phase.closing? c.phase = none
  · cases htask : Phase.task? c.phase with
    | none => exact h.of_rests htask hopen (hphase ▸ htask) hquiet
    | some task => exact h.of_task htask (hphase ▸ htask) (fun _ _ => id) hquiet
  · exact h.of_closing (hphase ▸ hopen) hquiet

end Post

end Connection

namespace Server

open Connection

/-! ### What was done, by whom -/

/-- What a move does to the list of a key, if it does anything, with the number of the connection
that makes it. -/
def deed? (key : Bytes) (before : Log) (y : Server) (i : Nat) (m : Move) : Option (Nat × Deed) :=
  y.connections[i]?.bind fun c => (c.deed? key (notesOf i before) y.store m).map fun d => (i, d)

/-- What moves do to the list of a key, in the order in which they do it. The log is what was noted
before. -/
def deedsFrom (key : Bytes) (before : Log) (y : Server) : List (Nat × Move) → List (Nat × Deed)
  | [] => []
  | (i, m) :: moves =>
    match y.step i m with
    | none => []
    | some (y', log) => (y.deed? key before i m).toList ++ y'.deedsFrom key (before ++ log) moves

/-- What moves do to the list of a key, in the order in which they do it. -/
def deeds (key : Bytes) (y : Server) (moves : List (Nat × Move)) : List (Nat × Deed) :=
  y.deedsFrom key [] moves

/-- What was done for one connection: the commands, with the replies that belong to them. -/
def doneFor (key : Bytes) (j : Nat) (ds : List (Nat × Deed)) : List (Command × Reply) :=
  ds.filterMap fun d => if d.1 = j then some (d.2.command key, d.2.reply) else none

section Books

variable {key : Bytes} {y y' y'' : Server} {i : Nat} {m : Move} {moves : List (Nat × Move)}
  {log more : Log}

theorem doneFor_append (key : Bytes) (j : Nat) (ds more : List (Nat × Deed)) :
    doneFor key j (ds ++ more) = doneFor key j ds ++ doneFor key j more :=
  List.filterMap_append

/-- A deed is done for the connection whose number it carries. -/
theorem doneFor_self (key : Bytes) (i : Nat) (d : Deed) :
    doneFor key i [(i, d)] = [(d.command key, d.reply)] := by
  simp only [doneFor, List.filterMap_cons, if_pos, List.filterMap_nil]

/-- A deed that carries another number is not done for the connection. -/
theorem doneFor_of_ne {i j : Nat} (h : i ≠ j) (key : Bytes) (d : Deed) :
    doneFor key j [(i, d)] = [] := by
  simp only [doneFor, List.filterMap_cons, if_neg h, List.filterMap_nil]

/-- One more move. -/
theorem run_concat (hrun : y.run moves = some (y', log)) (hstep : y'.step i m = some (y'', more)) :
    y.run (moves ++ [(i, m)]) = some (y'', log ++ more) := by
  rw [run_append, hrun, Option.bind_some, run, hstep]
  exact congrArg (fun log' => some (y'', log ++ log')) (List.append_nil more)

/-- What one more move does. Induction on the moves before it. -/
theorem deedsFrom_concat {before : Log} (hrun : y.run moves = some (y', log))
    (hstep : y'.step i m = some (y'', more)) :
    y.deedsFrom key before (moves ++ [(i, m)]) =
      y.deedsFrom key before moves ++ (y'.deed? key (before ++ log) i m).toList := by
  induction moves generalizing y before log with
  | nil =>
      obtain ⟨rfl, rfl⟩ := Prod.mk.inj (Option.some.inj hrun)
      simp only [List.nil_append, deedsFrom, hstep, List.append_nil]
  | cons move moves ih =>
      obtain ⟨k, m'⟩ := move
      obtain ⟨⟨mid, log₁⟩, hfirst, hrun⟩ := Option.bind_eq_some_iff.mp hrun
      obtain ⟨⟨last, log₂⟩, hrest, hrun⟩ := Option.bind_eq_some_iff.mp hrun
      obtain ⟨rfl, rfl⟩ := Prod.mk.inj (Option.some.inj hrun)
      rw [List.cons_append, deedsFrom, hfirst, deedsFrom, hfirst]
      dsimp only
      rw [ih hrest, List.append_assoc, List.append_assoc]

end Books

/-! ### Runs -/

/-- Whether the list of a key is what the deeds make of the list that was there at first, and every
connection has replied what was done for it. -/
structure Conserves (key : Bytes) (initial : List Bytes) (y : Server) (ds : List (Nat × Deed))
    (log : Log) (items : List Bytes) : Prop where
  /-- The list. -/
  lists : Lists (y.store.get key) items
  /-- The deeds, one after the other. -/
  turns : Deed.TurnsEach (ds.map Prod.snd) initial items
  /-- The replies. -/
  deals : ∀ (j : Nat) c, y.connections[j]? = some c →
    Deals key c (notesOf j log) (doneFor key j ds)

/-- Whether no request in a log may overwrite a key. -/
def keeps (key : Bytes) (log : Log) : Bool := log.all fun entry => entry.2.keeps key

namespace Conserves

variable {key : Bytes} {initial items : List Bytes} {y y' : Server} {ds : List (Nat × Deed)}
  {before log : Log} {i : Nat} {m : Move}

/-- New connections have done nothing. -/
theorem new (hnew : ∀ c ∈ y.connections, ∃ settings, c = Connection.new settings)
    (h : Lists (y.store.get key) initial) : Conserves key initial y [] [] initial where
  lists := h
  turns := rfl
  deals := fun j c hc => by
    obtain ⟨settings, rfl⟩ := hnew c (List.mem_of_getElem? hc)
    exact .rests rfl rfl rfl rfl

/-- What a move does is added to the books. -/
theorem step (h : Conserves key initial y ds before items) (hstep : y.step i m = some (y', log))
    (hremoves : ∀ (j : Nat) c, y.connections[j]? = some c → c.Removes) (hserved : m.IsServed)
    (hkeeps : keeps key log = true) :
    ∃ items', Conserves key initial y' (ds ++ (y.deed? key before i m).toList) (before ++ log)
      items' := by
  obtain ⟨c, p, hc, hp, hstore, -, hnotes⟩ := step_cases hstep
  have hsteps := steps_of_step hp
  have hown : ∀ note ∈ p.notes, note.keeps key = true := by
    intro note hmem
    have hnote : note ∈ notesOf i log := by
      rw [hnotes, if_pos rfl]
      exact List.mem_append_left _ hmem
    obtain ⟨entry, hentry, heq⟩ := List.mem_filterMap.mp hnote
    obtain ⟨-, heq⟩ := Option.ite_none_right_eq_some.mp heq
    exact Option.some.inj heq ▸ List.all_eq_true.mp hkeeps entry hentry
  have hadvances := (h.deals i c hc).step (hremoves i c hc) hsteps hserved hown h.lists
  have hdeed : y.deed? key before i m =
      (c.deed? key (notesOf i before) y.store m).map fun d => (i, d) := by
    rw [deed?, hc, Option.bind_some]
  -- Whoever makes the move, the other connections only get messages.
  have hdeals {ds' : List (Nat × Deed)}
      (hmine : Deals key p.connection (notesOf i before ++ p.notes) (doneFor key i ds'))
      (hothers : ∀ j, i ≠ j → doneFor key j ds' = doneFor key j ds) :
      ∀ (j : Nat) c', y'.connections[j]? = some c' →
        Deals key c' (notesOf j (before ++ log)) (doneFor key j ds') := by
    intro j c' hc'
    obtain ⟨c₁, p₁, moved, posted, hc₁, hp₁, -, rfl, hnotes, hmoved⟩ := step_at hstep hc'
    obtain rfl := Option.some.inj (hc.symm.trans hc₁)
    obtain rfl := Option.some.inj (hp.symm.trans hp₁)
    rw [notesOf_append, hnotes, ← List.append_assoc]
    refine Deals.postEach ?_ posted
    rcases hmoved with ⟨rfl, rfl⟩ | ⟨hne, hmoved⟩
    · rwa [if_pos rfl]
    · rw [if_neg hne, List.append_nil, hothers j hne]
      exact h.deals j moved hmoved
  cases hadvances with
  | spares hnone hlists hmine =>
      rw [hdeed, hnone, Option.map_none, Option.toList_none, List.append_nil]
      exact ⟨items, hstore ▸ hlists, h.turns, hdeals hmine fun _ _ => rfl⟩
  | @turns d items' hsome hlists hturns hmine =>
      rw [hdeed, hsome, Option.map_some, Option.toList_some]
      refine ⟨items', hstore ▸ hlists, ?_, hdeals ?_ fun j hne => ?_⟩
      · rw [List.map_append]
        exact h.turns.append ⟨items', hturns, rfl⟩
      · rwa [doneFor_append, doneFor_self]
      · rw [doneFor_append, doneFor_of_ne hne, List.append_nil]

end Conserves

/-- In every run, connections that take their listeners off change no key on the way. -/
theorem removes_of_run {y y' : Server} {moves : List (Nat × Move)} {log : Log}
    (hnew : ∀ c ∈ y.connections, ∃ settings, c = Connection.new settings)
    (hrun : y.run moves = some (y', log)) :
    ∀ (j : Nat) c, y'.connections[j]? = some c → c.Removes :=
  run_invariant_new (P := fun c _ => c.Removes) (fun h hstep => h.step (steps_of_step hstep))
    (fun _ _ d h => h.post d) hnew (fun _ => .of_holds trivial) hrun

/-- The books are right after every run. -/
theorem conserves_of_run {y y' : Server} {moves : List (Nat × Move)} {log : Log} {key : Bytes}
    {initial : List Bytes} (hnew : ∀ c ∈ y.connections, ∃ settings, c = Connection.new settings)
    (hinitial : Lists (y.store.get key) initial) (hserved : ∀ move ∈ moves, move.2.IsServed)
    (hkeeps : keeps key log = true) (hrun : y.run moves = some (y', log)) :
    ∃ items, Conserves key initial y' (y.deeds key moves) log items := by
  suffices h : y.run moves = some (y', log) ∧ (keeps key log = true →
      ∃ items, Conserves key initial y' (y.deeds key moves) log items) from h.2 hkeeps
  refine run_induction (Q := fun made y' log => y.run made = some (y', log) ∧
      (keeps key log = true → ∃ items, Conserves key initial y' (y.deeds key made) log items))
    (R := fun _ m => m.IsServed) ?_ ⟨rfl, fun _ => ⟨initial, .new hnew hinitial⟩⟩ hserved hrun
  rintro made y₁ y₂ i m before more ⟨hmade, h⟩ hmove hstep
  refine ⟨run_concat hmade hstep, fun hkeeps => ?_⟩
  rw [keeps, List.all_append, Bool.and_eq_true] at hkeeps
  obtain ⟨items, hconserves⟩ := h hkeeps.1
  rw [deeds, deedsFrom_concat hmade hstep, List.nil_append]
  exact hconserves.step hstep (removes_of_run hnew hmade) hmove hkeeps.2

/-- What moves do to the list of a key, whoever makes them. -/
def history (key : Bytes) (y : Server) (moves : List (Nat × Move)) : List Deed :=
  (y.deeds key moves).map Prod.snd

/-- **Nothing is lost, and nothing is there twice.** Connections push to the list of a key and pop
from it, in any order and with any waiting in between. The store answers their calls, and no request
may overwrite the key. After every run of theirs,

* what was in the list at first and what was pushed is what was popped and what is in the list now,
* in the order of the pushes, if all pushes were to the tail and all pops from the head,
* each push says how long the list is right behind it,
* each connection has replied, in order, what was done for its pushes and its pops, apart from its
  last request. -/
theorem elements_conserved {y y' : Server} {moves : List (Nat × Move)} {log : Log} {key : Bytes}
    {initial : List Bytes} (hnew : ∀ c ∈ y.connections, ∃ settings, c = Connection.new settings)
    (hinitial : Lists (y.store.get key) initial) (hserved : ∀ move ∈ moves, move.2.IsServed)
    (hkeeps : keeps key log = true) (hrun : y.run moves = some (y', log)) :
    (∃ items, Lists (y'.store.get key) items ∧
      (initial ++ Deed.addedBy (y.history key moves)).Perm
        (Deed.removedBy (y.history key moves) ++ items) ∧
      ((∀ d ∈ y.history key moves, d.Queues) →
        initial ++ Deed.addedBy (y.history key moves) =
          Deed.removedBy (y.history key moves) ++ items)) ∧
    (∀ front side values length behind,
      y.history key moves = front ++ .pushed side values length :: behind →
        length + (Deed.removedBy front).length =
          initial.length + (Deed.addedBy front).length + values.length) ∧
    ∀ (j : Nat) c, y'.connections[j]? = some c →
      ∃ pending, doneFor key j (y.deeds key moves) = dealings key (notesOf j log) ++ pending ∧
        pending.length + (repliesOf (notesOf j log)).length ≤ (requestsOf (notesOf j log)).length ∧
        (requestsOf (notesOf j log)).length ≤ (repliesOf (notesOf j log)).length + 1 := by
  obtain ⟨items, h⟩ := conserves_of_run hnew hinitial hserved hkeeps hrun
  have hturns : Deed.TurnsEach (y.history key moves) initial items := h.turns
  refine ⟨⟨items, h.lists, hturns.perm, hturns.queues⟩, ?_, fun j c hc => ?_⟩
  · intro front side values length behind hsplit
    exact Deed.TurnsEach.length_pushed (hsplit ▸ hturns)
  · exact (h.deals j c hc).exists_pending

/-- A client has to wait for its push, while another one asks for what is pushed. -/
def sharing : List (Nat × Move) :=
  [(0, .arrive (.chunk (Bytes.ofString "*4\r\n$5\r\nRPUSH\r\n$1\r\nk\r\n$1\r\na\r\n$1\r\nb\r\n"))),
    (0, .proceed), (0, .proceed), (0, .suspend),
    (1, .arrive (.chunk (Bytes.ofString "*2\r\n$4\r\nLPOP\r\n$1\r\nk\r\n"))),
    (1, .proceed), (1, .proceed), (0, .answer fun _ => none), (1, .answer fun _ => none),
    (1, .proceed)]

/-- The hypotheses can be met by a push that has to wait and a pop that takes what it pushes. -/
theorem elements_conserved_sharing :
    ∃ y log, twoClients.run sharing = some (y, log) ∧
      twoClients.deeds [107] sharing =
        [(0, .pushed .tail [[97], [98]] 2), (1, .popped .head none (some [[97]]))] ∧
      Lists (y.store.get [107]) [[98]] := by
  have hfacts : (twoClients.run sharing).map (fun result =>
      (keeps [107] result.2, twoClients.deeds [107] sharing)) =
        some (true,
          [(0, .pushed .tail [[97], [98]] 2), (1, .popped .head none (some [[97]]))]) := by
    decide +kernel
  obtain ⟨⟨y, log⟩, hrun, hfacts⟩ := Option.map_eq_some_iff.mp hfacts
  obtain ⟨hkeeps, hdeeds⟩ := Prod.mk.inj hfacts
  have hserved : ∀ move ∈ sharing, move.2.IsServed := by
    simp [sharing, Move.IsServed]
  have hhistory : twoClients.history [107] sharing =
      [.pushed .tail [[97], [98]] 2, .popped .head none (some [[97]])] :=
    congrArg (List.map Prod.snd) hdeeds
  obtain ⟨⟨items, hlists, -, hqueue⟩, -, -⟩ :=
    elements_conserved new_of_mem_twoClients (rfl : Lists (twoClients.store.get [107]) []) hserved
      hkeeps hrun
  rw [hhistory] at hqueue
  have hitems : [[97], [98]] = [97] :: items :=
    hqueue (List.forall_mem_cons.mpr ⟨rfl, List.forall_mem_singleton.mpr rfl⟩)
  exact ⟨y, log, hrun, hdeeds, (List.cons.inj hitems).2 ▸ hlists⟩

end Server

end RespStore
