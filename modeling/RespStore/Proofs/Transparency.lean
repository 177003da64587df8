import RespStore.Proofs.Connection.Progress

/-!
# Pipelining does not show

A client may send its requests without waiting for replies. How its input is cut into chunks, when
the chunks arrive, which calls have to be waited for, how much the writer takes at a time and how
large the buffers are decides when bytes are written, but not which. `Server.transparent` states
this for a connection that is alone with its store: every run that ends has written what
`Handler.converse` says, has left the keys that it says, and ends as it says. And every run can
be brought to its end: it never gets stuck, and it does not go on for ever.
-/

namespace RespStore

/-- What arrives with some moves, in order. -/
def arrivalsOf (moves : List Move) : List Arrival := moves.flatMap Move.arrivals

/-- The whole input of a client, cut into chunks, and its end. -/
def inputOf (cut : List Bytes) : List Arrival := cut.map .chunk ++ [.finish]

/-- Whether nothing disturbs a connection whose client sends this input: every call is carried out
by the store, sooner or later, the writer takes something each time, and nothing else arrives. -/
structure Undisturbed (cut : List Bytes) (moves : List Move) : Prop where
  /-- Neither the writer nor the store fails, and the connection is not dropped. -/
  plain : ∀ m ∈ moves, m.IsPlain
  /-- What has arrived so far is the front of the input. -/
  arrivals : arrivalsOf moves <+: inputOf cut

theorem arrivalsOf_append (moves more : List Move) :
    arrivalsOf (moves ++ more) = arrivalsOf moves ++ arrivalsOf more :=
  List.flatMap_append

theorem arrivalsOf_singleton (m : Move) : arrivalsOf [m] = m.arrivals := List.append_nil _

namespace Connection

/-- Messages that are put into the mailbox are not in the buffer yet. -/
theorem encodedOf_postEach (c : Connection) (ds : List Delivery) :
    encodedOf (c.postEach ds).2 = [] := by
  have hunits : unitsOf (c.postEach ds).2 = [] := by
    refine List.flatMap_eq_nil_iff.mpr fun note hnote => ?_
    obtain ⟨d, rfl | rfl⟩ := note_of_mem_postEach c hnote
    · rfl
    · rfl
  rw [encodedOf, hunits, List.flatMap_nil]

/-- Whether a connection is on its way through a conversation: it has put into its buffer what the
transcript begins with, and has ahead of it what the transcript ends with. -/
structure Converses (t : Transcript) (future : List Arrival) (s : Store Subscriber)
    (c : Connection) (notes : List Note) : Prop where
  /-- What is ahead. -/
  ahead : ∃ t', Ahead 0 future s c t' ∧ t.Leads (encodedOf notes) t'
  /-- What is written is what was put into the buffer. -/
  stream : Stream True c notes

namespace Converses

variable {t : Transcript} {future : List Arrival} {s : Store Subscriber} {c : Connection}
  {notes : List Note} {m : Move} {p : Progress}

/-- Every plain step goes on with the conversation, and keeps the stream of bytes in order. -/
theorem step (h : Converses t (m.arrivals ++ future) s c notes) (hstep : Steps 0 s c m p)
    (hplain : m.IsPlain) :
    Converses t future p.store (p.connection.postEach (deliveriesFor 0 p.notices)).1
      (notes ++ (p.notes ++ (p.connection.postEach (deliveriesFor 0 p.notices)).2)) := by
  obtain ⟨t', hahead, hleads⟩ := h.ahead
  obtain ⟨t'', hahead', hleads'⟩ := hahead.step hstep hplain
  refine ⟨⟨t'', hahead', ?_⟩, ?_⟩
  · rw [encodedOf_append, encodedOf_append, encodedOf_postEach, List.append_nil]
    exact hleads.trans hleads'
  · have hstream : Stream True p.connection (notes ++ p.notes) :=
      (h.stream.step hstep).mono fun _ => ⟨trivial, hplain.1⟩
    rw [← List.append_assoc]
    exact Server.postEach_invariant (fun c notes d hpost => hpost.post d) _ hstream

/-- A new connection has everything ahead of it. -/
theorem new {settings : Settings} {cut : List Bytes}
    (hfits : cut.flatten.length ≤ settings.maxFrame) :
    Converses (Handler.normal.converse 0 s cut.flatten) (inputOf cut) s (Connection.new settings)
      [] := by
  refine ⟨⟨_, ?_, .refl _⟩, .new settings⟩
  have hnext : Phase.heading? (Connection.new settings).phase = some .turn := rfl
  refine .listens hnext rfl ⟨(nomatch ·), rfl, rfl, ⟨?_, ?_⟩, hfits⟩
  · exact Arrival.areWhole_cut cut
  · exact (Arrival.flatMap_bytes_cut cut).symm

/-- Once the connection has ended, it is through with the conversation. -/
theorem of_ended {ending : Ending} (h : Converses t future s c notes)
    (hphase : c.phase = .ended ending) :
    ending = t.ending ∧ writtenOf notes = t.written ∧ s.entries = t.entries := by
  obtain ⟨t', hahead, hleads⟩ := h.ahead
  have hclosing : Phase.closing? c.phase = some ending := congrArg Phase.closing? hphase
  obtain ⟨hcloses, rfl⟩ := hahead.cases_of_closing hclosing
  have hwritten := h.stream.closed trivial ending hclosing
  have hunwritten : c.unwritten = [] := by
    rw [unwritten, hphase, hcloses.pending_eq]
    rfl
  refine ⟨hleads.ending_eq.symm, ?_, hleads.entries_eq.symm⟩
  rw [Transcript.written, hleads.encoded_eq, hleads.ending_eq]
  rw [hunwritten, List.append_nil] at hwritten
  exact hwritten.trans (congrArg (· ++ ending.lastWords) (List.append_nil _).symm)

end Converses

end Connection

namespace Server

/-- A store with one new connection. -/
def alone (s : Store Subscriber) (settings : Settings) : Server := ⟨s, [Connection.new settings]⟩

/-- Makes moves of the only connection. -/
def runAlone (y : Server) (moves : List Move) : Option (Server × Log) :=
  y.run (moves.map fun m => (0, m))

/-- One more move of the only connection. -/
theorem runAlone_concat (y : Server) (moves : List Move) (m : Move) :
    y.runAlone (moves ++ [m]) = (y.runAlone moves).bind fun result =>
      (result.1.step 0 m).map fun result' => (result'.1, result.2 ++ result'.2) := by
  have hsingle : ∀ y : Server, y.run [(0, m)] = y.step 0 m := by
    intro y
    rw [run]
    cases y.step 0 m with
    | none => rfl
    | some result => exact congrArg (fun log => some (result.1, log)) (List.append_nil _)
  rw [runAlone, List.map_append, List.map_singleton, run_append]
  simp only [hsingle]
  rfl

section Alone

variable {t : Transcript} {future : List Arrival} {y y' : Server} {c : Connection}
  {before : List Note} {log : Log} {m : Move}

/-- A step of the only connection. -/
theorem step_alone (hy : y.connections = [c]) (h : y.step 0 m = some (y', log)) :
    ∃ p, c.step 0 y.store m = some p ∧ y'.store = p.store ∧
      y'.connections = [(p.connection.postEach (deliveriesFor 0 p.notices)).1] ∧
      notesOf 0 log = p.notes ++ (p.connection.postEach (deliveriesFor 0 p.notices)).2 := by
  obtain ⟨c', p, hc', hp, hstore, hconnections, hnotes⟩ := step_cases h
  rw [hy] at hc' hconnections hnotes
  obtain rfl := Option.some.inj hc'
  refine ⟨p, hp, hstore, ?_, hnotes 0⟩
  refine List.ext_getElem? fun j => (hconnections j).trans ?_
  cases j with
  | zero => rfl
  | succ j => rfl

/-- A move that the only connection can make. -/
theorem isSome_step_alone (hy : y.connections = [c]) (h : (c.step 0 y.store m).isSome) :
    (y.step 0 m).isSome := by
  obtain ⟨p, hp⟩ := Option.isSome_iff_exists.mp h
  rw [Server.step, hy]
  simp [hp]

/-- A step that disturbs nothing keeps the only connection on its way and brings it nearer to
the end. -/
theorem converses_step_alone (hy : y.connections = [c])
    (h : c.Converses t (m.arrivals ++ future) y.store before) (hplain : m.IsPlain)
    (hstep : y.step 0 m = some (y', log)) :
    ∃ c', y'.connections = [c'] ∧
      c'.Converses t future y'.store (before ++ notesOf 0 log) ∧
      Connection.Less (c'.effort 0 future y'.store)
        (c.effort 0 (m.arrivals ++ future) y.store) := by
  obtain ⟨p, hp, hstore, hconnections, hnotes⟩ := step_alone hy hstep
  have hsteps := Connection.steps_of_step hp
  obtain ⟨t', hahead, -⟩ := h.ahead
  refine ⟨_, hconnections, ?_, ?_⟩
  · rw [hstore, hnotes]
    exact h.step hsteps hplain
  · rw [hstore]
    exact hahead.step_less hsteps hplain

/-- A run that nothing disturbs keeps the only connection on its way. Induction on the moves. -/
theorem converses_run_alone {moves : List Move} (hy : y.connections = [c])
    (h : c.Converses t (arrivalsOf moves ++ future) y.store before)
    (hplain : ∀ m ∈ moves, m.IsPlain) (hrun : y.runAlone moves = some (y', log)) :
    ∃ c', y'.connections = [c'] ∧ c'.Converses t future y'.store (before ++ notesOf 0 log) := by
  induction moves generalizing y c before log with
  | nil =>
      obtain ⟨rfl, rfl⟩ := Prod.mk.inj (Option.some.inj hrun)
      refine ⟨c, hy, ?_⟩
      rw [notesOf, List.filterMap_nil, List.append_nil]
      exact h
  | cons m moves ih =>
      obtain ⟨⟨mid, log₁⟩, hfirst, hrun⟩ := Option.bind_eq_some_iff.mp hrun
      obtain ⟨⟨last, log₂⟩, hrest, hrun⟩ := Option.bind_eq_some_iff.mp hrun
      obtain ⟨rfl, rfl⟩ := Prod.mk.inj (Option.some.inj hrun)
      obtain ⟨hm, hmoves⟩ := List.forall_mem_cons.mp hplain
      rw [← List.singleton_append, arrivalsOf_append, arrivalsOf_singleton, List.append_assoc] at h
      obtain ⟨c₁, hmid, h₁, -⟩ := converses_step_alone hy h hm hfirst
      rw [notesOf_append, ← List.append_assoc]
      exact ih hmid h₁ hmoves hrest

end Alone

/-- One more move that disturbs nothing. -/
theorem undisturbed_concat {cut : List Bytes} {moves : List Move} {m : Move}
    {future : List Arrival} (h : Undisturbed cut moves)
    (hfuture : arrivalsOf moves ++ future = inputOf cut) :
    Undisturbed cut (moves ++ [m]) ↔ m.IsPlain ∧ m.arrivals <+: future := by
  have harrivals : arrivalsOf (moves ++ [m]) = arrivalsOf moves ++ m.arrivals := by
    rw [arrivalsOf_append, arrivalsOf_singleton]
  constructor
  · intro hmore
    refine ⟨hmore.plain m (List.mem_append_right _ (List.mem_singleton_self m)), ?_⟩
    have hprefix := hmore.arrivals
    rw [harrivals, ← hfuture] at hprefix
    exact (List.prefix_append_right_inj _).mp hprefix
  · rintro ⟨hplain, hprefix⟩
    refine ⟨?_, ?_⟩
    · intro m' hm'
      rcases List.mem_append.mp hm' with hold | hlast
      · exact h.plain m' hold
      · exact List.mem_singleton.mp hlast ▸ hplain
    · rw [harrivals, ← hfuture]
      exact (List.prefix_append_right_inj _).mpr hprefix

/-- Where a run that nothing disturbs has got: to a server with one connection, for which some of
the input is still to arrive. -/
structure Reaches (s : Store Subscriber) (settings : Settings) (cut : List Bytes)
    (moves : List Move) (y : Server) (log : Log) (c : Connection) (future : List Arrival) :
    Prop where
  /-- Nothing has disturbed it. -/
  undisturbed : Undisturbed cut moves
  /-- The moves were possible. -/
  run_eq : (alone s settings).runAlone moves = some (y, log)
  /-- There is no other connection. -/
  connections_eq : y.connections = [c]
  /-- What is still to arrive. -/
  arrivals_eq : arrivalsOf moves ++ future = inputOf cut
  /-- It is on its way through the conversation. -/
  converses : c.Converses (Handler.normal.converse 0 s cut.flatten) future y.store (notesOf 0 log)

section Reaches

variable {s : Store Subscriber} {settings : Settings} {cut : List Bytes} {moves : List Move}
  {m : Move} {y y' : Server} {log more : Log} {c : Connection} {future : List Arrival}

/-- A run that nothing disturbs gets somewhere. -/
theorem exists_reaches (hfits : cut.flatten.length ≤ settings.maxFrame)
    (h : Undisturbed cut moves) (hrun : (alone s settings).runAlone moves = some (y, log)) :
    ∃ c future, Reaches s settings cut moves y log c future := by
  obtain ⟨future, hfuture⟩ := h.arrivals
  have hnew := Connection.Converses.new (s := s) hfits
  rw [← hfuture] at hnew
  obtain ⟨c, hc, hconverses⟩ := converses_run_alone rfl hnew h.plain hrun
  exact ⟨c, future, h, hrun, hc, hfuture, hconverses⟩

namespace Reaches

/-- With every move that disturbs nothing, a run gets nearer to the end. -/
theorem concat (h : Reaches s settings cut moves y log c future)
    (hmore : Undisturbed cut (moves ++ [m])) (hstep : y.step 0 m = some (y', more)) :
    ∃ c' rest, Reaches s settings cut (moves ++ [m]) y' (log ++ more) c' rest ∧
      Connection.Less (c'.effort 0 rest y'.store) (c.effort 0 future y.store) := by
  obtain ⟨hplain, rest, rfl⟩ := (undisturbed_concat h.undisturbed h.arrivals_eq).mp hmore
  obtain ⟨c', hc', hconverses, hless⟩ :=
    converses_step_alone h.connections_eq h.converses hplain hstep
  refine ⟨c', rest, ⟨hmore, ?_, hc', ?_, ?_⟩, hless⟩
  · rw [runAlone_concat, h.run_eq, Option.bind_some, hstep, Option.map_some]
  · rw [arrivalsOf_append, arrivalsOf_singleton, List.append_assoc]
    exact h.arrivals_eq
  · rw [notesOf_append]
    exact hconverses

/-- A run that has not come to the end of the connection can go on. -/
theorem exists_move (h : Reaches s settings cut moves y log c future)
    (hends : ∀ ending, c.phase ≠ .ended ending) :
    ∃ m, Undisturbed cut (moves ++ [m]) ∧
      ((alone s settings).runAlone (moves ++ [m])).isSome := by
  obtain ⟨t, hahead, -⟩ := h.converses.ahead
  obtain ⟨m, rest, hplain, hrest, hstep⟩ := hahead.canMove hends
  refine ⟨m, (undisturbed_concat h.undisturbed h.arrivals_eq).mpr ⟨hplain, rest, hrest.symm⟩, ?_⟩
  rw [runAlone_concat, h.run_eq, Option.bind_some, Option.isSome_map]
  exact isSome_step_alone h.connections_eq hstep

/-- A run does not go on for ever, whatever is planned. Induction on what is left to be done. -/
theorem exists_stop {schedule : Nat → Move} {n : Nat}
    (h : Reaches s settings cut ((List.range n).map schedule) y log c future) :
    ∃ n, ¬ (Undisturbed cut ((List.range n).map schedule) ∧
      ((alone s settings).runAlone ((List.range n).map schedule)).isSome) := by
  generalize hleft : c.effort 0 future y.store = left
  induction left using Connection.wellFounded_less.induction generalizing n y log c future with
  | _ left ih =>
      subst hleft
      by_cases hmore : Undisturbed cut ((List.range (n + 1)).map schedule) ∧
          ((alone s settings).runAlone ((List.range (n + 1)).map schedule)).isSome
      · obtain ⟨hundisturbed, hsome⟩ := hmore
        rw [List.range_succ, List.map_append, List.map_singleton] at hundisturbed hsome
        rw [runAlone_concat, h.run_eq, Option.bind_some, Option.isSome_map] at hsome
        obtain ⟨⟨y', more⟩, hstep⟩ := Option.isSome_iff_exists.mp hsome
        obtain ⟨c', rest, hreaches, hless⟩ := h.concat hundisturbed hstep
        rw [← List.map_singleton, ← List.map_append, ← List.range_succ] at hreaches
        exact ih _ hless hreaches rfl
      · exact ⟨n + 1, hmore⟩

end Reaches

/-- **Pipelining does not show.** A connection alone with its store, and a client whose input
fits the largest frame. However that input is cut, however long each call has to be waited for,
however much the writer takes at a time and whatever the sizes are:

* A run that has come to the end of the connection has written what `Handler.converse` says, has
  left the keys that it says, and has ended as it says.
* A run that has not can go on.
* No run goes on for ever. -/
theorem transparent (hfits : cut.flatten.length ≤ settings.maxFrame) :
    (∀ moves y log, Undisturbed cut moves →
      (alone s settings).runAlone moves = some (y, log) →
        ∃ c, y.connections = [c] ∧
          (∀ ending, c.phase = .ended ending →
            ending = (Handler.normal.converse 0 s cut.flatten).ending ∧
            writtenOf (notesOf 0 log) = (Handler.normal.converse 0 s cut.flatten).written ∧
            y.store.entries = (Handler.normal.converse 0 s cut.flatten).entries) ∧
          ((∀ ending, c.phase ≠ .ended ending) → ∃ m, Undisturbed cut (moves ++ [m]) ∧
            ((alone s settings).runAlone (moves ++ [m])).isSome)) ∧
    ∀ schedule : Nat → Move, ∃ n, ¬ (Undisturbed cut ((List.range n).map schedule) ∧
      ((alone s settings).runAlone ((List.range n).map schedule)).isSome) := by
  refine ⟨fun moves y log hundisturbed hrun => ?_, fun schedule => ?_⟩
  · obtain ⟨c, future, h⟩ := exists_reaches hfits hundisturbed hrun
    exact ⟨c, h.connections_eq, fun ending => h.converses.of_ended, h.exists_move⟩
  · have hnothing : Undisturbed cut ((List.range 0).map schedule) :=
      ⟨fun _ hm => (nomatch hm), List.nil_prefix⟩
    obtain ⟨c, future, h⟩ := exists_reaches hfits hnothing rfl
    exact h.exists_stop

end Reaches

/-- What a client sends that sets a key, reads it and quits. The first chunk ends inside of the
second request. -/
def setting : Bytes := Bytes.ofString "*3\r\n$3\r\nSET\r\n$1\r\nk\r\n$1\r\nv\r\n*2\r\n$3\r\nGE"

/-- The second chunk ends inside of a request that comes too late. -/
def quitting : Bytes := Bytes.ofString "T\r\n$1\r\nk\r\n*1\r\n$4\r\nQUIT\r\n*1\r\n$4\r\nPI"

/-- The first call has to be waited for, the second one has not, and the writer is slow at
first. -/
def settingAndQuitting : List Move :=
  [.arrive (.chunk setting), .proceed, .proceed, .suspend, .answer fun _ => none, .proceed,
    .accept 3, .accept 512, .sync, .proceed, .proceed, .proceed, .arrive (.chunk quitting),
    .proceed, .answer fun _ => none, .proceed, .proceed, .proceed, .proceed, .proceed, .proceed,
    .proceed, .accept 512, .sync, .shutDown, .proceed]

/-- Nothing disturbs the run of `settingAndQuitting`. -/
theorem undisturbed_settingAndQuitting : Undisturbed [setting, quitting] settingAndQuitting := by
  refine ⟨?_, [.finish], rfl⟩
  simp [settingAndQuitting, Move.IsPlain, Move.IsSound]

/-- How each connection has ended. -/
def endings (y : Server) : List (Option Ending) :=
  y.connections.map fun c => match c.phase with
    | .ended ending => some ending
    | _ => none

/-- The hypotheses can be met by a run with a call that is waited for and a slow writer. -/
theorem transparent_quitting :
    [setting, quitting].flatten.length ≤ Settings.maxFrame {} ∧
      ∃ y log, (alone .empty {}).runAlone settingAndQuitting = some (y, log) ∧
        writtenOf (notesOf 0 log) = Bytes.ofString "+OK\r\n$1\r\nv\r\n+OK\r\n" ∧
        writtenOf (notesOf 0 log) =
          (Handler.normal.converse 0 .empty [setting, quitting].flatten).written := by
  have hfits : [setting, quitting].flatten.length ≤ Settings.maxFrame {} := by decide +kernel
  have hwritten : ((alone .empty {}).runAlone settingAndQuitting).map
      (fun result => (endings result.1, writtenOf (notesOf 0 result.2))) =
        some ([some .completed], Bytes.ofString "+OK\r\n$1\r\nv\r\n+OK\r\n") := by
    decide +kernel
  obtain ⟨⟨y, log⟩, hrun, heq⟩ := Option.map_eq_some_iff.mp hwritten
  obtain ⟨hendings, hbytes⟩ := Prod.mk.inj heq
  obtain ⟨c, hc, hended, -⟩ :=
    (transparent hfits).1 _ y log undisturbed_settingAndQuitting hrun
  have hphase : c.phase = .ended .completed := by
    simp only [endings, hc, List.map_singleton, List.cons.injEq, and_true] at hendings
    split at hendings
    · rename_i hphase
      rw [hphase, Option.some.inj hendings]
    · exact nomatch hendings
  exact ⟨hfits, y, log, hrun, hbytes, (hended _ hphase).2.1⟩

end Server

end RespStore
