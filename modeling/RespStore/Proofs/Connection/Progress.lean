import RespStore.Proofs.Connection.Ahead

/-!
# A connection neither stalls nor goes on for ever

While a connection that nobody interferes with has not ended, something can happen next: it has
something to do on its own, or the store, the writer or the client has (`Ahead.canMove`).
And whatever happens brings it nearer to its end (`Ahead.step_less`): `Connection.effort` is what
is left to be done, in the order of importance. First comes the input that is left and the way to
the end of the connection, then the calls of the request that is worked on and the way to the
next one, and last what is only to be moved elsewhere.
-/

namespace RespStore

/-- How many calls and computations a task makes until its end. -/
def Task.steps {α : Type} (client : Nat) (s : Store Subscriber) : Task α → Nat
  | .done _ => 0
  | .call _ q next =>
    1 + (next (s.react client q none).answer).steps client (s.react client q none).store
  | .aside next => 1 + next.steps client s

namespace Connection

/-- How far from the next request a connection is behind a flush. -/
def AfterFlush.level : AfterFlush → Nat
  | .select => 0
  | .look => 1
  | .turn => 2
  | .settle => 3
  | .shutDown _ => 2

namespace Phase

/-- Whether a connection has nothing to do with its client any more. -/
def isOut : Phase → Bool
  | .leaving _ _ => true
  | .abandoned _ => true
  | .ended _ => true
  | _ => false

/-- How far from its end a connection is. -/
def stage (phase : Phase) (state : State) : Nat :=
  if isOut phase then 0
  else if (closing? phase).isSome then 1
  else if state = .closed then 2
  else 3

/-- How far from the next request a connection is. Calls that are to be made count before
everything else. -/
def work (client : Nat) (s : Store Subscriber) : Phase → Nat
  | .running task => 10 * task.steps client s + 9
  | .waiting task _ => 10 * task.steps client s + 8
  | .leaving task _ => 10 * task.steps client s + 1
  | .settle => 6
  | .turn => 4
  | .shuttingDown _ => 4
  | .look => 2
  | .writing _ _ next => 2 * AfterFlush.level next + 1
  | .syncing next => 2 * AfterFlush.level next + 1
  | _ => 0

/-- How much the writer still has to take, with something for each chunk. -/
def volume : Phase → Nat
  | .writing chunk more _ => chunk.length + 1 + (more.map fun chunk => chunk.length + 1).sum
  | _ => 0

end Phase

/-- What is left to be done for a connection. -/
def effort (client : Nat) (future : List Arrival) (s : Store Subscriber) (c : Connection) :
    Nat × Nat × Nat :=
  (future.length + Phase.stage c.phase c.state +
      (c.reader.unread.length + (future.flatMap Arrival.bytes).length),
    Phase.work client s c.phase,
    c.mailbox.queued.length + c.reader.arrivals.length + Phase.volume c.phase)

/-- Whether less is left to be done. -/
def Less : Nat × Nat × Nat → Nat × Nat × Nat → Prop :=
  Prod.Lex (· < ·) (Prod.Lex (· < ·) (· < ·))

/-- What is left to be done cannot grow less for ever. -/
theorem wellFounded_less : WellFounded Less :=
  WellFounded.prod_lex Nat.lt_wfRel.wf (WellFounded.prod_lex Nat.lt_wfRel.wf Nat.lt_wfRel.wf)

section Less

variable {a b : Nat × Nat × Nat}

/-- Less is left if the first component is smaller, whatever becomes of the others. -/
theorem less_of_fst (h : a.1 < b.1) : Less a b := Prod.lex_def.mpr (.inl h)

/-- Less is left if the second component is smaller and the first one does not grow. -/
theorem less_of_snd (h : a.1 ≤ b.1) (h' : a.2.1 < b.2.1) : Less a b := by
  rcases Nat.lt_or_eq_of_le h with hlt | heq
  · exact less_of_fst hlt
  · exact Prod.lex_def.mpr (.inr ⟨heq, Prod.lex_def.mpr (.inl h')⟩)

/-- Less is left if the third component is smaller and neither of the others grows. -/
theorem less_of_trd (h : a.1 ≤ b.1) (h' : a.2.1 ≤ b.2.1) (h'' : a.2.2 < b.2.2) : Less a b := by
  rcases Nat.lt_or_eq_of_le h' with hlt | heq
  · exact less_of_snd h hlt
  · rcases Nat.lt_or_eq_of_le h with hlt' | heq'
    · exact less_of_fst hlt'
    · exact Prod.lex_def.mpr (.inr ⟨heq', Prod.lex_def.mpr (.inr ⟨heq, h''⟩)⟩)

end Less

variable {client : Nat} {future : List Arrival} {s s' : Store Subscriber} {c c' : Connection}

section Effort

variable (hunread : c'.reader.unread.length ≤ c.reader.unread.length)
  (hstage : Phase.stage c'.phase c'.state ≤ Phase.stage c.phase c.state)

include hunread hstage

/-- The first component does not grow as long as neither the input nor the way to the end does. -/
theorem effort_fst_le : (effort client future s' c').1 ≤ (effort client future s c).1 := by
  simp only [effort]
  omega

/-- A connection has less to do if it is nearer to the next request. -/
theorem less_of_work (hwork : Phase.work client s' c'.phase < Phase.work client s c.phase) :
    Less (effort client future s' c') (effort client future s c) :=
  less_of_snd (effort_fst_le hunread hstage) hwork

/-- A connection has less to do if there is less to be moved and it is no farther from the next
request. -/
theorem less_of_moved (hwork : Phase.work client s' c'.phase ≤ Phase.work client s c.phase)
    (hmoved : c'.mailbox.queued.length + c'.reader.arrivals.length + Phase.volume c'.phase <
      c.mailbox.queued.length + c.reader.arrivals.length + Phase.volume c.phase) :
    Less (effort client future s' c') (effort client future s c) :=
  less_of_trd (effort_fst_le hunread hstage) hwork hmoved

end Effort

/-- A connection has less to do if it is nearer to its end. -/
theorem less_of_stage (hunread : c'.reader.unread.length ≤ c.reader.unread.length)
    (hstage : Phase.stage c'.phase c'.state < Phase.stage c.phase c.state) :
    Less (effort client future s' c') (effort client future s c) := by
  refine less_of_fst ?_
  simp only [effort]
  omega

/-- A connection has less to do if there is less to be read and it is no farther from its end. -/
theorem less_of_unread (hunread : c'.reader.unread.length < c.reader.unread.length)
    (hstage : Phase.stage c'.phase c'.state ≤ Phase.stage c.phase c.state) :
    Less (effort client future s' c') (effort client future s c) := by
  refine less_of_fst ?_
  simp only [effort]
  omega

/-! ### Stages -/

section Stage

variable {phase : Phase} {state : State} {next : AfterFlush} {ending : Ending}

/-- A connection that is not about to end has two stages before it, and one more if it takes
requests. -/
theorem stage_of_open (hout : Phase.isOut phase = false) (hopen : Phase.closing? phase = none) :
    Phase.stage phase state = if state = .closed then 2 else 3 := by
  rw [Phase.stage, hout, hopen]
  rfl

/-- A connection between two requests, or flushing between them, is not about to end. -/
theorem stage_of_heading (h : Phase.heading? phase = some next)
    (hopen : closingAfter? next = none) :
    Phase.stage phase state = if state = .closed then 2 else 3 := by
  refine stage_of_open ?_ ((Phase.closing?_of_heading h).trans hopen)
  cases phase with
  | leaving task ending => exact nomatch h
  | abandoned task => exact nomatch h
  | ended ending => exact nomatch h
  | _ => rfl

/-- A connection that works on a request is not about to end. -/
theorem stage_of_task {task : Task (Except Fatal Completion)}
    (h : Phase.task? phase = some task) :
    Phase.stage phase state = if state = .closed then 2 else 3 := by
  refine stage_of_open ?_ (Phase.closing?_of_task h)
  cases phase with
  | running task => rfl
  | waiting task held => rfl
  | _ => exact nomatch h

/-- A connection that is about to end has one stage before it at most. -/
theorem stage_le_one (h : Phase.closing? phase = some ending) : Phase.stage phase state ≤ 1 := by
  rw [Phase.stage, h]
  split
  · exact Nat.zero_le 1
  · exact Nat.le_refl 1

end Stage

/-! ### Efforts of a flush -/

section Flush

variable (next : AfterFlush)

/-- Behind a flush a connection is as far from the next request as what it goes on with. -/
theorem work_afterFlush :
    Phase.work client s (c.afterFlush next).phase = 2 * AfterFlush.level next := by
  cases next with
  | _ => rfl

/-- A flush adds one step at most to what it goes on with. -/
theorem work_flush_le (client : Nat) (s : Store Subscriber) (c : Connection) :
    Phase.work client s (c.flush next).phase ≤ 2 * AfterFlush.level next + 1 := by
  rw [flush]
  split
  · rw [work_afterFlush]
    exact Nat.le_succ _
  · exact Nat.le_refl _

/-- A flush that is over leaves the end as far away as the wait for the writer did. -/
theorem stage_afterFlush :
    Phase.stage (c.afterFlush next).phase (c.afterFlush next).state =
      Phase.stage (.syncing next) c.state := by
  obtain ⟨autoRead, phase, heq⟩ := afterFlush_eq c next
  have hstate : (c.afterFlush next).state = c.state := by rw [heq]
  rw [hstate]
  cases next with
  | _ => rfl

variable {next} in
/-- All phases of a flush are equally far from the end. -/
theorem stage_of_flushes {phase : Phase} {state : State} {chunk : Bytes} {more : List Bytes}
    (h : Phase.Flushes phase next) :
    Phase.stage phase state = Phase.stage (.writing chunk more next) state := by
  cases h with
  | writing => rfl
  | syncing => rfl

variable {next} in
/-- All phases of a flush are equally far from the next request. -/
theorem work_of_flushes {phase : Phase} {chunk : Bytes} {more : List Bytes}
    (h : Phase.Flushes phase next) :
    Phase.work client s phase = Phase.work client s (.writing chunk more next) := by
  cases h with
  | writing => rfl
  | syncing => rfl

/-- A flush that starts between two requests. -/
theorem less_of_flush (hopen : closingAfter? next = none)
    (hunread : c.reader.unread.length ≤ c'.reader.unread.length)
    (hstage : Phase.stage c'.phase c'.state = if c.state = .closed then 2 else 3)
    (hwork : 2 * AfterFlush.level next + 1 < Phase.work client s c'.phase) :
    Less (effort client future s (c.flush next)) (effort client future s c') := by
  have hheading := heading?_flush c hopen
  obtain ⟨outbound, autoRead, phase, heq⟩ := flush_eq c next
  have hbound := work_flush_le next client s c
  refine less_of_work ?_ ?_ (Nat.lt_of_le_of_lt hbound hwork)
  · rw [heq]
    exact hunread
  · rw [hstage, stage_of_heading hheading hopen, heq]

/-- A connection that begins to close. -/
theorem less_of_close {ending : Ending} (hopen : 1 < Phase.stage c'.phase c'.state)
    (hunread : c.reader.unread.length ≤ c'.reader.unread.length) :
    Less (effort client future s' (c.close ending)) (effort client future s c') := by
  obtain ⟨-, hclosing, -⟩ := flush_facts { c with state := .closed } (.shutDown ending)
  obtain ⟨outbound, autoRead, phase, heq⟩ := flush_eq { c with state := .closed } (.shutDown ending)
  refine less_of_stage ?_ (Nat.lt_of_le_of_lt (stage_le_one hclosing) hopen)
  rw [close, heq]
  exact hunread

end Flush

/-! ### Every step brings the end nearer -/

/-- A connection that is not about to end has more than one stage before it. -/
theorem one_lt_stage {state : State} {phase : Phase}
    (h : Phase.stage phase state = if state = .closed then 2 else 3) :
    1 < Phase.stage phase state := by
  rw [h]
  split
  · exact Nat.lt_succ_self 1
  · exact Nat.lt_of_sub_eq_succ rfl

/-- A connection that looks for a request is not about to end. -/
theorem Polls.stage_eq (h : c.Polls) :
    Phase.stage c.phase c.state = if c.state = .closed then 2 else 3 := by
  rcases h.heading? with hnext | hnext
  · exact stage_of_heading hnext rfl
  · exact stage_of_heading hnext rfl

/-- Looking for a request leaves no more to be read. -/
theorem unread_of_poll {reader : Reader} {found : Option Reader.Found}
    (hpoll : c.reader.poll c.settings.maxFrame = (found, reader)) :
    reader.unread.length ≤ c.reader.unread.length := by
  have := Reader.length_unread_poll_le c.settings.maxFrame c.reader
  rwa [hpoll] at this

/-- The writer takes something of what it has been given. -/
theorem volume_rest_lt {n : Nat} {chunk : Bytes} {more : List Bytes} {next : AfterFlush}
    (hn : n ≠ 0) :
    Phase.volume (rest (chunk.drop n) more next) < Phase.volume (.writing chunk more next) := by
  cases hdrop : chunk.drop n with
  | nil =>
      cases more with
      | nil =>
          simp only [rest, Phase.volume]
          omega
      | cons first more =>
          simp only [rest, Phase.volume, List.map_cons, List.sum_cons]
          omega
  | cons b left =>
      have hrest : rest (b :: left) more next = .writing (b :: left) more next := by
        cases more with
        | nil => rfl
        | cons first more => rfl
      have hlength := congrArg List.length hdrop
      rw [List.length_drop, List.length_cons] at hlength
      rw [hrest]
      simp only [Phase.volume, List.length_cons]
      omega

/-- A connection whose request has failed for good. -/
theorem less_of_fatal {reason : Fatal} {task : Task (Except Fatal Completion)}
    (htask : Phase.task? c.phase = some task) :
    Less (effort client future s' (c.fail reason)) (effort client future s c) :=
  less_of_close (one_lt_stage (stage_of_task htask)) (Nat.le_refl _)

/-- A connection whose request is answered. -/
theorem less_of_complete {completion : Completion} {phase : Phase} {state : State}
    {outbound : Outbound} {autoRead : Bool}
    (htask : Phase.task? c.phase = some (.done (.ok completion))) (hstate : c.state ≠ .closed)
    (hnext : Phase.heading? phase = some .settle) (hwork : Phase.work client s' phase ≤ 7) :
    Less (effort client future s'
        { (c.complete completion).1 with outbound, autoRead, state, phase })
      (effort client future s c) := by
  have hstages : (if state = .closed then 2 else 3) ≤ if c.state = .closed then 2 else 3 := by
    rw [if_neg hstate]
    split
    · exact Nat.le_succ 2
    · exact Nat.le_refl 3
  refine less_of_work (Nat.le_refl _) ?_ (Nat.lt_of_le_of_lt hwork ?_)
  · rw [stage_of_heading hnext rfl, stage_of_task htask]
    exact hstages
  · generalize c.phase = phase at htask
    cases phase with
    | running task =>
        obtain rfl := Option.some.inj htask
        exact Nat.lt_of_sub_eq_succ rfl
    | waiting task held =>
        obtain rfl := Option.some.inj htask
        exact Nat.lt_of_sub_eq_succ rfl
    | _ => exact nomatch htask

/-- Taking a message leaves fewer of them. -/
theorem length_of_take? {mailbox mailbox' : Mailbox} {d : Delivery}
    (h : mailbox.take? = some (d, mailbox')) :
    mailbox'.queued.length < mailbox.queued.length := by
  rw [Mailbox.take?] at h
  split at h
  · cases h
  · rename_i hqueued
    obtain ⟨-, rfl⟩ := Prod.mk.inj (Option.some.inj h)
    rw [hqueued]
    exact Nat.lt_succ_self _

/-- A connection for which something arrives. -/
theorem less_of_arrive (a : Arrival) :
    Less (effort client future s { c with reader := c.reader.arrive a })
      (effort client (a :: future) s c) := by
  refine less_of_fst ?_
  have hunread := c.reader.length_unread_arrive a
  simp only [effort, List.length_cons, List.flatMap_cons, List.length_append]
  omega

/-- A connection whose writer was told to shut down. -/
theorem less_of_leave {ending : Ending} (hphase : c.phase = .shuttingDown ending) :
    Less (effort client future s (c.leave ending).1) (effort client future s c) := by
  rw [leave]
  cases c.handler with
  | none => exact less_of_stage (Nat.le_refl _) (hphase ▸ Nat.zero_lt_one)
  | some handler => exact less_of_stage (Nat.le_refl _) (hphase ▸ Nat.zero_lt_one)

/-- A connection whose writer takes something. -/
theorem less_of_accept {n : Nat} {chunk : Bytes} {more : List Bytes} {next : AfterFlush}
    (hphase : c.phase = .writing chunk more next) (hn : n ≠ 0) :
    Less (effort client future s { c with phase := rest (chunk.drop n) more next })
      (effort client future s c) := by
  have hflushes := Stream.flushes_rest (chunk.drop n) more next
  refine less_of_moved (Nat.le_refl _) ?_ ?_ ?_
  · rw [hphase]
    exact Nat.le_of_eq (stage_of_flushes hflushes)
  · rw [hphase]
    exact Nat.le_of_eq (work_of_flushes hflushes)
  · rw [hphase]
    exact Nat.add_lt_add_left (volume_rest_lt hn) _

/-- A connection whose writer has passed on everything. -/
theorem less_of_sync {next : AfterFlush} (hphase : c.phase = .syncing next) :
    Less (effort client future s (c.afterFlush next)) (effort client future s c) := by
  obtain ⟨autoRead, phase, heq⟩ := afterFlush_eq c next
  refine less_of_work ?_ ?_ ?_
  · exact Nat.le_of_eq (heq ▸ rfl)
  · rw [hphase]
    exact Nat.le_of_eq (stage_afterFlush next)
  · rw [hphase]
    exact Nat.lt_succ_of_le (Nat.le_of_eq (work_afterFlush next))

/-- A connection for which a call is answered, whatever messages the answer brings. -/
theorem less_of_answer {phase : Phase} {ds : List Delivery}
    (hstage : Phase.stage phase c.state ≤ Phase.stage c.phase c.state)
    (hwork : Phase.work client s' phase < Phase.work client s c.phase) :
    Less (effort client future s' (({ c with phase } : Connection).postEach ds).1)
      (effort client future s c) := by
  obtain ⟨mailbox, hpost⟩ := postEach_eq { c with phase } ds
  rw [hpost]
  exact less_of_work (Nat.le_refl _) hstage hwork

namespace Ahead

variable {t : Transcript} {m : Move} {p : Progress}

/-- A request is taken off the input. -/
theorem request_less {request : Request} {reader : Reader} {handler : Option Handler}
    {task : Task (Except Fatal Completion)} (h : Ahead client future s c t) (hphase : c.Polls)
    (hpoll : c.reader.poll c.settings.maxFrame = (some (.request request), reader)) :
    Less (effort client future s { c with reader, handler, phase := .running task })
      (effort client future s c) := by
  obtain ⟨handler, input, hlistens, -⟩ := h.listens_of_polls hphase
  obtain ⟨rest, hfront, hexpects⟩ := hlistens.of_request hpoll
  refine less_of_unread ?_ ?_
  · have hshorter := Request.length_lt_of_front hfront
    rw [hexpects.input_eq, hlistens.expects.input_eq, List.length_append,
      List.length_append] at hshorter
    exact Nat.lt_of_add_lt_add_right hshorter
  · rw [hphase.stage_eq]
    exact Nat.le_of_eq (stage_of_task rfl)

/-- A request that had to wait is answered. -/
theorem resume_less {completion : Completion} {held : List Delivery}
    (h : Ahead client future s c t) (hphase : c.phase = .waiting (.done (.ok completion)) held) :
    Less (effort client future s ((c.resume held completion).1.flush .settle))
      (effort client future s c) := by
  obtain ⟨input, hworks, -⟩ := h.cases_of_task (congrArg Phase.task? hphase)
  obtain ⟨outbound, autoRead, state, phase, heq, hnext, -⟩ := hworks.flush_resume_eq hphase
  have hwork := work_flush_le .settle client s (c.resume held completion).1
  rw [heq] at hwork ⊢
  exact less_of_complete (congrArg Phase.task? hphase) hworks.not_closed hnext hwork

/-- Whatever happens to a connection that nobody interferes with, it leaves less to be done. -/
theorem step_less (h : Ahead client (m.arrivals ++ future) s c t) (hstep : Steps client s c m p)
    (hplain : m.IsPlain) :
    Less (effort client future p.store
        (p.connection.postEach (deliveriesFor client p.notices)).1)
      (effort client (m.arrivals ++ future) s c) := by
  cases hstep with
  | finished hphase hstate =>
      have hnext : Phase.heading? c.phase = some .turn := congrArg Phase.heading? hphase
      exact less_of_close (one_lt_stage (stage_of_heading hnext rfl)) (Nat.le_refl _)
  | turn hphase _ _ =>
      have hnext : Phase.heading? c.phase = some .turn := congrArg Phase.heading? hphase
      refine less_of_work (Nat.le_refl _) ?_ ?_
      · rw [stage_of_heading hnext rfl]
        exact Nat.le_of_eq (stage_of_heading rfl rfl)
      · rw [hphase]
        change 2 < 4
        omega
  | turnFlush hphase _ _ =>
      have hnext : Phase.heading? c.phase = some .turn := congrArg Phase.heading? hphase
      refine less_of_flush .look rfl (Nat.le_refl _) (stage_of_heading hnext rfl) ?_
      rw [hphase]
      change 3 < 4
      omega
  | request hphase hpoll _ => exact h.request_less hphase hpoll
  | orphan hphase hpoll hhandler => exact absurd hhandler (h.handler_ne_none hphase)
  | endOfInput hphase hpoll =>
      obtain ⟨handler, input, hlistens, -⟩ := h.listens_of_polls hphase
      refine less_of_stage (unread_of_poll hpoll) ?_
      rw [hphase.stage_eq, if_neg hlistens.not_closed]
      change 2 < 3
      omega
  | readError hphase hpoll =>
      exact less_of_close (one_lt_stage hphase.stage_eq) (unread_of_poll hpoll)
  | nothing hphase hpoll =>
      refine less_of_flush .select rfl (unread_of_poll hpoll) (Polls.stage_eq (.inl hphase)) ?_
      rw [hphase]
      change 1 < 2
      omega
  | @more reader hphase hmailbox harrivals hpoll =>
      obtain ⟨handler, input, hlistens, -⟩ := h.listens_of_polls (.inr ⟨hphase, hmailbox⟩)
      have harrived : reader.arrivals.length < c.reader.arrivals.length := by
        rw [(hlistens.of_none hpoll).2]
        exact List.length_pos_iff.mpr harrivals
      exact less_of_moved (unread_of_poll hpoll) (Nat.le_refl _) (Nat.le_refl _)
        (Nat.add_lt_add_right (Nat.add_lt_add_left harrived _) _)
  | message hphase hmailbox => exact nomatch (h.take?_eq_none hphase).symm.trans hmailbox
  | overBudget hphase _ =>
      have hnext : Phase.heading? c.phase = some .settle := congrArg Phase.heading? hphase
      refine less_of_flush .turn rfl (Nat.le_refl _) (stage_of_heading hnext rfl) ?_
      rw [hphase]
      change 5 < 6
      omega
  | settled hphase _ =>
      have hnext : Phase.heading? c.phase = some .settle := congrArg Phase.heading? hphase
      refine less_of_work (Nat.le_refl _) ?_ ?_
      · rw [stage_of_heading hnext rfl]
        exact Nat.le_of_eq (stage_of_heading rfl rfl)
      · rw [hphase]
        change 4 < 6
        omega
  | fatal hphase => exact less_of_fatal (congrArg Phase.task? hphase)
  | answered hphase =>
      obtain ⟨input, hworks, -⟩ := h.cases_of_task (congrArg Phase.task? hphase)
      exact less_of_complete (congrArg Phase.task? hphase) hworks.not_closed rfl (Nat.le_succ 6)
  | fatalWaiting hphase => exact less_of_fatal (congrArg Phase.task? hphase)
  | @answeredWaiting completion held hphase => exact h.resume_less hphase
  | left hphase =>
      refine less_of_work (Nat.le_refl _) (Nat.zero_le _) ?_
      rw [hphase]
      exact Nat.zero_lt_succ _
  | dropped hphase => exact absurd hphase (h.not_abandoned _)
  | @answer instead owned q next hphase =>
      rw [hplain.2 instead rfl q]
      refine less_of_answer (hphase ▸ Nat.le_refl _) ?_
      simp only [hphase, Phase.work, Task.steps]
      omega
  | @answerWaiting instead owned q next held hphase =>
      rw [hplain.2 instead rfl q]
      refine less_of_answer (hphase ▸ Nat.le_refl _) ?_
      simp only [hphase, Phase.work, Task.steps]
      omega
  | @answerLeaving instead owned q next ending hphase =>
      rw [hplain.2 instead rfl q]
      refine less_of_answer (hphase ▸ Nat.le_refl _) ?_
      simp only [hphase, Phase.work, Task.steps]
      omega
  | answerAbandoned hphase => exact absurd hphase (h.not_abandoned _)
  | @computed next hphase =>
      refine less_of_work (Nat.le_refl _) (hphase ▸ Nat.le_refl _) ?_
      rw [hphase]
      change 10 * next.steps client s + 9 < 10 * (1 + next.steps client s) + 9
      omega
  | @computedWaiting next held hphase =>
      refine less_of_work (Nat.le_refl _) (hphase ▸ Nat.le_refl _) ?_
      rw [hphase]
      change 10 * next.steps client s + 8 < 10 * (1 + next.steps client s) + 8
      omega
  | @suspend task hphase _ =>
      obtain ⟨input, hworks, -⟩ := h.cases_of_task (congrArg Phase.task? hphase)
      refine less_of_work (Nat.le_refl _) ?_ ?_
      · rw [stage_of_task (congrArg Phase.task? hphase), if_neg hworks.not_closed]
        exact Nat.le_refl _
      · rw [hphase]
        exact Nat.lt_succ_self _
  | @hold task held d mailbox hphase _ hmailbox =>
      have htaken := length_of_take? hmailbox
      refine less_of_moved (Nat.le_refl _) (hphase ▸ Nat.le_refl _) (hphase ▸ Nat.le_refl _) ?_
      rw [hphase]
      exact Nat.add_lt_add_right (Nat.add_lt_add_right htaken _) _
  | accept hphase hn => exact less_of_accept hphase hn
  | acceptNothing hphase => exact absurd rfl hplain.1
  | sync hphase => exact less_of_sync hphase
  | refuseWriting hphase => exact hplain.1.elim
  | refuseSyncing hphase => exact hplain.1.elim
  | refuseShutDown hphase => exact hplain.1.elim
  | shutDown hphase => exact less_of_leave hphase
  | arrive a => exact less_of_arrive a
  | abandon _ => exact hplain.1.elim

end Ahead

/-! ### Something can always happen -/

/-- Whether a move that disturbs nothing is possible, with what is going to arrive. -/
def CanMove (client : Nat) (future : List Arrival) (s : Store Subscriber) (c : Connection) : Prop :=
  ∃ m rest, m.IsPlain ∧ future = m.arrivals ++ rest ∧ (c.step client s m).isSome

section CanMove

variable {m : Move}

/-- A sound move that brings nothing and answers nothing disturbs nothing. -/
theorem canMove_of_sound (hsound : m.IsSound) (hanswer : ∀ instead, m ≠ .answer instead)
    (harrivals : m.arrivals = []) (h : (c.step client s m).isSome) : CanMove client future s c :=
  ⟨m, future, ⟨hsound, fun instead heq => absurd heq (hanswer instead)⟩,
    harrivals ▸ rfl, h⟩

/-- A connection that can do something on its own can move. -/
theorem canMove_proceed (h : c.proceed.isSome) : CanMove client future s c :=
  canMove_of_sound (m := .proceed) trivial (fun _ => Move.noConfusion) rfl (by
    rw [Connection.step, Option.isSome_map]
    exact h)

/-- A connection whose call the store can answer can move. -/
theorem canMove_answer (h : (c.answer client s fun _ => none).isSome) :
    CanMove client future s c := by
  refine ⟨.answer fun _ => none, future, ⟨trivial, fun instead heq q => ?_⟩, rfl, h⟩
  rw [← Move.answer.inj heq]

/-- A connection whose computation is finished can move. -/
theorem canMove_computed (h : c.computed.isSome) : CanMove client future s c :=
  canMove_of_sound (m := .computed) trivial (fun _ => Move.noConfusion) rfl (by
    rw [Connection.step, Option.isSome_map]
    exact h)

end CanMove

/-- A connection that waits for input, with none there, can wait for what is going to arrive. -/
theorem Listens.canMove {handler : Handler} {input : Bytes} (h : Listens future c handler input)
    (hphase : c.phase = .select) : CanMove client future s c := by
  by_cases harrivals : c.reader.arrivals = []
  · cases future with
    | nil =>
        have hnothing : c.reader.arrivals ++ [] = [] := by rw [harrivals, List.append_nil]
        exact absurd hnothing h.expects.whole.ne_nil
    | cons a rest => exact ⟨.arrive a, rest, ⟨trivial, fun _ => (nomatch ·)⟩, rfl, rfl⟩
  · refine canMove_proceed ?_
    have htake : c.mailbox.take? = none := by
      rw [Mailbox.take?, h.queued_eq]
    have hsome : ¬ c.reader.arrivals.isEmpty = true := fun hempty =>
      harrivals (List.isEmpty_iff.mp hempty)
    rw [proceed, hphase]
    simp only [select, htake]
    rw [if_neg hsome]
    cases hpoll : c.reader.poll c.settings.maxFrame with
    | mk found reader =>
        cases found with
        | none => rfl
        | some found => rfl

/-- **No stall.** As long as a connection that nobody interferes with has not ended, something can
happen to it that disturbs nothing. -/
theorem Ahead.canMove {t : Transcript} (h : Ahead client future s c t)
    (hends : ∀ ending, c.phase ≠ .ended ending) : CanMove client future s c := by
  cases hphase : c.phase with
  | turn => exact canMove_proceed (by rw [proceed, hphase]; rfl)
  | look => exact canMove_proceed (by rw [proceed, hphase]; rfl)
  | select =>
      have hnext : Phase.heading? c.phase = some .select := congrArg Phase.heading? hphase
      obtain ⟨handler, input, hlistens, -⟩ := h.listens_of_heading hnext (.inr rfl)
      exact hlistens.canMove hphase
  | settle => exact canMove_proceed (by rw [proceed, hphase]; rfl)
  | running task =>
      cases task with
      | done result => exact canMove_proceed (by rw [proceed, hphase]; rfl)
      | call owned q next => exact canMove_answer (by rw [answer, hphase]; rfl)
      | aside next => exact canMove_computed (by rw [computed, hphase]; rfl)
  | waiting task held =>
      cases task with
      | done result => exact canMove_proceed (by rw [proceed, hphase]; rfl)
      | call owned q next => exact canMove_answer (by rw [answer, hphase]; rfl)
      | aside next => exact canMove_computed (by rw [computed, hphase]; rfl)
  | writing chunk more next =>
      refine canMove_of_sound (m := .accept 1) Nat.one_ne_zero (fun _ => Move.noConfusion) rfl ?_
      rw [Connection.step, Connection.accept, hphase]
      rfl
  | syncing next =>
      refine canMove_of_sound (m := .sync) trivial (fun _ => Move.noConfusion) rfl ?_
      rw [Connection.step, Connection.sync, hphase]
      rfl
  | shuttingDown ending =>
      refine canMove_of_sound (m := .shutDown) trivial (fun _ => Move.noConfusion) rfl ?_
      rw [Connection.step, Connection.shutDown, hphase]
      rfl
  | leaving task ending =>
      cases task with
      | done result => exact canMove_proceed (by rw [proceed, hphase]; rfl)
      | call owned q next => exact canMove_answer (by rw [answer, hphase]; rfl)
      | aside next =>
          obtain ⟨hcloses, -⟩ := h.cases_of_closing (congrArg Phase.closing? hphase)
          obtain ⟨ids, htask⟩ := hcloses.leaving _ _ hphase
          cases ids with
          | nil => cases htask
          | cons id ids => cases htask
  | abandoned task => exact absurd hphase (h.not_abandoned task)
  | ended ending => exact absurd hphase (hends ending)

end Connection

end RespStore
