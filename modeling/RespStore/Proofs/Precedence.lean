import RespStore.Proofs.Acknowledgement

/-!
# Messages that wait when a request is taken

A connection that waits takes a message before it takes a request, but one message only: then it
looks for a request again, and takes one if it has arrived, whatever else is in its mailbox. From
there on the messages have to wait for the reply. This module says on which side of a request a
message goes out.

* `Connection.Working` is the time between a request and its reply. Nothing is put into the buffer
  meanwhile (`Steps.working`).
* `Server.message_before_request` is the main result, about every run of any number of connections.
-/

namespace RespStore

/-! ### Notes -/

/-- Whether a note says that a reply or a message was put into the buffer. -/
def Note.Speaks : Note → Prop
  | .replied _ => True
  | .delivered _ => True
  | _ => False

/-- Whether a note says that a request was taken. -/
def Note.Takes : Note → Prop
  | .took _ => True
  | _ => False

/-- The request that was taken, if a note says that. -/
def Note.request? : Note → Option Request
  | .took request => some request
  | _ => none

/-- The reply that was put into the buffer, if a note says that. -/
def Note.reply? : Note → Option Reply
  | .replied reply => some reply
  | _ => none

/-- A note that tells a request is the note that it was taken. -/
theorem Note.eq_took {note : Note} {request : Request} (h : note.request? = some request) :
    note = .took request := by
  cases note with
  | took other => exact congrArg Note.took (Option.some.inj h)
  | _ => exact absurd h (Option.some_ne_none _).symm

/-- A note that tells a reply is the note that it was put into the buffer. -/
theorem Note.eq_replied {note : Note} {reply : Reply} (h : note.reply? = some reply) :
    note = .replied reply := by
  cases note with
  | replied other => exact congrArg Note.replied (Option.some.inj h)
  | _ => exact absurd h (Option.some_ne_none _).symm

namespace Connection

/-! ### From a request to its reply -/

/-- Whether a request is worked on, or none is taken any more. -/
def Working (c : Connection) : Prop :=
  Phase.task? c.phase ≠ none ∨ Phase.closing? c.phase ≠ none

/-- Whether a step neither takes a request nor puts anything into the buffer. -/
def Idles (notes : List Note) : Prop := ∀ note ∈ notes, ¬ note.Speaks ∧ ¬ note.Takes

theorem idles_nil : Idles [] := List.forall_mem_nil _

/-- Messages that are discarded are not put into the buffer. -/
theorem idles_discarded (ds : List Delivery) : Idles (ds.map .discarded) :=
  List.forall_mem_map.mpr fun _ _ => ⟨id, id⟩

/-- A connection that leaves puts nothing more into the buffer. -/
theorem idles_leave (c : Connection) (ending : Ending) : Idles (c.leave ending).2 := by
  rw [leave]
  cases c.handler with
  | none => exact List.forall_mem_cons.mpr ⟨⟨id, id⟩, List.forall_mem_singleton.mpr ⟨id, id⟩⟩
  | some handler => exact List.forall_mem_singleton.mpr ⟨id, id⟩

/-- A message that is put into a mailbox is not yet put into the buffer. -/
theorem idles_post (c : Connection) (d : Delivery) : Idles (c.post d).2 := by
  intro note hnote
  rcases note_of_mem_post c hnote with rfl | rfl
  · exact ⟨id, id⟩
  · exact ⟨id, id⟩

/-- A connection that looks for a request works on none. -/
theorem Polls.not_working {c : Connection} (h : c.Polls) : ¬ c.Working := by
  rintro (htask | hclosing)
  · rcases h with hphase | ⟨hphase, -⟩
    · exact htask (hphase ▸ rfl)
    · exact htask (hphase ▸ rfl)
  · exact hclosing h.atRest.closing?_eq

section Steps

variable {client : Nat} {s : Store Subscriber} {c : Connection} {m : Move} {p : Progress}

/-- A connection that is about to end takes nothing and says nothing any more. -/
theorem Steps.closing (hstep : Steps client s c m p) (h : Phase.closing? c.phase ≠ none) :
    Phase.closing? p.connection.phase ≠ none ∧ Idles p.notes := by
  cases hstep with
  | request hphase _ _ => exact absurd hphase.atRest.closing?_eq h
  | orphan hphase _ _ => exact absurd hphase.atRest.closing?_eq h
  | endOfInput hphase _ => exact absurd hphase.atRest.closing?_eq h
  | readError hphase _ => exact absurd hphase.atRest.closing?_eq h
  | left _ => exact ⟨nofun, List.forall_mem_singleton.mpr ⟨id, id⟩⟩
  | dropped _ => exact ⟨nofun, List.forall_mem_singleton.mpr ⟨id, id⟩⟩
  | answerLeaving _ => exact ⟨nofun, idles_nil⟩
  | answerAbandoned _ => exact ⟨nofun, idles_nil⟩
  | @accept n chunk behind next hphase _ =>
      have hrest := Stream.closing?_of_flushes (Stream.flushes_rest (chunk.drop n) behind next)
      exact ⟨fun hopen => h (hphase ▸ hrest.symm.trans hopen),
        List.forall_mem_singleton.mpr ⟨id, id⟩⟩
  | acceptNothing _ => exact ⟨closing?_flushFailed c _ _, List.forall_mem_singleton.mpr ⟨id, id⟩⟩
  | @sync next hphase =>
      exact ⟨fun hopen => h (hphase ▸ (closing?_afterFlush c next).symm.trans hopen),
        List.forall_mem_singleton.mpr ⟨id, id⟩⟩
  | refuseWriting _ => exact ⟨closing?_flushFailed c _ _, idles_nil⟩
  | refuseSyncing _ => exact ⟨closing?_flushFailed c _ _, idles_nil⟩
  | refuseShutDown _ => exact ⟨closing?_leave c _, idles_leave c _⟩
  | shutDown _ => exact ⟨closing?_leave c _, idles_leave c _⟩
  | arrive a => exact ⟨h, idles_nil⟩
  | abandon _ => exact ⟨nofun, idles_nil⟩
  | _ =>
      have hphase := ‹c.phase = _›
      exact absurd (hphase ▸ rfl) h

/-- While a request is worked on, nothing is said before its reply, and no other request is
taken. -/
theorem Steps.working (hstep : Steps client s c m p) (h : c.Working) :
    p.connection.Working ∧ Idles p.notes ∨ ∃ reply behind, p.notes = .replied reply :: behind := by
  rcases h with htask | hclosing
  · cases hstep with
    | request hphase _ _ => exact absurd (.inl htask) hphase.not_working
    | orphan hphase _ _ => exact absurd (.inl htask) hphase.not_working
    | endOfInput hphase _ => exact absurd (.inl htask) hphase.not_working
    | readError hphase _ => exact absurd (.inl htask) hphase.not_working
    | fatal _ => exact .inl ⟨.inr (closing?_fail c _), idles_nil⟩
    | answered _ => exact .inr ⟨_, _, rfl⟩
    | fatalWaiting _ => exact .inl ⟨.inr (closing?_fail c _), idles_discarded _⟩
    | answeredWaiting _ => exact .inr ⟨_, _, rfl⟩
    | answer _ => exact .inl ⟨.inl nofun, idles_nil⟩
    | answerWaiting _ => exact .inl ⟨.inl nofun, idles_nil⟩
    | computed _ => exact .inl ⟨.inl nofun, idles_nil⟩
    | computedWaiting _ => exact .inl ⟨.inl nofun, idles_nil⟩
    | suspend _ _ => exact .inl ⟨.inl nofun, idles_nil⟩
    | hold _ _ _ => exact .inl ⟨.inl nofun, List.forall_mem_singleton.mpr ⟨id, id⟩⟩
    | arrive a => exact .inl ⟨.inl htask, idles_nil⟩
    | abandon _ => exact .inl ⟨.inr nofun, idles_nil⟩
    | _ =>
        have hphase := ‹c.phase = _›
        exact absurd (hphase ▸ rfl) htask
  · obtain ⟨hclosing, hidles⟩ := hstep.closing hclosing
    exact .inl ⟨.inr hclosing, hidles⟩

/-- Where a request is taken. -/
theorem Steps.of_took {request : Request} (hstep : Steps client s c m p)
    (h : .took request ∈ p.notes) :
    c.Polls ∧ p.notes = [.took request] ∧ p.connection.Working := by
  cases hstep with
  | request hphase _ _ =>
      obtain rfl := Note.took.inj (List.mem_singleton.mp h)
      exact ⟨hphase, rfl, .inl nofun⟩
  | orphan hphase _ _ =>
      obtain rfl := Note.took.inj (List.mem_singleton.mp h)
      exact ⟨hphase, rfl, .inr (closing?_fail _ _)⟩
  | message _ _ =>
      rcases note_of_mem_deliver h with heq | heq
      · exact nomatch heq
      · exact nomatch heq
  | answered _ =>
      rcases note_of_mem_complete h with heq | ⟨d, heq⟩
      · exact nomatch heq
      · exact nomatch heq
  | answeredWaiting _ =>
      rcases note_of_mem_resume h with heq | ⟨d, heq | heq⟩
      · exact nomatch heq
      · exact nomatch heq
      · exact nomatch heq
  | fatalWaiting _ => exact absurd trivial (idles_discarded _ _ h).2
  | refuseShutDown _ => exact absurd trivial (idles_leave c _ _ h).2
  | shutDown _ => exact absurd trivial (idles_leave c _ _ h).2
  | left _ => exact nomatch List.mem_singleton.mp h
  | dropped _ => exact nomatch List.mem_singleton.mp h
  | hold _ _ _ => exact nomatch List.mem_singleton.mp h
  | accept _ _ => exact nomatch List.mem_singleton.mp h
  | acceptNothing _ => exact nomatch List.mem_singleton.mp h
  | sync _ => exact nomatch List.mem_singleton.mp h
  | _ => exact nomatch h

end Steps

/-- A message is only put into the buffer behind the reply to the request at hand. -/
structure RepliesFirst (c : Connection) (notes : List Note) : Prop where
  /-- As long as there is no reply, the request is worked on. -/
  working : (∀ reply, .replied reply ∉ notes) → c.Working
  /-- Every message has a reply in front of it. -/
  delivered : ∀ front d behind, notes = front ++ .delivered d :: behind →
    ∃ reply, .replied reply ∈ front

namespace RepliesFirst

variable {c c' : Connection} {notes more : List Note}

/-- What is added is nothing to be heard, or begins with the reply. -/
theorem append (h : RepliesFirst c notes)
    (hmore : c.Working →
      c'.Working ∧ Idles more ∨ ∃ reply behind, more = .replied reply :: behind) :
    RepliesFirst c' (notes ++ more) := by
  refine ⟨fun hnone => ?_, fun front d behind hsplit => ?_⟩
  · have hworking := h.working fun reply hmem => hnone reply (List.mem_append_left _ hmem)
    rcases hmore hworking with ⟨hworking, -⟩ | ⟨reply, behind, rfl⟩
    · exact hworking
    · exact absurd (List.mem_append_right _ List.mem_cons_self) (hnone reply)
  · rcases split_append hsplit with ⟨rest, hnotes⟩ | ⟨mid, rfl, rfl⟩
    · exact h.delivered front d rest hnotes
    · by_cases hreplied : ∃ reply, .replied reply ∈ notes
      · obtain ⟨reply, hmem⟩ := hreplied
        exact ⟨reply, List.mem_append_left _ hmem⟩
      · rcases hmore (h.working (not_exists.mp hreplied)) with ⟨-, hidles⟩ | ⟨reply, rest, hcons⟩
        · have hmem : .delivered d ∈ mid ++ .delivered d :: behind :=
            List.mem_append_right _ List.mem_cons_self
          exact absurd trivial (hidles _ hmem).1
        · cases mid with
          | nil => exact nomatch (List.cons.inj hcons).1
          | cons first mid =>
              obtain ⟨rfl, -⟩ := List.cons.inj hcons
              exact ⟨reply, List.mem_append_right _ List.mem_cons_self⟩

/-- A message that arrives meanwhile waits in the mailbox. -/
theorem post (h : RepliesFirst c notes) (d : Delivery) :
    RepliesFirst (c.post d).1 (notes ++ (c.post d).2) := by
  refine h.append fun hworking => .inl ⟨?_, idles_post c d⟩
  obtain ⟨mailbox, hposted⟩ := c.post_eq d
  rw [hposted]
  exact hworking

end RepliesFirst

/-- Whether a connection waits, and is going to take this message next and to put it into its
buffer. -/
def TakesNext (c : Connection) (d : Delivery) : Prop :=
  c.phase = .select ∧ c.mailbox.queued.head? = some d ∧ c.isSubscribed d.channel = true

/-- What a connection does that is going to take a message next. -/
theorem Steps.takesNext {client : Nat} {s : Store Subscriber} {c : Connection} {m : Move}
    {p : Progress} {d : Delivery} (hstep : Steps client s c m p) (h : c.TakesNext d) :
    p.notes = [.delivered d] ∨
      Idles p.notes ∧ (Phase.closing? p.connection.phase ≠ none ∨ p.connection.TakesNext d) := by
  obtain ⟨hselect, hhead, hsubscribed⟩ := h
  replace hselect := hselect.symm
  have hpolls : ¬ c.Polls := by
    rintro (hlook | ⟨-, hqueued⟩)
    · exact nomatch hselect.trans hlook
    · rw [hqueued] at hhead
      exact nomatch hhead
  cases hstep with
  | @message first mailbox _ hmailbox =>
      obtain rfl : first = d := by
        rw [queued_of_take hmailbox] at hhead
        exact Option.some.inj hhead
      exact .inl (notes_deliver (c := { c with mailbox, phase := .turn }) hsubscribed)
  | arrive a => exact .inr ⟨idles_nil, .inr ⟨hselect.symm, hhead, hsubscribed⟩⟩
  | abandon _ => exact .inr ⟨idles_nil, .inl nofun⟩
  | request hphase _ _ => exact absurd hphase hpolls
  | orphan hphase _ _ => exact absurd hphase hpolls
  | endOfInput hphase _ => exact absurd hphase hpolls
  | readError hphase _ => exact absurd hphase hpolls
  | more hphase hqueued _ _ => exact absurd (.inr ⟨hphase, hqueued⟩) hpolls
  | _ =>
      have hphase := ‹c.phase = _›
      exact nomatch hselect.trans hphase

/-- A message goes out before a request is taken. -/
structure GoesFirst (d : Delivery) (c : Connection) (notes : List Note) : Prop where
  /-- As long as the message has not gone out, it is the first one to be taken. -/
  waiting : .delivered d ∉ notes → Phase.closing? c.phase ≠ none ∨ c.TakesNext d
  /-- No request is taken before. -/
  taken : ∀ front request behind, notes = front ++ .took request :: behind → .delivered d ∈ front

namespace GoesFirst

variable {c c' : Connection} {d : Delivery} {notes more : List Note}

/-- What is added begins with the message, or takes no request. -/
theorem append (h : GoesFirst d c notes)
    (hmore : .delivered d ∉ notes → more = [.delivered d] ∨
      Idles more ∧ (Phase.closing? c'.phase ≠ none ∨ c'.TakesNext d)) :
    GoesFirst d c' (notes ++ more) := by
  refine ⟨fun hnot => ?_, fun front request behind hsplit => ?_⟩
  · rw [List.mem_append, not_or] at hnot
    rcases hmore hnot.1 with rfl | ⟨-, hnext⟩
    · exact absurd (List.mem_singleton_self _) hnot.2
    · exact hnext
  · rcases split_append hsplit with ⟨rest, hnotes⟩ | ⟨mid, rfl, rfl⟩
    · exact h.taken front request rest hnotes
    · have htook : .took request ∈ mid ++ .took request :: behind :=
        List.mem_append_right _ List.mem_cons_self
      by_cases hdelivered : .delivered d ∈ notes
      · exact List.mem_append_left _ hdelivered
      · rcases hmore hdelivered with hsingle | ⟨hidles, -⟩
        · rw [hsingle] at htook
          exact nomatch List.mem_singleton.mp htook
        · exact absurd trivial (hidles _ htook).2

/-- A message that arrives meanwhile queues up behind the one that goes first. -/
theorem post (h : GoesFirst d c notes) (other : Delivery) :
    GoesFirst d (c.post other).1 (notes ++ (c.post other).2) := by
  refine h.append fun hnot => .inr ⟨idles_post c other, ?_⟩
  rw [Connection.post]
  split
  · refine (h.waiting hnot).imp id ?_
    rintro ⟨hphase, hhead, hsubscribed⟩
    refine ⟨hphase, ?_, hsubscribed⟩
    rw [Mailbox.offer]
    split
    · exact hhead
    · rw [List.head?_append, hhead]
      rfl
  · exact h.waiting hnot

variable {client : Nat} {s : Store Subscriber} {m : Move} {p : Progress}

/-- A connection that waits takes a message before it takes a request. -/
theorem step (h : GoesFirst d c notes) (hstep : Steps client s c m p) :
    GoesFirst d p.connection (notes ++ p.notes) := by
  refine h.append fun hnot => ?_
  rcases h.waiting hnot with hclosing | hnext
  · obtain ⟨hclosing, hidles⟩ := hstep.closing hclosing
    exact .inr ⟨hidles, .inl hclosing⟩
  · exact hstep.takesNext hnext

end GoesFirst

end Connection

/-! ### Runs -/

namespace Server

/-- A connection has taken a request in a step of its own. -/
theorem step_of_took {y y' : Server} {i j : Nat} {m : Move} {log : Log} {c c' : Connection}
    {request : Request} (hstep : y.step i m = some (y', log)) (hc : y.connections[j]? = some c)
    (hc' : y'.connections[j]? = some c') (htook : .took request ∈ notesOf j log) :
    ∃ p ds, c.step j y.store m = some p ∧ .took request ∈ p.notes ∧
      c' = (p.connection.postEach ds).1 ∧
      notesOf j log = p.notes ++ (p.connection.postEach ds).2 := by
  obtain ⟨_, p, moved, ds, hmover, hp, -, rfl, hnotes, hmoved⟩ := step_at hstep hc'
  rw [hnotes] at htook
  have hown : .took request ∈ if i = j then p.notes else [] := by
    refine (List.mem_append.mp htook).resolve_right fun hmem => ?_
    obtain ⟨d, heq | heq⟩ := moved.note_of_mem_postEach hmem
    · exact nomatch heq
    · exact nomatch heq
  rcases hmoved with ⟨rfl, rfl⟩ | ⟨hij, -⟩
  · obtain rfl := Option.some.inj (hc.symm.trans hmover)
    rw [if_pos rfl] at hown hnotes
    exact ⟨p, ds, hp, hown, rfl, hnotes⟩
  · rw [if_neg hij] at hown
    exact nomatch hown

/-- What a connection has done that took a request: it looked for one, works on it, and has put
nothing into its buffer. -/
theorem of_took {y y' : Server} {i j : Nat} {m : Move} {log : Log} {c c' : Connection}
    {request : Request} (hstep : y.step i m = some (y', log)) (hc : y.connections[j]? = some c)
    (hc' : y'.connections[j]? = some c') (htook : .took request ∈ notesOf j log) :
    c.Polls ∧ c'.Working ∧ ∀ d, .delivered d ∉ notesOf j log := by
  obtain ⟨p, ds, hp, hown, rfl, hnotes⟩ := step_of_took hstep hc hc' htook
  obtain ⟨hpolls, htaken, hworking⟩ := (Connection.steps_of_step hp).of_took hown
  obtain ⟨mailbox, hposted⟩ := p.connection.postEach_eq ds
  refine ⟨hpolls, hposted ▸ hworking, fun d hmem => ?_⟩
  rw [hnotes] at hmem
  rcases List.mem_append.mp hmem with hmem | hmem
  · rw [htaken] at hmem
    exact nomatch List.mem_singleton.mp hmem
  · exact Connection.not_delivered_postEach hmem

/-- Behind a request that was taken, messages come only behind the reply. -/
theorem repliesFirst_of_run {y y' : Server} {j : Nat} {moves : List (Nat × Move)} {log : Log}
    {c c' : Connection} (hc : y.connections[j]? = some c) (hworking : c.Working)
    (hrun : y.run moves = some (y', log)) (hc' : y'.connections[j]? = some c') :
    c'.RepliesFirst (notesOf j log) := by
  have hfirst : c.RepliesFirst [] :=
    ⟨fun _ => hworking, fun front d behind h => nomatch List.append_eq_nil_iff.mp h.symm⟩
  exact run_invariant_of (fun h hstep => h.append (Connection.steps_of_step hstep).working)
    (fun c notes d h => h.post d) hc hfirst hrun hc'

/-- Before a request is taken, the message that is to be taken next goes out. -/
theorem goesFirst_of_run {y y' : Server} {j : Nat} {moves : List (Nat × Move)} {log : Log}
    {c c' : Connection} {d : Delivery} (hc : y.connections[j]? = some c) (hnext : c.TakesNext d)
    (hrun : y.run moves = some (y', log)) (hc' : y'.connections[j]? = some c') :
    c'.GoesFirst d (notesOf j log) := by
  have hfirst : c.GoesFirst d [] :=
    ⟨fun _ => .inr hnext, fun front request behind h => nomatch List.append_eq_nil_iff.mp h.symm⟩
  exact run_invariant_of (fun h hstep => h.step (Connection.steps_of_step hstep))
    (fun c notes d h => h.post d) hc hfirst hrun hc'

/-- **A message before the next request.** Any connections over one store, and any run of them.

* When a request is taken, no message that waits by then goes out before the reply: between the
  request and its reply no message is put into the buffer at all. So those that are wanted go out
  before the reply if and only if there are none. There are none when the connection was waiting
  for its client.
* When a connection waits for its client and the first message that waits for it is wanted, that
  message goes out before any request is taken. -/
theorem message_before_request {y : Server} {j : Nat} {c : Connection}
    (hc : y.connections[j]? = some c) :
    (∀ i m y₁ log₁ request moves y₂ log₂ quiet reply behind, y.step i m = some (y₁, log₁) →
      .took request ∈ notesOf j log₁ → y₁.run moves = some (y₂, log₂) →
      notesOf j log₂ = quiet ++ .replied reply :: behind → (∀ reply, .replied reply ∉ quiet) →
        (∀ d, .delivered d ∉ notesOf j log₁ ++ quiet) ∧
        ((∀ d ∈ c.mailbox.queued, c.isSubscribed d.channel = true →
            .delivered d ∈ notesOf j log₁ ++ quiet) ↔
          ∀ d ∈ c.mailbox.queued, c.isSubscribed d.channel = false) ∧
        (c.phase = .select → c.mailbox.queued = [])) ∧
    ∀ d rest, c.phase = .select → c.mailbox.queued = d :: rest →
      c.isSubscribed d.channel = true → ∀ moves y' log, y.run moves = some (y', log) →
        ∀ front request behind, notesOf j log = front ++ .took request :: behind →
          .delivered d ∈ front := by
  refine ⟨?_, ?_⟩
  · intro i m y₁ log₁ request moves y₂ log₂ quiet reply behind hstep htook hrun hreply hquiet
    obtain ⟨c₁, hc₁⟩ := exists_connection (length_step hstep) hc
    obtain ⟨c₂, hc₂⟩ := exists_connection (length_run hrun) hc₁
    obtain ⟨hpolls, hworking, htaken⟩ := of_took hstep hc hc₁ htook
    have hfirst := repliesFirst_of_run hc₁ hworking hrun hc₂
    have hnone : ∀ d, .delivered d ∉ notesOf j log₁ ++ quiet := by
      intro d hmem
      rcases List.mem_append.mp hmem with hmem | hmem
      · exact htaken d hmem
      · obtain ⟨front, rest, rfl⟩ := List.append_of_mem hmem
        rw [List.append_assoc, List.cons_append] at hreply
        obtain ⟨other, hother⟩ := hfirst.delivered front d _ hreply
        exact hquiet other (List.mem_append_left _ hother)
    refine ⟨hnone, ⟨fun h d hd => ?_, fun h d hd hsubscribed => ?_⟩, fun hphase => ?_⟩
    · exact Bool.eq_false_iff.mpr fun hsubscribed => hnone d (h d hd hsubscribed)
    · exact nomatch (h d hd).symm.trans hsubscribed
    · rcases hpolls with hlook | ⟨-, hqueued⟩
      · exact nomatch hphase.symm.trans hlook
      · exact hqueued
  · intro d rest hphase hqueued hsubscribed moves y' log hrun front request behind hsplit
    obtain ⟨c', hc'⟩ := exists_connection (length_run hrun) hc
    have hnext : c.TakesNext d := ⟨hphase, hqueued ▸ rfl, hsubscribed⟩
    exact (goesFirst_of_run hc hnext hrun hc').taken front request behind hsplit

/-- A subscriber waits while two messages are published on its channel and while it asks for a sign
of life itself. It takes the first message, and then its own request. -/
def overtaking : List (Nat × Move) :=
  [(0, .arrive (.chunk (Bytes.ofString "*2\r\n$9\r\nSUBSCRIBE\r\n$1\r\na\r\n"))),
    (0, .proceed), (0, .proceed), (0, .answer fun _ => none), (0, .proceed), (0, .proceed),
    (0, .proceed), (0, .proceed), (0, .accept 512), (0, .sync),
    (1, .arrive (.chunk (Bytes.ofString "*3\r\n$7\r\nPUBLISH\r\n$1\r\na\r\n$1\r\nx\r\n"))),
    (1, .proceed), (1, .proceed), (1, .answer fun _ => none), (1, .proceed), (1, .proceed),
    (1, .arrive (.chunk (Bytes.ofString "*3\r\n$7\r\nPUBLISH\r\n$1\r\na\r\n$1\r\ny\r\n"))),
    (1, .proceed), (1, .proceed), (1, .answer fun _ => none),
    (0, .arrive (.chunk (Bytes.ofString "*1\r\n$4\r\nPING\r\n"))), (0, .proceed), (0, .proceed)]

/-- The hypotheses can be met where two messages wait: the reply goes out before the second one. -/
theorem message_before_request_overtaking :
    ∃ y log c y₁ log₁ y₂ log₂ d request reply,
      twoClients.run overtaking = some (y, log) ∧ y.connections[0]? = some c ∧
        y.step 0 .proceed = some (y₁, log₁) ∧ notesOf 0 log₁ = [.took request] ∧
        y₁.run [(0, .proceed)] = some (y₂, log₂) ∧ notesOf 0 log₂ = [.replied reply] ∧
        c.mailbox.queued = [d] ∧ c.isSubscribed d.channel = true ∧
        .delivered d ∉ notesOf 0 log₁ ++ [] := by
  have hfacts : (twoClients.run overtaking).map (fun result =>
      (result.1.connections[0]?.map fun c => (c.mailbox.queued, c.isSubscribed [97]),
        (result.1.step 0 .proceed).map fun result₁ =>
          ((notesOf 0 result₁.2).map fun note => note.request?.isSome,
            (result₁.1.run [(0, .proceed)]).map fun result₂ =>
              (notesOf 0 result₂.2).map fun note => note.reply?.isSome))) =
        some (some ([⟨[97], [121]⟩], true), some ([true], some [true])) := by
    decide +kernel
  obtain ⟨⟨y, log⟩, hrun, hfacts⟩ := Option.map_eq_some_iff.mp hfacts
  obtain ⟨hconnection, hfacts⟩ := Prod.mk.inj hfacts
  obtain ⟨c, hc, hconnection⟩ := Option.map_eq_some_iff.mp hconnection
  obtain ⟨hqueued, hsubscribed⟩ := Prod.mk.inj hconnection
  obtain ⟨⟨y₁, log₁⟩, hstep, hfacts⟩ := Option.map_eq_some_iff.mp hfacts
  obtain ⟨htook, hfacts⟩ := Prod.mk.inj hfacts
  obtain ⟨⟨y₂, log₂⟩, hreply, hreplied⟩ := Option.map_eq_some_iff.mp hfacts
  obtain ⟨took, htook, hrequest⟩ := List.map_eq_singleton_iff.mp htook
  obtain ⟨request, hrequest⟩ := Option.isSome_iff_exists.mp hrequest
  obtain rfl := Note.eq_took hrequest
  obtain ⟨replied, hreplied, hanswer⟩ := List.map_eq_singleton_iff.mp hreplied
  obtain ⟨reply, hanswer⟩ := Option.isSome_iff_exists.mp hanswer
  obtain rfl := Note.eq_replied hanswer
  have hmem : .took request ∈ notesOf 0 log₁ := htook ▸ List.mem_singleton_self _
  obtain ⟨hnone, -, -⟩ := (message_before_request hc).1 0 .proceed y₁ log₁ request _ y₂ log₂ []
    reply [] hstep hmem hreply hreplied fun _ => List.not_mem_nil
  exact ⟨y, log, c, y₁, log₁, y₂, log₂, ⟨[97], [121]⟩, request, reply, hrun, hc, hstep, htook,
    hreply, hreplied, hqueued, hsubscribed, hnone _⟩

end Server

end RespStore
