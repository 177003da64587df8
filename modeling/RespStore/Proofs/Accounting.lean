import RespStore.Proofs.Backlog
import RespStore.Proofs.Registration

/-!
# Accounts of messages

A message that was accepted for a connection can go three ways: it is taken from the mailbox when
the connection has nothing else to do, it is held while a request waits, or it is given up along
with everything that waits. It goes out when it is put into the outbound buffer. This module keeps
the account: no message is lost on these ways, none goes out twice, and none overtakes another.

* `Connection.backlog` are the messages that wait: those that are held, and behind them those in the
  mailbox.
* `Connection.Accounts` says what a step does with them. It settles some that stand in front, and
  `Settled` says how: those on channels of the registry go out, the others are given up.
* `Connection.Accounted` is the invariant of a connection.
* `Server.deliveries_accounted` is the main result, about every run of any number of connections.
-/

namespace RespStore

/-! ### Notes -/

/-- The message that went out, if a note says that. -/
def Note.delivered? : Note → Option Delivery
  | .delivered d => some d
  | _ => none

/-- The message that was given up, if a note says that. -/
def Note.discarded? : Note → Option Delivery
  | .discarded d => some d
  | _ => none

/-- The message that found no room, or nobody there, if a note says that. -/
def Note.lost? : Note → Option Delivery
  | .lost d => some d
  | _ => none

/-- The messages that went out, in order. -/
def deliveredOf (notes : List Note) : List Delivery := notes.filterMap Note.delivered?

/-- The messages that were given up, in order. -/
def discardedOf (notes : List Note) : List Delivery := notes.filterMap Note.discarded?

/-- The messages that were lost before they were accepted, in order. -/
def lostOf (notes : List Note) : List Delivery := notes.filterMap Note.lost?

section Notes

variable (notes more : List Note)

@[simp]
theorem deliveredOf_append :
    deliveredOf (notes ++ more) = deliveredOf notes ++ deliveredOf more :=
  List.filterMap_append

@[simp]
theorem discardedOf_append :
    discardedOf (notes ++ more) = discardedOf notes ++ discardedOf more :=
  List.filterMap_append

@[simp]
theorem lostOf_append : lostOf (notes ++ more) = lostOf notes ++ lostOf more :=
  List.filterMap_append

/-- Messages that are all given up. -/
theorem notesOf_discarded (ds : List Delivery) :
    acceptedOf (ds.map .discarded) = [] ∧ lostOf (ds.map .discarded) = [] ∧
      deliveredOf (ds.map .discarded) = [] ∧ discardedOf (ds.map .discarded) = ds := by
  induction ds with
  | nil => exact ⟨rfl, rfl, rfl, rfl⟩
  | cons d ds ih =>
      obtain ⟨haccepted, hlost, hdelivered, hdiscarded⟩ := ih
      exact ⟨haccepted, hlost, hdelivered, congrArg (d :: ·) hdiscarded⟩

end Notes

/-- How messages whose turn had come were settled: those on channels of a registry went out in their
order, and the others were given up. No message came meanwhile. -/
structure Settled (registry : Registry) (front : List Delivery) (notes : List Note) : Prop where
  /-- No message was accepted. -/
  accepted : acceptedOf notes = []
  /-- No message was lost. -/
  lost : lostOf notes = []
  /-- What went out. -/
  delivered : deliveredOf notes = front.filter fun d => registry.contains d.channel
  /-- What was given up. -/
  discarded : (discardedOf notes).Perm (front.filter fun d => !registry.contains d.channel)

namespace Settled

variable {registry : Registry} {front back : List Delivery} {notes more : List Note}

/-- Quiet notes settle no message. -/
theorem of_quiet (hquiet : ∀ note ∈ notes, note.IsQuiet) (hlost : lostOf notes = []) :
    Settled registry [] notes := by
  have hnone : ∀ note ∈ notes, note.delivered? = none ∧ note.discarded? = none := by
    intro note hnote
    have := hquiet note hnote
    cases note with
    | delivered d => exact this.elim
    | discarded d => exact this.elim
    | _ => exact ⟨rfl, rfl⟩
  refine ⟨acceptedOf_quiet hquiet, hlost, ?_, List.Perm.of_eq ?_⟩
  · exact List.filterMap_eq_nil_iff.mpr fun note hnote => (hnone note hnote).1
  · exact List.filterMap_eq_nil_iff.mpr fun note hnote => (hnone note hnote).2

/-- Messages that are settled one behind the other are settled together. -/
theorem append (h : Settled registry front notes) (hmore : Settled registry back more) :
    Settled registry (front ++ back) (notes ++ more) where
  accepted := by rw [acceptedOf_append, h.accepted, hmore.accepted, List.append_nil]
  lost := by rw [lostOf_append, h.lost, hmore.lost, List.append_nil]
  delivered := by rw [deliveredOf_append, h.delivered, hmore.delivered, List.filter_append]
  discarded := by
    rw [discardedOf_append, List.filter_append]
    exact h.discarded.append hmore.discarded

/-- A reply goes before. -/
theorem cons_replied (h : Settled registry front notes) (reply : Reply) :
    Settled registry front (.replied reply :: notes) :=
  ⟨h.accepted, h.lost, h.delivered, h.discarded⟩

/-- Without subscriptions, messages are given up, in any order. -/
theorem of_empty {ds : List Delivery} (hperm : ds.Perm front) :
    Settled ∅ front (ds.map .discarded) := by
  have hempty : ∀ channel : Bytes, (∅ : Registry).contains channel = false :=
    fun _ => Std.ExtTreeMap.contains_empty
  obtain ⟨haccepted, hlost, hdelivered, hdiscarded⟩ := notesOf_discarded ds
  refine ⟨haccepted, hlost, ?_, ?_⟩
  · simp [hdelivered, hempty]
  · rw [hdiscarded, List.filter_eq_self.mpr fun d _ => by rw [hempty, Bool.not_false]]
    exact hperm

/-- Every message went out or was given up. -/
theorem perm (h : Settled registry front notes) :
    front.Perm (deliveredOf notes ++ discardedOf notes) := by
  rw [h.delivered]
  exact (List.filter_append_perm _ front).symm.trans (h.discarded.symm.append_left _)

end Settled

/-- A message that is given up is on no channel of the registry. -/
theorem not_mem_of_discarded {registry : Registry} {front : List Delivery} {notes : List Note}
    {d : Delivery}
    (h : (discardedOf notes).Perm (front.filter fun d => !registry.contains d.channel))
    (hd : d ∈ discardedOf notes) : d.channel ∉ registry := by
  have hfilter := (List.mem_filter.mp (h.mem_iff.mp hd)).2
  intro hmem
  rw [Std.ExtTreeMap.contains_iff_mem.mpr hmem] at hfilter
  cases hfilter

namespace Connection

/-! ### What a step does with the messages that wait -/

/-- The messages that wait: those that are held while a request waits, and behind them those in the
mailbox. -/
def backlog (c : Connection) : List Delivery := Phase.held c.phase ++ c.mailbox.queued

/-- Whether the connection has been dropped. -/
def isDropped (c : Connection) : Bool :=
  match c.phase with
  | .abandoned _ => true
  | .ended .dropped => true
  | _ => false

/-- How a step settles messages. -/
inductive Settles (c : Connection) (p : Progress) : Prop where
  /-- Some messages stand in front, and are settled. -/
  | front (front : List Delivery) (hpresent : c.isDropped = false)
      (hsettled : Settled c.registry front p.notes)
      (hbacklog : c.backlog = front ++ p.connection.backlog)
  /-- The connection is dropped, or has been. -/
  | gone (hsettled : Settled c.registry [] p.notes) (hdropped : p.connection.isDropped = true)

/-- No message comes by a step of the connection itself. -/
theorem Settles.none_comes {c : Connection} {p : Progress} (h : Settles c p) :
    acceptedOf p.notes = [] ∧ lostOf p.notes = [] := by
  cases h with
  | front _ _ hsettled _ => exact ⟨hsettled.accepted, hsettled.lost⟩
  | gone hsettled _ => exact ⟨hsettled.accepted, hsettled.lost⟩

/-- What a step does with the messages that wait. -/
structure Accounts (c : Connection) (p : Progress) : Prop where
  /-- It takes messages from the front of the mailbox, and puts none in. -/
  mailbox : ∃ front, c.mailbox =
    { p.connection.mailbox with queued := front ++ p.connection.mailbox.queued }
  /-- It settles messages. -/
  settles : Settles c p

section Settling

variable {c : Connection} {d : Delivery}

/-- A connection that works on no request is subscribed to the channels of its registry. -/
theorem contains_registry (h : Phase.task? c.phase = none) (channel : Bytes) :
    c.registry.contains channel = c.isSubscribed channel := by
  rw [registry_of_resting h, isSubscribed]
  cases c.handler with
  | none => exact Std.ExtTreeMap.contains_empty
  | some handler => rfl

/-- A message is put into the buffer, or given up. -/
theorem settled_deliver {registry : Registry} {c : Connection}
    (h : ∀ channel : Bytes, registry.contains channel = c.isSubscribed channel) (d : Delivery) :
    Settled registry [d] (c.deliver d).2 := by
  rw [deliver]
  split
  · rename_i hsubscribed
    have hchannel := (h d.channel).trans hsubscribed
    exact ⟨rfl, rfl, by simp [deliveredOf, Note.delivered?, hchannel],
      by simp [discardedOf, Note.discarded?, hchannel]⟩
  · rename_i hnot
    have hchannel := (h d.channel).trans (Bool.not_eq_true _ ▸ hnot)
    exact ⟨rfl, rfl, by simp [deliveredOf, Note.delivered?, hchannel],
      by simp [discardedOf, Note.discarded?, hchannel]⟩

/-- Messages that are delivered one after the other are settled by the subscriptions of the
connection. -/
theorem settled_deliverEach {registry : Registry} {c : Connection}
    (h : ∀ channel : Bytes, registry.contains channel = c.isSubscribed channel)
    (ds : List Delivery) : Settled registry ds (c.deliverEach ds).2 := by
  induction ds generalizing c with
  | nil => exact .of_quiet (List.forall_mem_nil _) rfl
  | cons d ds ih =>
      have hsame : ∀ channel, (c.deliver d).1.isSubscribed channel = c.isSubscribed channel :=
        fun channel => by rw [isSubscribed, handler_deliver, isSubscribed]
      exact (settled_deliver h d).append (ih fun channel => (h channel).trans (hsame channel).symm)

/-- A request is answered that had to wait, or not: the messages that were held are settled, and so
are all those in the mailbox if the last channel has been left. -/
theorem settled_resume (c : Connection) (held : List Delivery) (completion : Completion) :
    ∃ front, Settled completion.handler.registry (held ++ front) (c.resume held completion).2 ∧
      c.mailbox = { (c.complete completion).1.mailbox with
        queued := front ++ (c.complete completion).1.mailbox.queued } := by
  have hsubscribed : ∀ channel : Bytes, completion.handler.registry.contains channel =
      (c.complete completion).1.isSubscribed channel := fun _ => rfl
  cases hhandler : completion.handler with
  | normal =>
      obtain ⟨hmailbox, hnotes⟩ := complete_of_normal (c := c) hhandler
      have heach := notes_deliverEach (c := (c.complete completion).1)
        (fun channel => by rw [isSubscribed, handler_complete, hhandler]; rfl) held
      refine ⟨c.mailbox.queued, ?_, ?_⟩
      · rw [resume, hnotes, heach, List.cons_append, ← List.map_append]
        exact (Settled.of_empty List.perm_append_comm).cons_replied _
      · rw [hmailbox, Mailbox.cleared, List.append_nil]
  | subscriber registry =>
      obtain ⟨hmailbox, hnotes⟩ := complete_of_subscriber (c := c) hhandler
      refine ⟨[], ?_, ?_⟩
      · rw [resume, hnotes, List.append_nil, ← hhandler]
        exact (settled_deliverEach hsubscribed held).cons_replied _
      · rw [hmailbox, List.nil_append]

end Settling

namespace Accounts

variable {c : Connection} {p : Progress}

/-- A step that settles no message and takes none from the mailbox. -/
theorem of_quiet (hpresent : c.isDropped = false) (hmailbox : p.connection.mailbox = c.mailbox)
    (hheld : Phase.held p.connection.phase = Phase.held c.phase)
    (hquiet : ∀ note ∈ p.notes, note.IsQuiet) (hlost : lostOf p.notes = []) : Accounts c p := by
  refine ⟨⟨[], by rw [hmailbox, List.nil_append]⟩, .front [] hpresent (.of_quiet hquiet hlost) ?_⟩
  rw [backlog, backlog, hheld, hmailbox, List.nil_append]

/-- A step that works on no request and leaves the mailbox as it is. -/
theorem of_rests {handler : Option Handler} (hpresent : c.isDropped = false)
    (htask : Phase.task? c.phase = none) (hrests : Rests handler p.connection)
    (hmailbox : p.connection.mailbox = c.mailbox) (hquiet : ∀ note ∈ p.notes, note.IsQuiet)
    (hlost : lostOf p.notes = []) : Accounts c p := by
  refine of_quiet hpresent hmailbox ?_ hquiet hlost
  rw [held_of_task htask, held_of_task hrests.task?_eq]

/-- A connection that has been dropped settles no message. -/
theorem of_gone (hdropped : p.connection.isDropped = true)
    (hmailbox : p.connection.mailbox = c.mailbox) (hquiet : ∀ note ∈ p.notes, note.IsQuiet)
    (hlost : lostOf p.notes = []) : Accounts c p :=
  ⟨⟨[], by rw [hmailbox, List.nil_append]⟩, .gone (.of_quiet hquiet hlost) hdropped⟩

end Accounts

/-- What waits is what is taken and what is left, in the same mailbox. -/
theorem mailbox_of_take {mailbox mailbox' : Mailbox} {d : Delivery}
    (h : mailbox.take? = some (d, mailbox')) :
    mailbox = { mailbox' with queued := d :: mailbox'.queued } := by
  rw [Mailbox.take?] at h
  split at h
  · cases h
  · rename_i hqueued
    obtain ⟨rfl, rfl⟩ := Prod.mk.inj (Option.some.inj h)
    rw [← hqueued]

/-- A connection that fails keeps its mailbox. -/
theorem mailbox_fail (c : Connection) (reason : String) : (c.fail reason).mailbox = c.mailbox :=
  mailbox_flush _ _

/-- A connection whose flush fails keeps its mailbox. -/
theorem mailbox_flushFailed (c : Connection) (reason : String) (next : AfterFlush) :
    (c.flushFailed reason next).mailbox = c.mailbox := by
  cases next with
  | shutDown ending => rfl
  | _ => exact mailbox_fail c reason

/-- A connection that leaves keeps its mailbox. -/
theorem mailbox_leave (c : Connection) (ending : Ending) :
    (c.leave ending).1.mailbox = c.mailbox := by
  rw [leave]
  cases c.handler with
  | none => rfl
  | some handler => rfl

/-- A connection that leaves loses no message. -/
theorem lostOf_leave (c : Connection) (ending : Ending) : lostOf (c.leave ending).2 = [] := by
  rw [leave]
  cases c.handler with
  | none => rfl
  | some handler => rfl

/-- A connection that leaves has no handler any more, and works on no request. -/
theorem rests_leave (c : Connection) (ending : Ending) : Rests none (c.leave ending).1 := by
  rw [leave]
  cases hhandler : c.handler with
  | none => exact ⟨hhandler, rfl⟩
  | some handler => exact ⟨rfl, rfl⟩

/-- Every step keeps the account of the messages. -/
theorem Steps.accounts {client : Nat} {s : Store Subscriber} {c : Connection} {m : Move}
    {p : Progress} (hstep : Steps client s c m p) : Accounts c p := by
  have hnil : ∀ note ∈ ([] : List Note), note.IsQuiet := List.forall_mem_nil _
  have hpresent {phase : Phase} (hphase : c.phase = phase)
      (h : ({ c with phase } : Connection).isDropped = false) : c.isDropped = false := by
    rw [isDropped, hphase]
    exact h
  have hpolls : c.Polls → c.isDropped = false ∧ Phase.task? c.phase = none := by
    rintro (hphase | ⟨hphase, -⟩)
    · exact ⟨hpresent hphase rfl, hphase ▸ rfl⟩
    · exact ⟨hpresent hphase rfl, hphase ▸ rfl⟩
  cases hstep with
  | finished hphase _ =>
      exact .of_rests (hpresent hphase rfl) (hphase ▸ rfl)
        (rests_flush { c with state := .closed } _) (mailbox_flush _ _) hnil rfl
  | turn hphase _ _ => exact .of_rests (hpresent hphase rfl) (hphase ▸ rfl) ⟨rfl, rfl⟩ rfl hnil rfl
  | turnFlush hphase _ _ =>
      exact .of_rests (hpresent hphase rfl) (hphase ▸ rfl) (rests_flush c _) (mailbox_flush c _)
        hnil rfl
  | request hphase _ _ =>
      refine .of_quiet (hpolls hphase).1 rfl ?_ (List.forall_mem_singleton.mpr trivial) rfl
      rw [held_of_task (hpolls hphase).2]
      rfl
  | @orphan _ reader hphase _ _ =>
      exact .of_rests (hpolls hphase).1 (hpolls hphase).2 (rests_fail { c with reader } _)
        (mailbox_fail _ _) (List.forall_mem_singleton.mpr trivial) rfl
  | endOfInput hphase _ =>
      exact .of_rests (hpolls hphase).1 (hpolls hphase).2 ⟨rfl, rfl⟩ rfl hnil rfl
  | @readError _ reader hphase _ =>
      exact .of_rests (hpolls hphase).1 (hpolls hphase).2 (rests_fail { c with reader } _)
        (mailbox_fail _ _) hnil rfl
  | @nothing reader hphase _ =>
      exact .of_rests (hpresent hphase rfl) (hphase ▸ rfl) (rests_flush { c with reader } _)
        (mailbox_flush _ _) hnil rfl
  | more hphase _ _ _ => exact .of_quiet (hpresent hphase rfl) rfl rfl hnil rfl
  | @message d mailbox hphase hmailbox =>
      have htask : Phase.task? c.phase = none := hphase ▸ rfl
      have hsettled : Settled c.registry [d] ({ c with mailbox, phase := .turn }.deliver d).2 :=
        settled_deliver (c := { c with mailbox, phase := .turn })
          (fun channel => contains_registry htask channel) d
      refine ⟨⟨[d], ?_⟩, .front [d] (hpresent hphase rfl) hsettled ?_⟩
      · rw [mailbox_deliver]
        exact mailbox_of_take hmailbox
      · rw [backlog, backlog, mailbox_deliver, (puts_deliver _ d).phase_eq, hphase,
          queued_of_take hmailbox]
        rfl
  | overBudget hphase _ =>
      exact .of_rests (hpresent hphase rfl) (hphase ▸ rfl)
        (rests_flush { c with autoRead := false } _) (mailbox_flush _ _) hnil rfl
  | settled hphase _ => exact .of_rests (hpresent hphase rfl) (hphase ▸ rfl) ⟨rfl, rfl⟩ rfl hnil rfl
  | fatal hphase =>
      refine .of_quiet (hpresent hphase rfl) (mailbox_fail _ _) ?_ hnil rfl
      rw [held_of_task (rests_fail _ _).task?_eq, hphase]
      rfl
  | @answered completion hphase =>
      obtain ⟨front, hsettled, hmailbox⟩ := settled_resume c [] completion
      have hnotes : (c.resume [] completion).2 = (c.complete completion).2 := List.append_nil _
      have hregistry : c.registry = completion.handler.registry := by rw [registry, hphase]
      rw [hnotes, ← hregistry, List.nil_append] at hsettled
      refine ⟨⟨front, hmailbox⟩, .front front (hpresent hphase rfl) hsettled ?_⟩
      rw [backlog, hphase]
      exact congrArg Mailbox.queued hmailbox
  | @fatalWaiting reason held hphase =>
      have hregistry : c.registry = ∅ := by rw [registry, hphase]; rfl
      have hsettled : Settled c.registry held (held.map .discarded) :=
        hregistry ▸ .of_empty (List.Perm.refl held)
      refine ⟨⟨[], (mailbox_fail c reason).symm⟩, .front held (hpresent hphase rfl) hsettled ?_⟩
      rw [backlog, backlog, mailbox_fail, held_of_task (rests_fail c reason).task?_eq, hphase]
      rfl
  | @answeredWaiting completion held hphase =>
      obtain ⟨front, hsettled, hmailbox⟩ := settled_resume c held completion
      have hregistry : c.registry = completion.handler.registry := by rw [registry, hphase]
      have hmailbox' := (mailbox_flush (c.resume held completion).1 .settle).trans
        (mailbox_resume c held completion)
      rw [← hregistry] at hsettled
      refine ⟨⟨front, hmailbox'.symm ▸ hmailbox⟩,
        .front (held ++ front) (hpresent hphase rfl) hsettled ?_⟩
      rw [backlog, backlog, hmailbox', held_of_task (rests_flush _ _).task?_eq, hphase, hmailbox]
      exact (List.append_assoc held front _).symm
  | left hphase =>
      exact .of_rests (hpresent hphase rfl) (hphase ▸ rfl) ⟨rfl, rfl⟩ rfl
        (List.forall_mem_singleton.mpr trivial) rfl
  | dropped hphase => exact .of_gone rfl rfl (List.forall_mem_singleton.mpr trivial) rfl
  | answer hphase => exact .of_quiet (hpresent hphase rfl) rfl (by rw [hphase]; rfl) hnil rfl
  | answerWaiting hphase => exact .of_quiet (hpresent hphase rfl) rfl (by rw [hphase]; rfl) hnil rfl
  | answerLeaving hphase => exact .of_quiet (hpresent hphase rfl) rfl (by rw [hphase]; rfl) hnil rfl
  | answerAbandoned hphase => exact .of_gone rfl rfl hnil rfl
  | computed hphase => exact .of_quiet (hpresent hphase rfl) rfl (by rw [hphase]; rfl) hnil rfl
  | computedWaiting hphase =>
      exact .of_quiet (hpresent hphase rfl) rfl (by rw [hphase]; rfl) hnil rfl
  | suspend hphase _ => exact .of_quiet (hpresent hphase rfl) rfl (by rw [hphase]; rfl) hnil rfl
  | @hold task held d mailbox hphase _ hmailbox =>
      refine ⟨⟨[d], mailbox_of_take hmailbox⟩, .front [] (hpresent hphase rfl)
        (.of_quiet (List.forall_mem_singleton.mpr trivial) rfl) ?_⟩
      rw [backlog, hphase, queued_of_take hmailbox]
      exact List.append_cons held d mailbox.queued
  | @accept n chunk behind next hphase _ =>
      have hflushes := Stream.flushes_rest (chunk.drop n) behind next
      exact .of_rests (hpresent hphase rfl) (hphase ▸ rfl) ⟨rfl, task?_of_flushes hflushes⟩ rfl
        (List.forall_mem_singleton.mpr trivial) rfl
  | acceptNothing hphase =>
      exact .of_rests (hpresent hphase rfl) (hphase ▸ rfl) (rests_flushFailed c _ _)
        (mailbox_flushFailed c _ _) (List.forall_mem_singleton.mpr trivial) rfl
  | @sync next hphase =>
      exact .of_rests (hpresent hphase rfl) (hphase ▸ rfl) (rests_afterFlush c _)
        (mailbox_afterFlush c _) (List.forall_mem_singleton.mpr trivial) rfl
  | refuseWriting hphase =>
      exact .of_rests (hpresent hphase rfl) (hphase ▸ rfl) (rests_flushFailed c _ _)
        (mailbox_flushFailed c _ _) hnil rfl
  | refuseSyncing hphase =>
      exact .of_rests (hpresent hphase rfl) (hphase ▸ rfl) (rests_flushFailed c _ _)
        (mailbox_flushFailed c _ _) hnil rfl
  | refuseShutDown hphase =>
      exact .of_rests (hpresent hphase rfl) (hphase ▸ rfl) (rests_leave c _) (mailbox_leave c _)
        (isQuiet_leave c _) (lostOf_leave c _)
  | shutDown hphase =>
      exact .of_rests (hpresent hphase rfl) (hphase ▸ rfl) (rests_leave c _) (mailbox_leave c _)
        (isQuiet_leave c _) (lostOf_leave c _)
  | arrive a =>
      cases hdropped : c.isDropped with
      | true => exact .of_gone hdropped rfl hnil rfl
      | false => exact .of_quiet hdropped rfl rfl hnil rfl
  | abandon _ => exact .of_gone rfl rfl hnil rfl

/-! ### The invariant -/

/-- The account of a connection: as long as it has not been dropped, the messages that were accepted
are those that have been settled and behind them those that wait, and what went out stands among the
former in order. -/
structure Accounted (c : Connection) (notes : List Note) : Prop where
  /-- What went out was accepted, in that order. -/
  sublist : (deliveredOf notes).Sublist (acceptedOf notes)
  /-- What waits. -/
  backlog : c.isDropped = false → ∃ past, acceptedOf notes = past ++ c.backlog ∧
    (deliveredOf notes).Sublist past ∧ past.Perm (deliveredOf notes ++ discardedOf notes)

/-- A message that is accepted goes to the end of the mailbox. Nothing else changes. -/
theorem post_accepted (c : Connection) (d : Delivery) :
    (c.post d).1 = { c with mailbox := { c.mailbox with
        queued := c.mailbox.queued ++ acceptedOf (c.post d).2 } } ∧
      deliveredOf (c.post d).2 = [] ∧ discardedOf (c.post d).2 = [] := by
  rw [post]
  split
  · rename_i hroom
    have hfull : c.mailbox.isFull ≠ true := fun hfull => by simp [hfull] at hroom
    rw [Mailbox.offer, if_neg hfull]
    exact ⟨rfl, rfl, rfl⟩
  · refine ⟨?_, rfl, rfl⟩
    change c = { c with mailbox := { c.mailbox with queued := c.mailbox.queued ++ [] } }
    rw [List.append_nil]

/-- Of messages that are posted, those that are accepted go to the end of the mailbox, and nothing
else changes. -/
theorem postEach_accepted (c : Connection) (ds : List Delivery) :
    (c.postEach ds).1 = { c with mailbox := { c.mailbox with
        queued := c.mailbox.queued ++ acceptedOf (c.postEach ds).2 } } ∧
      deliveredOf (c.postEach ds).2 = [] ∧ discardedOf (c.postEach ds).2 = [] := by
  induction ds generalizing c with
  | nil =>
      refine ⟨?_, rfl, rfl⟩
      change c = { c with mailbox := { c.mailbox with queued := c.mailbox.queued ++ [] } }
      rw [List.append_nil]
  | cons d ds ih =>
      obtain ⟨hfirst, hdelivered, hdiscarded⟩ := post_accepted c d
      obtain ⟨hrest, hdelivered', hdiscarded'⟩ := ih (c.post d).1
      have hnotes : (c.postEach (d :: ds)).2 = (c.post d).2 ++ ((c.post d).1.postEach ds).2 := rfl
      rw [hnotes, acceptedOf_append, deliveredOf_append, discardedOf_append, hdelivered,
        hdelivered', hdiscarded, hdiscarded']
      refine ⟨?_, rfl, rfl⟩
      change ((c.post d).1.postEach ds).1 = _
      rw [hrest, hfirst]
      simp only [List.append_assoc]

/-- Messages that are accepted wait behind all others. -/
theorem backlog_postEach (c : Connection) (ds : List Delivery) :
    (c.postEach ds).1.backlog = c.backlog ++ acceptedOf (c.postEach ds).2 := by
  rw [(postEach_accepted c ds).1, backlog, backlog, List.append_assoc]

/-- Messages do not drop a connection. -/
theorem isDropped_postEach (c : Connection) (ds : List Delivery) :
    (c.postEach ds).1.isDropped = c.isDropped := by
  obtain ⟨mailbox, hposted⟩ := c.postEach_eq ds
  rw [hposted]
  rfl

namespace Accounted

variable {c : Connection} {notes : List Note}

/-- A new connection has no message to account for. -/
theorem new (settings : Settings) : Accounted (Connection.new settings) [] :=
  ⟨List.Sublist.refl _, fun _ => ⟨[], rfl, List.Sublist.refl _, List.Perm.refl _⟩⟩

/-- A message that is posted is accounted for: it waits behind the others, or is lost. -/
theorem post (h : Accounted c notes) (d : Delivery) :
    Accounted (c.post d).1 (notes ++ (c.post d).2) := by
  obtain ⟨hposted, hdelivered, hdiscarded⟩ := post_accepted c d
  refine ⟨?_, fun hpresent => ?_⟩
  · rw [deliveredOf_append, hdelivered, List.append_nil, acceptedOf_append]
    exact h.sublist.trans (List.sublist_append_left _ _)
  · rw [hposted] at hpresent
    obtain ⟨past, hpast, hsublist, hperm⟩ := h.backlog hpresent
    refine ⟨past, ?_, ?_, ?_⟩
    · rw [acceptedOf_append, hpast, hposted, List.append_assoc]
      exact congrArg _ (List.append_assoc _ _ _)
    · rw [deliveredOf_append, hdelivered, List.append_nil]
      exact hsublist
    · rw [deliveredOf_append, hdelivered, discardedOf_append, hdiscarded, List.append_nil,
        List.append_nil]
      exact hperm

/-- The messages that a step settles are the first ones that wait. -/
theorem step {client : Nat} {s : Store Subscriber} {m : Move} {p : Progress}
    (h : Accounted c notes) (hstep : Steps client s c m p) :
    Accounted p.connection (notes ++ p.notes) := by
  cases hstep.accounts.settles with
  | front front hpresent hsettled hbacklog =>
      obtain ⟨past, hpast, hsublist, hperm⟩ := h.backlog hpresent
      have haccepted : acceptedOf (notes ++ p.notes) = past ++ front ++ p.connection.backlog := by
        rw [acceptedOf_append, hsettled.accepted, hpast, hbacklog, List.append_nil,
          List.append_assoc]
      have hdelivered : (deliveredOf (notes ++ p.notes)).Sublist (past ++ front) := by
        rw [deliveredOf_append, hsettled.delivered]
        exact hsublist.append List.filter_sublist
      refine ⟨?_, fun _ => ⟨past ++ front, haccepted, hdelivered, ?_⟩⟩
      · rw [haccepted]
        exact hdelivered.trans (List.sublist_append_left _ _)
      · refine List.perm_iff_count.mpr fun d => ?_
        have hold := hperm.count_eq d
        have hnew := hsettled.perm.count_eq d
        simp only [deliveredOf_append, discardedOf_append, List.count_append] at hold hnew ⊢
        omega
  | gone hsettled hdropped =>
      refine ⟨?_, fun hpresent => nomatch hdropped.symm.trans hpresent⟩
      rw [deliveredOf_append, hsettled.delivered, acceptedOf_append, hsettled.accepted]
      simpa using h.sublist

end Accounted

end Connection

/-! ### Runs -/

namespace Server

/-- In every run of new connections, the account of each of them is right. -/
theorem accounted_of_run {y y' : Server} {moves : List (Nat × Move)} {log : Log} {j : Nat}
    {c : Connection} (hnew : ∀ c ∈ y.connections, ∃ settings, c = Connection.new settings)
    (hrun : y.run moves = some (y', log)) (hc : y'.connections[j]? = some c) :
    c.Accounted (notesOf j log) :=
  run_invariant_new (fun h hstep => h.step (Connection.steps_of_step hstep))
    (fun _ _ d h => h.post d) hnew .new hrun j c hc

/-- What a step of a server does with the messages that wait for a connection: some that stand in
front are settled, and some are accepted behind, unless the connection is dropped. -/
theorem settled_of_step {y y' : Server} {i j : Nat} {m : Move} {log : Log} {c c' : Connection}
    (hstep : y.step i m = some (y', log)) (hc : y.connections[j]? = some c)
    (hc' : y'.connections[j]? = some c') :
    ∃ front, deliveredOf (notesOf j log) = (front.filter fun d => c.registry.contains d.channel) ∧
      (discardedOf (notesOf j log)).Perm
        (front.filter fun d => !c.registry.contains d.channel) ∧
      (c'.isDropped = false →
        c.backlog ++ acceptedOf (notesOf j log) = front ++ c'.backlog) := by
  obtain ⟨c₀, p, moved, ds, hc₀, hp, -, rfl, hnotes, hmoved⟩ := step_at hstep hc'
  obtain ⟨-, hdelivered, hdiscarded⟩ := moved.postEach_accepted ds
  rw [hnotes, acceptedOf_append, deliveredOf_append, discardedOf_append, hdelivered, hdiscarded,
    Connection.backlog_postEach, Connection.isDropped_postEach, List.append_nil, List.append_nil]
  rcases hmoved with ⟨rfl, rfl⟩ | ⟨hij, hmoved⟩
  · obtain rfl := Option.some.inj (hc.symm.trans hc₀)
    rw [if_pos rfl]
    cases (Connection.steps_of_step hp).accounts.settles with
    | front front _ hsettled hfront =>
        refine ⟨front, hsettled.delivered, hsettled.discarded, fun _ => ?_⟩
        rw [hsettled.accepted, hfront, List.nil_append, List.append_assoc]
    | gone hsettled hdropped =>
        refine ⟨[], hsettled.delivered, hsettled.discarded, fun hpresent => ?_⟩
        cases hdropped.symm.trans hpresent
  · obtain rfl := Option.some.inj (hc.symm.trans hmoved)
    rw [if_neg hij]
    exact ⟨[], rfl, List.Perm.refl _, fun _ => rfl⟩

/-- **Every message is accounted for.** New connections over one store, and any run of them,
whatever their calls are answered, however long requests have to wait, and whatever their writers
do. Of each connection this holds:

* The messages that went out were accepted, and went out in the order in which they were accepted,
  each of them at most once.
* As long as the connection has not been dropped, the messages that were accepted are those that
  went out, those that were given up, and behind them those that wait: the ones that are held while
  a request waits, and then the ones in the mailbox.
* In each further step, whoever makes it, a message is given up only if the connection is not
  subscribed to its channel. A request that is just being answered counts as carried out there.
* Such a step settles the messages that stand in front, as many as it does: those on channels that
  the connection is subscribed to go out, and the others are given up. -/
theorem deliveries_accounted {y y' : Server} {moves : List (Nat × Move)} {log : Log} {j : Nat}
    {c : Connection} (hnew : ∀ c ∈ y.connections, ∃ settings, c = Connection.new settings)
    (hrun : y.run moves = some (y', log)) (hc : y'.connections[j]? = some c) :
    (deliveredOf (notesOf j log)).Sublist (acceptedOf (notesOf j log)) ∧
    (c.isDropped = false → ∃ past,
      acceptedOf (notesOf j log) = past ++ (Connection.Phase.held c.phase ++ c.mailbox.queued) ∧
      (deliveredOf (notesOf j log)).Sublist past ∧
      past.Perm (deliveredOf (notesOf j log) ++ discardedOf (notesOf j log))) ∧
    ∀ i m y'' more c', y'.step i m = some (y'', more) → y''.connections[j]? = some c' →
      (∀ d ∈ discardedOf (notesOf j more), d.channel ∉ c.registry) ∧
      ∃ front,
        deliveredOf (notesOf j more) = (front.filter fun d => c.registry.contains d.channel) ∧
        (discardedOf (notesOf j more)).Perm
          (front.filter fun d => !c.registry.contains d.channel) ∧
        (c'.isDropped = false →
          c.backlog ++ acceptedOf (notesOf j more) = front ++ c'.backlog) := by
  have h := accounted_of_run hnew hrun hc
  refine ⟨h.sublist, h.backlog, fun i m y'' more c' hstep hc' => ?_⟩
  obtain ⟨front, hdelivered, hdiscarded, hbacklog⟩ := settled_of_step hstep hc hc'
  exact ⟨fun d hd => not_mem_of_discarded hdiscarded hd, front, hdelivered, hdiscarded, hbacklog⟩

/-- A client of one channel subscribes to another one, and has to wait for the store. One message
comes and is held, and another one comes. -/
def holding : List (Nat × Move) :=
  [(0, .arrive (.chunk (Bytes.ofString "*2\r\n$9\r\nSUBSCRIBE\r\n$1\r\na\r\n"))),
    (0, .proceed), (0, .proceed), (0, .answer fun _ => none), (0, .proceed), (0, .proceed),
    (0, .arrive (.chunk (Bytes.ofString "*2\r\n$9\r\nSUBSCRIBE\r\n$1\r\nb\r\n"))),
    (0, .proceed), (0, .proceed), (0, .suspend),
    (1, .arrive (.chunk (Bytes.ofString "*3\r\n$7\r\nPUBLISH\r\n$1\r\na\r\n$1\r\nx\r\n"))),
    (1, .proceed), (1, .proceed), (1, .answer fun _ => none), (0, .hold),
    (1, .arrive (.chunk (Bytes.ofString "*3\r\n$7\r\nPUBLISH\r\n$1\r\na\r\n$1\r\ny\r\n"))),
    (1, .proceed), (1, .proceed), (1, .proceed), (1, .proceed), (1, .answer fun _ => none),
    (0, .answer fun _ => none)]

/-- The message that was held goes out behind the reply, and the one that came behind it still
waits. -/
theorem deliveries_accounted_holding :
    ∃ y log c y' more c', twoClients.run holding = some (y, log) ∧ y.connections[0]? = some c ∧
      y.step 0 .proceed = some (y', more) ∧ y'.connections[0]? = some c' ∧
      acceptedOf (notesOf 0 log) = [⟨[97], [120]⟩, ⟨[97], [121]⟩] ∧
      (∃ past, [⟨[97], [120]⟩, ⟨[97], [121]⟩] =
        past ++ (Connection.Phase.held c.phase ++ c.mailbox.queued)) ∧
      deliveredOf (notesOf 0 more) = [⟨[97], [120]⟩] ∧
      ∃ front, deliveredOf (notesOf 0 more) =
          (front.filter fun d => c.registry.contains d.channel) ∧
        c.backlog ++ acceptedOf (notesOf 0 more) = front ++ c'.backlog := by
  have hfacts : ((twoClients.run holding).bind fun before => (before.1.step 0 .proceed).bind
      fun behind => before.1.connections[0]?.bind fun c => behind.1.connections[0]?.map fun c' =>
        (acceptedOf (notesOf 0 before.2), c.isDropped, deliveredOf (notesOf 0 behind.2),
          c'.isDropped)) =
      some ([⟨[97], [120]⟩, ⟨[97], [121]⟩], false, [⟨[97], [120]⟩], false) := by
    decide +kernel
  obtain ⟨⟨y, log⟩, hrun, hfacts⟩ := Option.bind_eq_some_iff.mp hfacts
  obtain ⟨⟨y', more⟩, hstep, hfacts⟩ := Option.bind_eq_some_iff.mp hfacts
  obtain ⟨c, hc, hfacts⟩ := Option.bind_eq_some_iff.mp hfacts
  obtain ⟨c', hc', hfacts⟩ := Option.map_eq_some_iff.mp hfacts
  obtain ⟨haccepted, hfacts⟩ := Prod.mk.inj hfacts
  obtain ⟨hpresent, hfacts⟩ := Prod.mk.inj hfacts
  obtain ⟨hdelivered, hpresent'⟩ := Prod.mk.inj hfacts
  obtain ⟨-, hpast, hsettled⟩ := deliveries_accounted new_of_mem_twoClients hrun hc
  obtain ⟨past, hpast, -, -⟩ := hpast hpresent
  obtain ⟨-, front, hout, -, hfront⟩ := hsettled 0 .proceed y' more c' hstep hc'
  exact ⟨y, log, c, y', more, c', hrun, hc, hstep, hc', haccepted, ⟨past, haccepted ▸ hpast⟩,
    hdelivered, front, hout, hfront hpresent'⟩

end Server

end RespStore
