import RespStore.Proofs.Registry
import RespStore.Proofs.Acknowledgement

/-!
# Messages from the mailbox to the buffer

Whether a message that was accepted for a connection goes out is decided when its turn comes, by
the subscriptions that the connection has by then. What has happened to the subscription between
does not matter, as long as the connection has not left its last channel: then everything that
waits is given up at once.

* `acceptedOf` are the messages that were accepted, and `fatesOf` says of each, in the same order,
  whether it went out. `Backlog` connects the two with the messages that wait.
* `Judged` says how the fates were decided, and `Cleared` that leaving the last channel decided the
  fates of all.
* `Connection.Queues` is the invariant of a connection.
* `Server.message_after_unsubscribe` is the main result, about every run of any number of
  connections.
-/

namespace RespStore

/-! ### Notes -/

/-- The message that was put into the mailbox, if a note says that. -/
def Note.accepted? : Note → Option Delivery
  | .accepted d => some d
  | _ => none

/-- Whether a message went out whose turn had come, if a note is about that. -/
def Note.fate? : Note → Option Bool
  | .delivered _ => some true
  | .discarded _ => some false
  | _ => none

/-- Whether a note is neither about messages that wait nor about a reply. -/
def Note.IsQuiet : Note → Prop
  | .replied _ => False
  | .delivered _ => False
  | .discarded _ => False
  | .accepted _ => False
  | _ => True

/-- The messages that were accepted, in order. -/
def acceptedOf (notes : List Note) : List Delivery := notes.filterMap Note.accepted?

/-- Whether the messages went out whose turn has come, in the order in which they were
accepted. -/
def fatesOf (notes : List Note) : List Bool := notes.filterMap Note.fate?

section Notes

variable (notes more : List Note)

theorem acceptedOf_append : acceptedOf (notes ++ more) = acceptedOf notes ++ acceptedOf more :=
  List.filterMap_append

theorem fatesOf_append : fatesOf (notes ++ more) = fatesOf notes ++ fatesOf more :=
  List.filterMap_append

/-- A message that is accepted comes behind those that were accepted before. -/
theorem acceptedOf_accepted (d : Delivery) :
    acceptedOf (notes ++ .accepted d :: more) = acceptedOf notes ++ d :: acceptedOf more :=
  (acceptedOf_append _ _).trans (congrArg _ (List.filterMap_cons_some rfl))

/-- A fate that is decided stays decided. -/
theorem length_fatesOf_le : (fatesOf notes).length ≤ (fatesOf (notes ++ more)).length := by
  rw [fatesOf_append, List.length_append]
  exact Nat.le_add_right _ _

variable {notes more}

/-- A quiet note decides about no message. -/
theorem Note.IsQuiet.fate?_eq {note : Note} (h : note.IsQuiet) : note.fate? = none := by
  cases note with
  | delivered d => exact h.elim
  | discarded d => exact h.elim
  | _ => rfl

/-- A quiet note accepts no message. -/
theorem Note.IsQuiet.accepted?_eq {note : Note} (h : note.IsQuiet) : note.accepted? = none := by
  cases note with
  | accepted d => exact h.elim
  | _ => rfl

/-- Quiet notes decide about no message. -/
theorem fatesOf_quiet (hmore : ∀ note ∈ more, note.IsQuiet) : fatesOf more = [] :=
  List.filterMap_eq_nil_iff.mpr fun note hnote => (hmore note hnote).fate?_eq

/-- Quiet notes accept no message. -/
theorem acceptedOf_quiet (hmore : ∀ note ∈ more, note.IsQuiet) : acceptedOf more = [] :=
  List.filterMap_eq_nil_iff.mpr fun note hnote => (hmore note hnote).accepted?_eq

end Notes

/-- The last acknowledgement for a channel is found in what came last, or else in what came
before. -/
theorem lastAck?_append (channel : Bytes) (units more : List Reply) :
    lastAck? channel (units ++ more) = (lastAck? channel more).or (lastAck? channel units) := by
  unfold lastAck?
  rw [List.filterMap_append, List.getLast?_append]

/-- Behind the end of a subscription, only what follows matters. -/
theorem lastAck?_unsubscribed {channel : Bytes} {count : Nat} (units more : List Reply) :
    lastAck? channel (units ++ .unsubscribed (some channel) count :: more) = some true ↔
      lastAck? channel more = some true := by
  have hsplit : units ++ Reply.unsubscribed (some channel) count :: more =
      units ++ [.unsubscribed (some channel) count] ++ more := by simp
  have hack : Reply.ack? channel (.unsubscribed (some channel) count) = some false := if_pos rfl
  rw [hsplit, lastAck?_append, lastAck?_concat, hack, Option.some_or]
  cases lastAck? channel more with
  | none => exact iff_of_false nofun nofun
  | some subscribed => exact Iff.rfl

/-! ### How fates are decided -/

/-- Whether everything that waited was given up when the last channel was left: behind each reply
the client is subscribed to some channel, or the fates of all messages from before are decided. -/
def Cleared (notes : List Note) : Prop :=
  ∀ before reply behind, notes = before ++ .replied reply :: behind →
    (∃ channel, lastAck? channel (unitsOf before ++ reply.parts) = some true) ∨
      (acceptedOf before).length ≤ (fatesOf notes).length

/-- Whether each message was judged by what the client had been told when its turn came: it went
out if and only if the client was subscribed to its channel. -/
def Judged (notes : List Note) : Prop :=
  ∀ before note behind delivered, notes = before ++ note :: behind → note.fate? = some delivered →
    ∃ d, (acceptedOf before)[(fatesOf before).length]? = some d ∧
      (delivered = true ↔ lastAck? d.channel (unitsOf before) = some true) ∧
      (delivered = true → note = .delivered d ∧ Cleared before)

/-- What follows without a reply does not bring back what was given up. -/
theorem Cleared.append {notes more : List Note} (h : Cleared notes)
    (hmore : ∀ reply, .replied reply ∉ more) : Cleared (notes ++ more) := by
  intro before reply behind hsplit
  rcases split_append hsplit with ⟨rest, hnotes⟩ | ⟨mid, rfl, rfl⟩
  · exact (h before reply rest hnotes).imp id fun hle => Nat.le_trans hle (length_fatesOf_le _ _)
  · exact absurd (List.mem_append_right _ List.mem_cons_self) (hmore reply)

/-- A reply that leaves the client subscribed to a channel. -/
theorem Cleared.concat_reply {notes : List Note} {reply : Reply} {channel : Bytes}
    (h : Cleared notes) (hack : lastAck? channel (unitsOf notes ++ reply.parts) = some true) :
    Cleared (notes ++ [.replied reply]) := by
  intro before other behind hsplit
  rcases split_concat hsplit with ⟨rest, hnotes⟩ | ⟨rfl, hreply⟩
  · exact (h before other rest hnotes).imp id fun hle => Nat.le_trans hle (length_fatesOf_le _ _)
  · exact .inl ⟨channel, Note.replied.inj hreply ▸ hack⟩

/-- Notes that judge no message leave the others judged as they were. -/
theorem Judged.append_quiet {notes more : List Note} (h : Judged notes)
    (hmore : ∀ note ∈ more, note.fate? = none) : Judged (notes ++ more) := by
  intro before note behind delivered hsplit hfate
  rcases split_append hsplit with ⟨rest, hnotes⟩ | ⟨mid, rfl, rfl⟩
  · exact h before note rest delivered hnotes hfate
  · have hnone := hmore note (List.mem_append_right _ List.mem_cons_self)
    exact nomatch hnone.symm.trans hfate

/-- The messages that wait are the last ones that were accepted, behind those that have been
judged. -/
structure Backlog (waits : List Delivery) (notes : List Note) : Prop where
  /-- What has been accepted. -/
  accepted : ∃ past, acceptedOf notes = past ++ waits ∧ past.length = (fatesOf notes).length
  /-- What has been judged. -/
  judged : Judged notes

namespace Backlog

variable {waits : List Delivery} {notes more : List Note} {d : Delivery}

/-- Where nothing has been noted, nothing waits. -/
theorem nil : Backlog [] [] :=
  ⟨⟨[], rfl, rfl⟩, fun _ _ _ _ h => nomatch List.append_eq_nil_iff.mp h.symm⟩

/-- Notes that neither judge nor accept a message leave those that wait waiting. -/
theorem append_silent (h : Backlog waits notes) (hfates : fatesOf more = [])
    (haccepted : acceptedOf more = []) : Backlog waits (notes ++ more) := by
  obtain ⟨past, hpast, hlength⟩ := h.accepted
  refine ⟨⟨past, ?_, ?_⟩, h.judged.append_quiet (List.filterMap_eq_nil_iff.mp hfates)⟩
  · rw [acceptedOf_append, haccepted, List.append_nil, hpast]
  · rw [fatesOf_append, hfates, List.append_nil, hlength]

/-- A message that is accepted waits behind the others. -/
theorem accept (h : Backlog waits notes) (d : Delivery) :
    Backlog (waits ++ [d]) (notes ++ [.accepted d]) := by
  obtain ⟨past, hpast, hlength⟩ := h.accepted
  refine ⟨⟨past, ?_, ?_⟩, h.judged.append_quiet (List.forall_mem_singleton.mpr rfl)⟩
  · rw [acceptedOf_append, hpast, List.append_assoc]
    rfl
  · rw [fatesOf_append, hlength]
    exact congrArg _ (List.append_nil _).symm

/-- The first message that waits is judged. -/
theorem judge {note : Note} {delivered : Bool} (h : Backlog (d :: waits) notes)
    (hfate : note.fate? = some delivered)
    (hack : delivered = true ↔ lastAck? d.channel (unitsOf notes) = some true)
    (hdelivered : delivered = true → note = .delivered d ∧ Cleared notes) :
    Backlog waits (notes ++ [note]) := by
  obtain ⟨past, hpast, hlength⟩ := h.accepted
  have hfates : fatesOf [note] = [delivered] := List.filterMap_cons_some hfate
  have hnone : acceptedOf [note] = [] := by
    refine List.filterMap_eq_nil_iff.mpr (List.forall_mem_singleton.mpr ?_)
    cases note with
    | accepted d => exact nomatch hfate
    | _ => rfl
  refine ⟨⟨past ++ [d], ?_, ?_⟩, fun before other behind delivered' hsplit hother => ?_⟩
  · rw [acceptedOf_append, hnone, List.append_nil, hpast, List.append_assoc, List.singleton_append]
  · rw [fatesOf_append, hfates, List.length_append, List.length_append, hlength]
    rfl
  · rcases split_concat hsplit with ⟨rest, hnotes⟩ | ⟨rfl, rfl⟩
    · exact h.judged before other rest delivered' hnotes hother
    · obtain rfl := Option.some.inj (hfate.symm.trans hother)
      refine ⟨d, ?_, hack, hdelivered⟩
      rw [hpast, ← hlength, List.getElem?_append_right (Nat.le_refl _), Nat.sub_self]
      rfl

/-- When the client is subscribed to no channel, messages are given up. Which ones the notes name
does not matter. -/
theorem discardEach (h : Backlog waits notes)
    (hnone : ∀ channel, lastAck? channel (unitsOf notes) ≠ some true) (ds : List Delivery)
    (hle : ds.length ≤ waits.length) :
    Backlog (waits.drop ds.length) (notes ++ ds.map .discarded) := by
  induction ds generalizing waits notes with
  | nil => exact (List.append_nil notes).symm ▸ h
  | cons d ds ih =>
      cases waits with
      | nil => exact absurd hle (Nat.not_succ_le_zero _)
      | cons first waits =>
          have hfirst : Backlog waits (notes ++ [.discarded d]) :=
            h.judge rfl (iff_of_false Bool.false_ne_true (hnone first.channel)) nofun
          have hrest := ih hfirst (fun channel => ?_) (Nat.le_of_succ_le_succ hle)
          · rwa [List.append_assoc] at hrest
          · rw [unitsOf_append]
            exact (List.append_nil (unitsOf notes)).symm ▸ hnone channel

/-- When nothing waits, the fates of all messages are decided. -/
theorem cleared (h : Backlog [] notes) : Cleared notes := by
  intro before reply behind hnotes
  obtain ⟨past, hpast, hlength⟩ := h.accepted
  refine .inr ?_
  rw [← hlength, ← List.append_nil past, ← hpast, hnotes, acceptedOf_append, List.length_append]
  exact Nat.le_add_right _ _

end Backlog

/-! ### Requests -/

namespace Handler

open RespStore.Task

variable {answers : Answers}

/-- A subscriber answers every request. -/
theorem always_ok_handle (registry : Registry) (request : Request) :
    (handle (.subscriber registry) request).Always answers fun result =>
      ∃ completion, result = .ok completion := by
  have hmap (task : Task Completion) : (Except.ok <$> task : Task (Except Fatal Completion)).Always
      answers fun result => ∃ completion, result = .ok completion :=
    always_map.mpr (always_iff.mpr fun completion _ => ⟨completion, rfl⟩)
  rw [handle]
  split
  · exact ⟨_, rfl⟩
  · rename_i command _
    cases command with
    | subscribe channels => exact hmap _
    | unsubscribe channels => exact hmap _
    | _ => exact ⟨_, rfl⟩

/-- Whether a request ends with a proper handler, or fails for good while the client is subscribed
to nothing. -/
def EndsProper (units : List Reply) : Except Fatal Completion → Prop
  | .ok completion => completion.handler.Proper
  | .error _ => Registry.Agrees ∅ units

/-- A request that a proper handler carries out ends with a proper handler, or fails for good while
the client is subscribed to nothing. -/
theorem endsProper_handle {handler : Handler} {units : List Reply} (request : Request)
    (hproper : handler.Proper) (hagrees : handler.registry.Agrees units) :
    (handler.handle request).Always (fun _ _ => True) (EndsProper units) := by
  refine always_iff.mpr fun result hends => ?_
  cases result with
  | ok completion =>
      have htracks := (tracks_handle request hproper).always
      obtain ⟨registry, hregistry⟩ := always_iff.mp htracks _ hends
      exact hregistry.2
  | error reason =>
      cases handler with
      | normal => exact hagrees
      | subscriber registry =>
          obtain ⟨completion, heq⟩ := always_iff.mp (always_ok_handle registry request) _ hends
          exact nomatch heq

end Handler

namespace Connection

/-- The handler of a connection, and that of the request at hand, is a subscriber while it has
channels. -/
structure HasProper (c : Connection) (units : List Reply) : Prop where
  /-- The handler that is there. -/
  handler : ∀ handler, c.handler = some handler → handler.Proper
  /-- The handler that a task leads to. -/
  task : ∀ task, Phase.task? c.phase = some task →
    task.Always (fun _ _ => True) (Handler.EndsProper units)

/-- A step keeps handlers proper: the one that a request installs is the one that its task ended
with. -/
theorem HasProper.step {c : Connection} {units : List Reply} {p : Progress} (h : HasProper c units)
    (hannounced : Announced c units) (hhandles : Handles c p) :
    HasProper p.connection (units ++ unitsOf p.notes) := by
  cases hhandles with
  | rests hrests =>
      refine ⟨fun handler heq => h.handler handler (hrests.handler_eq ▸ heq), fun _ heq => ?_⟩
      exact nomatch hrests.task?_eq.symm.trans heq
  | givesUp hrests =>
      refine ⟨fun _ heq => (nomatch hrests.handler_eq.symm.trans heq), fun _ heq => ?_⟩
      exact nomatch hrests.task?_eq.symm.trans heq
  | takes request handler hhandler hunits haway htask =>
      refine ⟨fun _ heq => (nomatch haway.symm.trans heq), fun task heq => ?_⟩
      obtain rfl := Option.some.inj (htask.symm.trans heq)
      rw [hunits, List.append_nil]
      exact Handler.endsProper_handle request (h.handler handler hhandler)
        (hannounced.handler handler hhandler)
  | works task task' htask hcontinues hunits hhandler htask' =>
      refine ⟨fun handler heq => h.handler handler (hhandler ▸ heq), fun task'' heq => ?_⟩
      obtain rfl := Option.some.inj (htask'.symm.trans heq)
      rw [hunits, List.append_nil]
      exact hcontinues.always (h.task task htask)
  | installs completion htask hrests =>
      refine ⟨fun handler heq => ?_, fun _ heq => (nomatch hrests.task?_eq.symm.trans heq)⟩
      obtain rfl := Option.some.inj (hrests.handler_eq.symm.trans heq)
      exact h.task _ htask

/-! ### Judging messages -/

section Judging

variable {c : Connection} {d : Delivery} {waits : List Delivery} {notes : List Note}
  {completion : Completion}

/-- A connection with a handler is subscribed to the channels that its client takes itself to be
subscribed to. -/
theorem isSubscribed_iff {units : List Reply} {handler : Handler} (h : Acknowledged c units)
    (hhandler : c.handler = some handler) (channel : Bytes) :
    c.isSubscribed channel = true ↔ lastAck? channel units = some true := by
  rw [isSubscribed, hhandler]
  exact h.handler handler hhandler channel

/-- Delivering a message answers no request. -/
theorem not_replied_deliver (reply : Reply) : .replied reply ∉ (c.deliver d).2 := by
  intro hmem
  rcases note_of_mem_deliver hmem with heq | heq
  · exact nomatch heq
  · exact nomatch heq

/-- The message whose turn it is goes out if the client is subscribed to its channel. -/
theorem backlog_deliver {handler : Handler} (h : Backlog (d :: waits) notes)
    (hcleared : Cleared notes) (hack : Acknowledged c (unitsOf notes))
    (hhandler : c.handler = some handler) :
    Backlog waits (notes ++ (c.deliver d).2) ∧ Cleared (notes ++ (c.deliver d).2) := by
  refine ⟨?_, hcleared.append not_replied_deliver⟩
  have hiff := isSubscribed_iff hack hhandler d.channel
  rw [deliver]
  split
  · rename_i hsubscribed
    exact h.judge rfl (iff_of_true rfl (hiff.mp hsubscribed)) fun _ => ⟨rfl, hcleared⟩
  · rename_i hnot
    exact h.judge rfl (iff_of_false Bool.false_ne_true fun hack => hnot (hiff.mpr hack))
      fun hout => absurd hout Bool.false_ne_true

/-- Messages whose turn has come are judged one after the other, by what the client has been told
before. -/
theorem backlog_deliverEach {handler : Handler} {ds : List Delivery}
    (h : Backlog (ds ++ waits) notes) (hcleared : Cleared notes)
    (hack : Acknowledged c (unitsOf notes)) (hhandler : c.handler = some handler) :
    Backlog waits (notes ++ (c.deliverEach ds).2) ∧ Cleared (notes ++ (c.deliverEach ds).2) := by
  induction ds generalizing c notes with
  | nil => exact (List.append_nil notes).symm ▸ ⟨h, hcleared⟩
  | cons d ds ih =>
      obtain ⟨hfirst, hcleared⟩ := backlog_deliver h hcleared hack hhandler
      have hack' := hack.deliver d
      rw [← unitsOf_append] at hack'
      have hrest := ih hfirst hcleared hack' ((handler_deliver c d).trans hhandler)
      rwa [List.append_assoc] at hrest

/-- A connection that is subscribed to nothing gives all messages up. -/
theorem notes_deliverEach (hnone : ∀ channel, c.isSubscribed channel = false)
    (ds : List Delivery) : (c.deliverEach ds).2 = ds.map .discarded := by
  induction ds with
  | nil => rfl
  | cons d ds ih =>
      have hfirst : c.deliver d = (c, [.discarded d]) := by
        rw [deliver, hnone, if_neg Bool.false_ne_true]
      rw [deliverEach, hfirst]
      exact congrArg (.discarded d :: ·) ih

/-- A completion installs its handler. -/
theorem handler_complete (c : Connection) (completion : Completion) :
    (c.complete completion).1.handler = some completion.handler := rfl

/-- When the last channel is left, everything that waits is given up. -/
theorem complete_of_normal (h : completion.handler = .normal) :
    (c.complete completion).1.mailbox = c.mailbox.cleared ∧ (c.complete completion).2 =
      .replied completion.reply :: c.mailbox.queued.map .discarded := by
  rw [complete, h]
  exact ⟨rfl, rfl⟩

/-- A subscriber that stays one keeps the messages that wait. -/
theorem complete_of_subscriber {registry : Registry}
    (h : completion.handler = .subscriber registry) :
    (c.complete completion).1.mailbox = c.mailbox ∧
      (c.complete completion).2 = [.replied completion.reply] := by
  rw [complete, h]
  exact ⟨rfl, rfl⟩

/-- A request is answered that had to wait, or not. What was held is judged; what is in the mailbox
goes on waiting, unless the last channel has been left. -/
theorem backlog_resume {held : List Delivery} (h : Backlog (held ++ c.mailbox.queued) notes)
    (hcleared : Cleared notes) (hack : Acknowledged c (unitsOf notes))
    (hkeeps : completion.Keeps (unitsOf notes)) (hproper : completion.handler.Proper) :
    Backlog (c.complete completion).1.mailbox.queued (notes ++ (c.resume held completion).2) ∧
      Cleared (notes ++ (c.resume held completion).2) := by
  have hagrees := hkeeps.agrees
  have hunits : unitsOf (notes ++ [.replied completion.reply]) =
      unitsOf notes ++ completion.reply.parts :=
    (unitsOf_append _ _).trans (congrArg _ (List.append_nil _))
  have hreplied : Backlog (held ++ c.mailbox.queued) (notes ++ [.replied completion.reply]) :=
    h.append_silent rfl rfl
  cases hhandler : completion.handler with
  | normal =>
      rw [hhandler] at hagrees
      have hnone : ∀ channel,
          lastAck? channel (unitsOf (notes ++ [.replied completion.reply])) ≠ some true := by
        intro channel hsome
        rw [hunits] at hsome
        exact Std.ExtTreeMap.not_mem_empty ((hagrees channel).mpr hsome)
      obtain ⟨hmailbox, hnotes⟩ := complete_of_normal (c := c) hhandler
      -- The mailbox is given up before what is held, although it came later: the notes name the
      -- messages in another order than they were accepted in, but there are as many.
      have hresume : notes ++ (c.resume held completion).2 = notes ++
          [.replied completion.reply] ++ (c.mailbox.queued ++ held).map .discarded := by
        have heach := notes_deliverEach (c := (c.complete completion).1)
          (fun channel => by rw [isSubscribed, handler_complete, hhandler]; rfl) held
        rw [resume, hnotes, heach, List.map_append, List.append_assoc]
        rfl
      have hlength : (held ++ c.mailbox.queued).length = (c.mailbox.queued ++ held).length := by
        rw [List.length_append, List.length_append, Nat.add_comm]
      have hgone :=
        hreplied.discardEach hnone (c.mailbox.queued ++ held) (Nat.le_of_eq hlength.symm)
      rw [← hlength, List.drop_length, ← hresume] at hgone
      rw [hmailbox]
      exact ⟨hgone, hgone.cleared⟩
  | subscriber registry =>
      obtain ⟨hmailbox, hnotes⟩ := complete_of_subscriber (c := c) hhandler
      rw [hhandler] at hagrees hproper
      obtain ⟨channel, hchannel⟩ : ∃ channel, channel ∈ registry :=
        Classical.not_forall_not.mp fun hnone =>
          hproper.mp rfl (Std.ExtTreeMap.eq_empty_iff_forall_not_mem.mpr hnone)
      have hstays := hcleared.concat_reply ((hagrees channel).mp hchannel)
      have hcomplete := hack.complete hkeeps
      rw [hnotes, ← unitsOf_append] at hcomplete
      have heach := backlog_deliverEach hreplied hstays hcomplete (handler_complete c completion)
      rw [hmailbox, resume, hnotes, ← List.append_assoc]
      exact heach

end Judging

/-! ### The invariant -/

/-- The messages that wait for a connection are the last ones that were accepted, and all others
have been judged. When it is about to end, none is judged any more. -/
structure Queues (c : Connection) (notes : List Note) : Prop where
  /-- What waits. -/
  backlog : Phase.closing? c.phase = none →
    Backlog (Phase.held c.phase ++ c.mailbox.queued) notes ∧ Cleared notes
  /-- What has been judged. -/
  judged : Judged notes

/-- A connection that works on no request holds no messages. -/
theorem held_of_task {phase : Phase} (h : Phase.task? phase = none) : Phase.held phase = [] := by
  cases phase with
  | waiting task held => exact nomatch h
  | _ => rfl

/-- To begin a flush leaves the mailbox alone. -/
theorem mailbox_flush (c : Connection) (next : AfterFlush) :
    (c.flush next).mailbox = c.mailbox := by
  obtain ⟨outbound, autoRead, phase, heq⟩ := flush_eq c next
  rw [heq]

/-- What follows a flush leaves the mailbox alone. -/
theorem mailbox_afterFlush (c : Connection) (next : AfterFlush) :
    (c.afterFlush next).mailbox = c.mailbox := by
  obtain ⟨autoRead, phase, heq⟩ := afterFlush_eq c next
  rw [heq]

/-- Delivering a message leaves the mailbox alone. -/
theorem mailbox_deliver (c : Connection) (d : Delivery) :
    (c.deliver d).1.mailbox = c.mailbox := by
  rw [deliver]
  split
  · rfl
  · rfl

/-- Delivering messages that were held leaves the mailbox alone. -/
theorem mailbox_deliverEach (c : Connection) (ds : List Delivery) :
    (c.deliverEach ds).1.mailbox = c.mailbox := by
  induction ds generalizing c with
  | nil => rfl
  | cons d ds ih => exact (ih _).trans (mailbox_deliver c d)

/-- A request that had to wait leaves the mailbox that its completion leaves. -/
theorem mailbox_resume (c : Connection) (held : List Delivery) (completion : Completion) :
    (c.resume held completion).1.mailbox = (c.complete completion).1.mailbox := by
  obtain ⟨state, hwake⟩ := wake_eq ((c.complete completion).1.deliverEach held).1
  rw [resume]
  simp only [hwake]
  exact mailbox_deliverEach _ held

/-- A connection that leaves neither judges a message nor answers a request. -/
theorem isQuiet_leave (c : Connection) (ending : Ending) :
    ∀ note ∈ (c.leave ending).2, note.IsQuiet := by
  rw [leave]
  cases c.handler with
  | none => exact List.forall_mem_cons.mpr ⟨trivial, List.forall_mem_singleton.mpr trivial⟩
  | some handler => exact List.forall_mem_singleton.mpr trivial

namespace Queues

variable {c c' : Connection} {notes more : List Note} {waits : List Delivery}

/-- A step that judges no message and accepts none. -/
theorem of_quiet (h : Queues c notes)
    (hopen : Phase.closing? c'.phase = none → Phase.closing? c.phase = none)
    (hheld : Phase.held c'.phase ++ c'.mailbox.queued = Phase.held c.phase ++ c.mailbox.queued)
    (hmore : ∀ note ∈ more, note.IsQuiet) : Queues c' (notes ++ more) := by
  refine ⟨fun hclosing => ?_, h.judged.append_quiet fun note hnote => (hmore note hnote).fate?_eq⟩
  obtain ⟨hbacklog, hcleared⟩ := h.backlog (hopen hclosing)
  refine ⟨?_, hcleared.append fun reply hmem => hmore _ hmem⟩
  exact hheld.symm ▸ hbacklog.append_silent (fatesOf_quiet hmore) (acceptedOf_quiet hmore)

/-- A step that ends the connection, or is taken by one that is about to end. -/
theorem of_closing (h : Queues c notes) (hclosing : Phase.closing? c'.phase ≠ none)
    (hmore : ∀ note ∈ more, note.IsQuiet) : Queues c' (notes ++ more) :=
  ⟨fun hopen => absurd hopen hclosing,
    h.judged.append_quiet fun note hnote => (hmore note hnote).fate?_eq⟩

/-- A step that works on no request and leaves the mailbox as it is. -/
theorem of_rests {handler : Option Handler} (h : Queues c notes)
    (hopen : Phase.closing? c.phase = none) (htask : Phase.task? c.phase = none)
    (hrests : Rests handler c') (hmailbox : c'.mailbox = c.mailbox)
    (hmore : ∀ note ∈ more, note.IsQuiet) : Queues c' (notes ++ more) := by
  refine h.of_quiet (fun _ => hopen) ?_ hmore
  rw [held_of_task htask, held_of_task hrests.task?_eq, hmailbox]

/-- What waits for a connection, held or in the mailbox, is what the account says. -/
theorem of_backlog (h : Backlog waits notes ∧ Cleared notes)
    (hwaits : Phase.held c.phase ++ c.mailbox.queued = waits) : Queues c notes :=
  ⟨fun _ => hwaits.symm ▸ h, h.1.judged⟩

/-- Nothing waits for a new connection. -/
theorem new (settings : Settings) : Queues (Connection.new settings) [] :=
  of_backlog ⟨.nil, Backlog.nil.cleared⟩ rfl

/-- A message is accepted, or lost. -/
theorem post (h : Queues c notes) (d : Delivery) : Queues (c.post d).1 (notes ++ (c.post d).2) := by
  rw [Connection.post]
  split
  · rename_i hroom
    refine ⟨fun hopen => ?_, h.judged.append_quiet (List.forall_mem_singleton.mpr rfl)⟩
    obtain ⟨hbacklog, hcleared⟩ := h.backlog hopen
    have hoffer : (c.mailbox.offer d).queued = c.mailbox.queued ++ [d] := by
      have hfull : c.mailbox.isFull ≠ true := fun hfull => by simp [hfull] at hroom
      rw [Mailbox.offer, if_neg hfull]
    have hnot : ∀ reply, .replied reply ∉ [Note.accepted d] := by
      intro reply hmem
      cases List.mem_singleton.mp hmem
    refine ⟨?_, hcleared.append hnot⟩
    rw [hoffer, ← List.append_assoc]
    exact hbacklog.accept d
  · exact h.of_quiet id rfl (List.forall_mem_singleton.mpr trivial)

variable {client : Nat} {s : Store Subscriber} {m : Move} {p : Progress}

/-- Every step keeps the account of the messages that wait. -/
theorem step (h : Queues c notes) (hannounced : Announced c (unitsOf notes))
    (hinstalled : Installed c) (hproper : HasProper c (unitsOf notes))
    (hstep : Steps client s c m p) : Queues p.connection (notes ++ p.notes) := by
  have hnil : ∀ note ∈ ([] : List Note), note.IsQuiet := List.forall_mem_nil _
  have hpolls : c.Polls → Phase.closing? c.phase = none ∧ Phase.task? c.phase = none := by
    rintro (hphase | ⟨hphase, -⟩)
    · exact hphase ▸ ⟨rfl, rfl⟩
    · exact hphase ▸ ⟨rfl, rfl⟩
  cases hstep with
  | finished hphase _ =>
      exact h.of_rests (hphase ▸ rfl) (hphase ▸ rfl) (rests_flush { c with state := .closed } _)
        (mailbox_flush _ _) hnil
  | turn hphase _ _ => exact h.of_rests (hphase ▸ rfl) (hphase ▸ rfl) ⟨rfl, rfl⟩ rfl hnil
  | turnFlush hphase _ _ =>
      exact h.of_rests (hphase ▸ rfl) (hphase ▸ rfl) (rests_flush c _) (mailbox_flush c _) hnil
  | request hphase _ _ =>
      refine h.of_quiet (fun _ => (hpolls hphase).1) ?_ (List.forall_mem_singleton.mpr trivial)
      rw [held_of_task (hpolls hphase).2]
      rfl
  | orphan _ _ _ => exact h.of_closing (closing?_fail _ _) (List.forall_mem_singleton.mpr trivial)
  | endOfInput hphase _ =>
      exact h.of_rests (hpolls hphase).1 (hpolls hphase).2 ⟨rfl, rfl⟩ rfl hnil
  | readError _ _ => exact h.of_closing (closing?_fail _ _) hnil
  | @nothing reader hphase _ =>
      exact h.of_rests (hphase ▸ rfl) (hphase ▸ rfl) (rests_flush { c with reader } _)
        (mailbox_flush _ _) hnil
  | more _ _ _ _ => exact h.of_quiet id rfl hnil
  | @message d mailbox hphase hmailbox =>
      obtain ⟨handler, hhandler⟩ := hinstalled (hphase ▸ rfl) (hphase ▸ rfl)
      obtain ⟨hbacklog, hcleared⟩ := h.backlog (hphase ▸ rfl)
      rw [hphase, queued_of_take hmailbox] at hbacklog
      have hack : Acknowledged { c with mailbox, phase := .turn } (unitsOf notes) :=
        hannounced.of_handler (.inl rfl)
      refine of_backlog (backlog_deliver hbacklog hcleared hack hhandler) ?_
      rw [(puts_deliver _ d).phase_eq, mailbox_deliver]
      rfl
  | overBudget hphase _ =>
      exact h.of_rests (hphase ▸ rfl) (hphase ▸ rfl) (rests_flush { c with autoRead := false } _)
        (mailbox_flush _ _) hnil
  | settled hphase _ => exact h.of_rests (hphase ▸ rfl) (hphase ▸ rfl) ⟨rfl, rfl⟩ rfl hnil
  | fatal _ => exact h.of_closing (closing?_fail _ _) hnil
  | @answered completion hphase =>
      obtain ⟨hbacklog, hcleared⟩ := h.backlog (hphase ▸ rfl)
      rw [hphase] at hbacklog
      have htask := congrArg Phase.task? hphase
      have hwaits : Backlog ([] ++ c.mailbox.queued) notes := hbacklog
      have hresume := backlog_resume hwaits hcleared hannounced.toAcknowledged
        (hannounced.keeps htask) (hproper.task _ htask)
      have hnotes : (c.resume [] completion).2 = (c.complete completion).2 := List.append_nil _
      rw [hnotes] at hresume
      exact of_backlog hresume rfl
  | @fatalWaiting reason held hphase =>
      obtain ⟨hbacklog, -⟩ := h.backlog (hphase ▸ rfl)
      rw [hphase] at hbacklog
      -- Only a client that is subscribed to nothing can make a request fail for good.
      have hagrees : Registry.Agrees ∅ (unitsOf notes) :=
        hproper.task _ (congrArg Phase.task? hphase)
      have hnone : ∀ channel, lastAck? channel (unitsOf notes) ≠ some true :=
        fun channel hsome => Std.ExtTreeMap.not_mem_empty ((hagrees channel).mpr hsome)
      have hle : held.length ≤ (held ++ c.mailbox.queued).length := by
        rw [List.length_append]
        exact Nat.le_add_right _ _
      exact ⟨fun hopen => absurd hopen (closing?_fail c _),
        (hbacklog.discardEach hnone held hle).judged⟩
  | @answeredWaiting completion held hphase =>
      obtain ⟨hbacklog, hcleared⟩ := h.backlog (hphase ▸ rfl)
      rw [hphase] at hbacklog
      have htask := congrArg Phase.task? hphase
      refine of_backlog (backlog_resume hbacklog hcleared hannounced.toAcknowledged
        (hannounced.keeps htask) (hproper.task _ htask)) ?_
      rw [held_of_task (rests_flush _ _).task?_eq, mailbox_flush, mailbox_resume]
      rfl
  | left _ => exact h.of_closing nofun (List.forall_mem_singleton.mpr trivial)
  | dropped _ => exact h.of_closing nofun (List.forall_mem_singleton.mpr trivial)
  | answer hphase => exact h.of_quiet (fun _ => hphase ▸ rfl) (by rw [hphase]; rfl) hnil
  | answerWaiting hphase => exact h.of_quiet (fun _ => hphase ▸ rfl) (by rw [hphase]; rfl) hnil
  | answerLeaving _ => exact h.of_closing nofun hnil
  | answerAbandoned _ => exact h.of_closing nofun hnil
  | computed hphase => exact h.of_quiet (fun _ => hphase ▸ rfl) (by rw [hphase]; rfl) hnil
  | computedWaiting hphase => exact h.of_quiet (fun _ => hphase ▸ rfl) (by rw [hphase]; rfl) hnil
  | suspend hphase _ => exact h.of_quiet (fun _ => hphase ▸ rfl) (by rw [hphase]; rfl) hnil
  | @hold task held d mailbox hphase _ hmailbox =>
      refine h.of_quiet (fun _ => hphase ▸ rfl) ?_ (List.forall_mem_singleton.mpr trivial)
      rw [hphase, queued_of_take hmailbox]
      exact List.append_assoc held [d] mailbox.queued
  | @accept n chunk behind next hphase _ =>
      have hflushes := Stream.flushes_rest (chunk.drop n) behind next
      have hclosing := Stream.closing?_of_flushes hflushes
      refine h.of_quiet (fun hopen => hphase ▸ hclosing.symm.trans hopen) ?_
        (List.forall_mem_singleton.mpr trivial)
      rw [hphase, held_of_task (task?_of_flushes hflushes)]
      rfl
  | acceptNothing _ =>
      exact h.of_closing (closing?_flushFailed c _ _) (List.forall_mem_singleton.mpr trivial)
  | @sync next hphase =>
      refine h.of_quiet (fun hopen => hphase ▸ (closing?_afterFlush c next).symm.trans hopen) ?_
        (List.forall_mem_singleton.mpr trivial)
      rw [hphase, held_of_task (rests_afterFlush c next).task?_eq, mailbox_afterFlush]
      rfl
  | refuseWriting _ => exact h.of_closing (closing?_flushFailed c _ _) hnil
  | refuseSyncing _ => exact h.of_closing (closing?_flushFailed c _ _) hnil
  | refuseShutDown _ => exact h.of_closing (closing?_leave c _) (isQuiet_leave c _)
  | shutDown _ => exact h.of_closing (closing?_leave c _) (isQuiet_leave c _)
  | arrive a => exact h.of_quiet id rfl hnil
  | abandon _ => exact h.of_closing nofun hnil

end Queues

/-! ### Runs -/

/-- What keeps the judgements of a connection right. -/
structure Judges (c : Connection) (notes : List Note) : Prop where
  /-- What the client has been told agrees with what the connection knows. -/
  announced : Announced c (unitsOf notes)
  /-- The handler is there when a message is judged. -/
  installed : Installed c
  /-- The handler is a subscriber while it has channels. -/
  proper : HasProper c (unitsOf notes)
  /-- The messages that wait. -/
  queues : Queues c notes

namespace Judges

variable {c : Connection} {notes : List Note}

/-- A new connection has judged nothing. -/
theorem new (settings : Settings) : Judges (Connection.new settings) [] :=
  ⟨.new settings, .new settings, ⟨fun _ heq => Option.some.inj heq ▸ Handler.proper_normal,
    fun _ heq => nomatch heq⟩, .new settings⟩

/-- A message that is posted is accepted or lost, which judges nothing. -/
theorem post (h : Judges c notes) (d : Delivery) :
    Judges (c.post d).1 (notes ++ (c.post d).2) := by
  refine ⟨unitsOf_append _ _ ▸ h.announced.post d, h.installed.post d, ?_, h.queues.post d⟩
  have hunits : unitsOf (c.post d).2 = [] := by
    refine List.flatMap_eq_nil_iff.mpr fun note hnote => ?_
    rcases note_of_mem_post c hnote with rfl | rfl
    · rfl
    · rfl
  obtain ⟨mailbox, hposted⟩ := c.post_eq d
  rw [unitsOf_append, hunits, List.append_nil, hposted]
  exact ⟨h.proper.handler, h.proper.task⟩

/-- Every step keeps the judgements right. -/
theorem step {client : Nat} {s : Store Subscriber} {m : Move} {p : Progress} (h : Judges c notes)
    (hstep : Steps client s c m p) : Judges p.connection (notes ++ p.notes) := by
  refine ⟨?_, h.installed.step hstep, ?_, h.queues.step h.announced h.installed h.proper hstep⟩
  · rw [unitsOf_append]
    exact h.announced.step hstep
  · rw [unitsOf_append]
    exact h.proper.step h.announced hstep.handles

end Judges

end Connection

namespace Server

/-- **A message behind the end of its subscription.** New connections over one store, and any run
of them, whatever their calls are answered and whatever their writers do. A message `d` was
accepted for a connection, and behind that the end of the subscription to its channel was
acknowledged. Its turn comes when as many messages have been judged as were accepted before it.
Then this holds:

* The message goes out if and only if behind that acknowledgement the connection has subscribed to
  the channel again.
* When it goes out, every reply from its acceptance on has left the connection subscribed to some
  channel.
* What is written is a front of what was put into the buffer, with nothing behind it but the line
  that reports a failure. So a message that does not go out is never written. -/
theorem message_after_unsubscribe {y y' : Server} {moves : List (Nat × Move)} {log : Log} {j : Nat}
    {c : Connection} {before mid between behind : List Note} {d : Delivery} {reply : Reply}
    {acks rest : List Reply} {count : Nat} {note : Note} {delivered : Bool}
    (hnew : ∀ c ∈ y.connections, ∃ settings, c = Connection.new settings)
    (hrun : y.run moves = some (y', log)) (hc : y'.connections[j]? = some c)
    (hnotes : notesOf j log =
      before ++ .accepted d :: (mid ++ .replied reply :: (between ++ note :: behind)))
    (hreply : reply.parts = acks ++ .unsubscribed (some d.channel) count :: rest)
    (hfate : note.fate? = some delivered)
    (hturn : (fatesOf (before ++ .accepted d :: (mid ++ .replied reply :: between))).length =
      (acceptedOf before).length) :
    (delivered = true ↔ lastAck? d.channel (rest ++ unitsOf between) = some true) ∧
    (delivered = true → note = .delivered d ∧ ∀ front other back,
      mid ++ .replied reply :: between = front ++ .replied other :: back →
        ∃ channel, lastAck? channel
          (unitsOf (before ++ .accepted d :: front) ++ other.parts) = some true) ∧
    ∃ sent reason, sent <+: encodedOf (notesOf j log) ∧
      writtenOf (notesOf j log) <+: sent ++ (lastError reason).encode := by
  have hjudges : c.Judges (notesOf j log) :=
    run_invariant_new (fun h hstep => h.step (Connection.steps_of_step hstep))
      (fun _ _ d h => h.post d) hnew .new hrun j c hc
  have hsplit : notesOf j log =
      (before ++ .accepted d :: (mid ++ .replied reply :: between)) ++ note :: behind := by
    rw [hnotes]
    simp
  obtain ⟨d', hget, hiff, hdelivered⟩ := hjudges.queues.judged _ note behind delivered hsplit hfate
  obtain rfl : d = d' := by
    rw [hturn, acceptedOf_accepted, List.getElem?_append_right (Nat.le_refl _),
      Nat.sub_self] at hget
    exact Option.some.inj hget
  refine ⟨hiff.trans ?_, fun hout => ?_, ?_⟩
  · have hunits : unitsOf (before ++ .accepted d :: (mid ++ .replied reply :: between)) =
        unitsOf before ++ unitsOf mid ++ acks ++
          .unsubscribed (some d.channel) count :: (rest ++ unitsOf between) := by
      have haccept : ∀ notes, unitsOf (.accepted d :: notes) = unitsOf notes := fun _ => rfl
      have hreplied : unitsOf (.replied reply :: between) = reply.parts ++ unitsOf between :=
        List.flatMap_cons
      rw [unitsOf_append, haccept, unitsOf_append, hreplied, hreply]
      simp only [List.append_assoc, List.cons_append]
    rw [hunits, lastAck?_unsubscribed]
  · obtain ⟨hnote, hcleared⟩ := hdelivered hout
    refine ⟨hnote, fun front other back hback => ?_⟩
    rw [hback] at hturn hcleared
    have hfront := hcleared (before ++ .accepted d :: front) other back (by simp)
    refine hfront.resolve_right fun hle => ?_
    rw [hturn, acceptedOf_accepted, List.length_append, List.length_cons] at hle
    omega
  · have hstream := stream_of_run hnew hrun hc
    obtain ⟨sent, reason, hsent, hprefix⟩ := hstream.exists_prefix
    exact ⟨sent, reason, hsent, (List.prefix_append _ _).trans hprefix⟩

/-- A client of two channels leaves one of them and subscribes to it again, while a message on that
channel waits for it behind another message. -/
def resubscribing : List (Nat × Move) :=
  [(0, .arrive (.chunk (Bytes.ofString "*3\r\n$9\r\nSUBSCRIBE\r\n$1\r\na\r\n$1\r\nb\r\n"))),
    (0, .proceed), (0, .proceed), (0, .answer fun _ => none), (0, .answer fun _ => none),
    (0, .proceed), (0, .proceed), (0, .proceed), (0, .proceed), (0, .accept 512), (0, .sync),
    (1, .arrive (.chunk (Bytes.ofString "*3\r\n$7\r\nPUBLISH\r\n$1\r\na\r\n$1\r\nx\r\n"))),
    (1, .proceed), (1, .proceed), (1, .answer fun _ => none), (1, .proceed), (1, .proceed),
    (1, .arrive (.chunk (Bytes.ofString "*3\r\n$7\r\nPUBLISH\r\n$1\r\nb\r\n$1\r\ny\r\n"))),
    (1, .proceed), (1, .proceed), (1, .answer fun _ => none),
    (0, .arrive (.chunk (Bytes.ofString "*2\r\n$11\r\nUNSUBSCRIBE\r\n$1\r\nb\r\n"))),
    (0, .arrive (.chunk (Bytes.ofString "*2\r\n$9\r\nSUBSCRIBE\r\n$1\r\nb\r\n"))),
    (0, .proceed), (0, .proceed), (0, .proceed), (0, .answer fun _ => none), (0, .proceed),
    (0, .proceed), (0, .proceed), (0, .proceed), (0, .answer fun _ => none), (0, .proceed),
    (0, .proceed), (0, .proceed), (0, .proceed), (0, .accept 512), (0, .sync), (0, .proceed)]

/-- Whether this message was accepted, the end of the subscription to its channel acknowledged, and
the message put into the buffer then, when its turn had come. -/
def Resubscribed (d : Delivery) : List Note → Bool
  | [n₀, n₁, n₂, n₃, n₄, .accepted d₁, n₅, n₆, .replied (.many [.unsubscribed channel count]),
      n₇, n₈, n₉, n₁₀, .delivered d₂] =>
    decide (d₁ = d ∧ channel = some d.channel ∧ count = 1 ∧ d₂ = d ∧
      (fatesOf ([n₀, n₁, n₂, n₃, n₄] ++ .accepted d₁ :: ([n₅, n₆] ++
        .replied (.many [.unsubscribed channel count]) :: [n₇, n₈, n₉, n₁₀]))).length =
          (acceptedOf [n₀, n₁, n₂, n₃, n₄]).length)
  | _ => false

/-- The message goes out behind the end of its subscription, because the client has subscribed again
by the time its turn comes. -/
theorem message_after_unsubscribe_resubscribing :
    ∃ y log before mid between, twoClients.run resubscribing = some (y, log) ∧
      notesOf 0 log = before ++ .accepted ⟨[98], [121]⟩ ::
        (mid ++ .replied (.many [.unsubscribed (some [98]) 1]) ::
          (between ++ [.delivered ⟨[98], [121]⟩])) ∧
      lastAck? [98] (unitsOf between) = some true := by
  have hfacts : (twoClients.run resubscribing).map
      (fun result => Resubscribed ⟨[98], [121]⟩ (notesOf 0 result.2)) = some true := by
    decide +kernel
  obtain ⟨⟨y, log⟩, hrun, hfacts⟩ := Option.map_eq_some_iff.mp hfacts
  obtain ⟨c, hc⟩ := exists_connection (length_run hrun) (j := 0) rfl
  unfold Resubscribed at hfacts
  split at hfacts
  · rename_i n₀ n₁ n₂ n₃ n₄ d n₅ n₆ channel count n₇ n₈ n₉ n₁₀ d' hnotes
    obtain ⟨rfl, rfl, rfl, rfl, hturn⟩ := of_decide_eq_true hfacts
    have hreply : (Reply.many [.unsubscribed (some [98]) 1]).parts =
        [] ++ .unsubscribed (some [98]) 1 :: [] := rfl
    have hsplit : notesOf 0 log = [n₀, n₁, n₂, n₃, n₄] ++ .accepted ⟨[98], [121]⟩ ::
        ([n₅, n₆] ++ .replied (.many [.unsubscribed (some [98]) 1]) ::
          ([n₇, n₈, n₉, n₁₀] ++ .delivered ⟨[98], [121]⟩ :: [])) := hnotes
    have hout := message_after_unsubscribe new_of_mem_twoClients hrun hc hsplit hreply rfl hturn
    exact ⟨y, log, [n₀, n₁, n₂, n₃, n₄], [n₅, n₆], [n₇, n₈, n₉, n₁₀], hrun, hnotes, hout.1.mp rfl⟩
  · exact absurd hfacts Bool.false_ne_true

end Server

end RespStore
