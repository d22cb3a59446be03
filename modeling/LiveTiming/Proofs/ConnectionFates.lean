import LiveTiming.Proofs.QueueHistory
import LiveTiming.Proofs.WireRun

namespace LiveTiming

/-- What happened to the broadcasts and the registrations in all, when an entry was registered after some
of it and the rest was noticed at its queue. -/
def chronicle (before : List Occurrence) (own : Entry) (past : List Remark) : List Occurrence :=
  occurrences past ++ .entered own :: before

/-- Of the frames that were taken all before the last one were written, and the last one but for its end. -/
def Wire.Lacks (taken : List Bytes) (rest : Bytes) (w : Wire) : Prop :=
  ∃ before part, taken = before ++ [part ++ rest] ∧ w.connection.written = before.flatten ++ part

/-- The frames that were taken are written, but for the end of the last one while that is written, or when
it could not be. -/
structure Wire.Wrote (taken : List Bytes) (w : Wire) : Prop where
  whole : w.writing = none → w.broken = false → w.connection.written = taken.flatten
  part : ∀ rest, w.writing = some rest → w.connection.phase = .serving ∧ w.broken = false ∧ w.Lacks taken rest
  cut : w.broken = true → w.connection.phase ≠ .serving ∧ ∃ rest, w.Lacks taken rest

/-- A connection begins when its registration has just been entered. Its queue is new, and nobody was ever
registered with it. -/
structure Wire.Opens (origin : Floor) (before : List Occurrence) (own : Entry) (capacity : Nat) (start : Wire) :
    Prop where
  sound : origin.Sound
  idle : origin.turns.pass = none
  earliest : origin.Run (.entered own :: before) start.floor
  alone : ∀ e ∈ joined origin.hub.roster.entries before, e.subscriber ≠ own.subscriber
  queue : ∃ name, start.floor.hub.mailbox? own.subscriber = some (.ofCapacity name capacity)
  connection : start.connection = { mailbox := own.subscriber, id := own.id }
  calm : start.writing = none ∧ start.broken = false

/-- Nothing has happened that makes a connection stop but for the end of its registration: the feed was not
told to stop, the peer is there and can be read, and what had to be written could be. -/
structure Wire.Calm (w : Wire) : Prop where
  stopping : w.stopping = false
  peerGone : w.connection.peerGone = false
  readFails : w.connection.readFails = false
  broken : w.broken = false

/-- A connection with a registration stands where the past says. -/
structure Wire.Stands (before : List Occurrence) (own : Entry) (past : List Remark) (w : Wire) : Prop where
  closed : .closed ∈ past ↔ w.connection.phase = .ended
  ended : w.connection.phase = .ended → own.id ∉ w.floor.hub.roster.ids
  /-- If it has stopped in calm, the registration was over and all frames that were accepted are written. -/
  drained : w.connection.phase ≠ .serving → w.Calm → own.id ∉ w.floor.hub.roster.ids ∧
    w.connection.written = (accepted own.subscriber (occurrences past)).flatten
  /-- It has told no broadcast that it is gone. -/
  kept : own.id ∉ lost (chronicle before own past)
  unreported : ∀ call tally, .reported call tally ∈ past → own.id ∉ tally.evicted

variable {entries : List Entry} {total later earlier before : List Occurrence} {e self : Entry} {i capacity : Nat}
  {talks : Bool} {origin : Floor} {w g start now last : Wire} {new past more : List Remark}

theorem chronicle_append (before : List Occurrence) (own : Entry) (more past : List Remark) :
    chronicle before own (more ++ past) = occurrences more ++ chronicle before own past := by
  rw [chronicle, occurrences_append, List.append_assoc]
  rfl

theorem chronicle_known (entries : List Entry) (before : List Occurrence) (own : Entry) (past : List Remark) :
    own ∈ joined entries (chronicle before own past) :=
  (joined_grows _ _ _).subset (List.mem_append_right _ (List.mem_singleton_self _))

namespace Wire

/-- What was written stays in step with what was taken. -/
theorem Step.wrote (step : w.Step talks new g) (wrote : w.Wrote (received past)) :
    g.Wrote (received (new ++ past)) := by
  obtain ⟨whole, part, cut⟩ := wrote
  cases step with
  | others move foreign =>
    rw [received_foreign fun x listed => foreign x (Option.mem_toList.mp listed)]
    exact ⟨whole, part, cut⟩
  | cancel | depart | spoil | talk | ignore => exact ⟨whole, part, cut⟩
  | @take frame _ serving free =>
    have intact : w.broken = false := Bool.eq_false_iff.mpr fun broken => (cut broken).1 serving
    rw [List.singleton_append, received_cons]
    refine ⟨by simp, ?_, fun broken => absurd (intact.symm.trans broken) Bool.false_ne_true⟩
    rintro _ ⟨⟩
    exact ⟨serving, intact, received past, [], rfl, (whole free intact).trans (List.append_nil _).symm⟩
  | @write more rest writing =>
    obtain ⟨serving, intact, before, part, taken, written⟩ := part _ writing
    refine ⟨by simp, ?_, fun broken => absurd (intact.symm.trans broken) Bool.false_ne_true⟩
    rintro _ ⟨⟩
    refine ⟨serving, intact, before, part ++ more, ?_, ?_⟩
    · rw [List.append_assoc]
      exact taken
    · rw [← List.append_assoc, ← written]
  | finish writing =>
    obtain ⟨serving, intact, before, part, taken, written⟩ := part _ writing
    refine ⟨fun _ _ => ?_, by simp, fun broken => absurd (intact.symm.trans broken) Bool.false_ne_true⟩
    rw [List.nil_append, taken, written]
    simp
  | fail writing =>
    obtain ⟨_, _, lacks⟩ := part _ writing
    exact ⟨by simp, by simp, fun _ => ⟨by simp, _, lacks⟩⟩
  | quit stops free moves =>
    obtain ⟨serving, _, rfl, _⟩ := (Connection.stops_iff stops).mp moves
    refine ⟨whole, fun rest writing => ?_, fun broken => absurd serving (cut broken).1⟩
    exact absurd (free.symm.trans writing) (by simp)
  | leave moves =>
    obtain ⟨leaving, rfl, _⟩ := Connection.leave_cases moves
    have same : received ([.closed, .noticed (.removed w.connection.id)] ++ past) = received past := by
      simp [received_cons, Remark.frames]
    rw [same]
    refine ⟨whole, fun rest writing => ?_, fun broken => ⟨by simp, (cut broken).2⟩⟩
    exact absurd (leaving.symm.trans (part rest writing).1) (by simp)

theorem Run.wrote (run : start.Run talks past now) (wrote : start.Wrote []) : now.Wrote (received past) := by
  induction run with
  | start => exact wrote
  | next _ step ih => exact step.wrote ih

/-- A connection writes the rest of the frame that it writes, if it does. -/
theorem finishes (serving : now.connection.phase = .serving) : ∃ last, now.Run talks [] last ∧
    last.writing = none ∧ last.connection.phase = .serving ∧ last.floor = now.floor := by
  cases writing : now.writing with
  | none => exact ⟨now, .start, writing, serving, rfl⟩
  | some rest =>
    have written := (@Step.write talks now rest [] (writing.trans (by simp))).run
    exact ⟨_, written.next (.finish rfl), rfl, serving, rfl⟩

theorem Run.foreign (run : start.Run talks past now) (listed : .noticed (.entered e) ∈ past) :
    e.subscriber ≠ start.connection.mailbox := by
  induction run with
  | start => cases listed
  | next run step ih =>
    rcases List.mem_append.mp listed with newer | older
    · cases step with
      | others move foreign =>
        rw [← run.moves.2.1]
        exact foreign _ (Option.mem_toList.mp newer)
      | cancel | depart | spoil | talk | ignore | write | finish | fail | quit => cases newer
      | take | leave => simp at newer
    · exact ih older

theorem Stands.never (stands : w.Stands before self past) (serving : w.connection.phase = .serving) :
    .closed ∉ past :=
  fun listed => absurd (serving.symm.trans (stands.closed.mp listed)) nofun

namespace Opens

variable (opens : start.Opens origin before self capacity) (run : start.Run talks past now)

include opens

theorem wrote : start.Wrote [] where
  whole _ _ := by
    rw [opens.connection]
    rfl
  part rest writing := by
    rw [opens.calm.1] at writing
    cases writing
  cut broken := by
    rw [opens.calm.2] at broken
    cases broken

include run

theorem own : now.connection.mailbox = self.subscriber ∧ now.connection.id = self.id := by
  obtain ⟨_, mailbox, id⟩ := run.moves
  rw [opens.connection] at mailbox id
  exact ⟨mailbox, id⟩

theorem moves : start.floor.Moves self.subscriber past now.floor := by
  have moves := run.moves.1
  rw [opens.connection] at moves
  exact moves

theorem history : origin.Run (chronicle before self past) now.floor :=
  opens.earliest.trans (opens.moves run).run

theorem orderly : Orderly origin.hub.roster.entries (chronicle before self past) :=
  ((opens.history run).agrees opens.sound opens.idle).1

theorem registered_ids :
    (registeredAfter origin.hub.roster.entries (chronicle before self past)).map (·.id) =
      now.floor.hub.roster.ids :=
  congrArg _ ((opens.history run).agrees opens.sound opens.idle).2.registered

theorem stands : ∃ b, now.floor.hub.mailbox? self.subscriber = some b ∧ b.Stands self.subscriber capacity past :=
  have ⟨_, queue⟩ := opens.queue
  (opens.moves run).stands queue

/-- Nobody else is ever registered with the queue. -/
theorem single : ∀ e ∈ joined origin.hub.roster.entries (chronicle before self past),
    e.subscriber = self.subscriber → e = self := by
  intro e member same
  rcases mem_joined member with old | entered
  · rcases List.mem_append.mp old with older | itself
    · exact absurd same (opens.alone e older)
    · exact List.mem_singleton.mp itself
  · have other := run.foreign (noticed_entered entered)
    rw [opens.connection] at other
    exact absurd same other

/-- While it is not registered the subscriber is not called, does not answer and is not registered again. -/
theorem apart (gone : self.id ∉ now.floor.hub.roster.ids) (later : now.Run talks more last) :
    self.id ∉ last.floor.hub.roster.ids ∧ heard self.id (occurrences more) = [] ∧
      verdicts self.subscriber (occurrences more) = [] := by
  have whole := run.trans later
  have orderly := opens.orderly whole
  have single := opens.single whole
  rw [← opens.registered_ids run] at gone
  rw [← opens.registered_ids whole]
  rw [chronicle_append] at orderly single ⊢
  have known := chronicle_known origin.hub.roster.entries before self past
  obtain ⟨silent, still⟩ := silent_while_gone orderly (List.mem_map_of_mem known) gone
  exact ⟨still, silent, mute_while_gone orderly single known gone⟩

theorem self_of_id (member : e ∈ registeredAfter origin.hub.roster.entries (chronicle before self past))
    (same : e.id = self.id) : e = self :=
  List.inj_on_of_nodup_map (joined_nodup (opens.orderly run) opens.sound.distinct.of_append_left)
    ((registered_sublist _ _).subset member) (chronicle_known _ _ _ _) same

theorem isRegistered_iff :
    now.connection.isRegistered now.floor.hub = true ↔ self.id ∈ now.floor.hub.roster.ids := by
  have entries := ((opens.history run).agrees opens.sound opens.idle).2.registered
  rw [← opens.registered_ids run, Connection.isRegistered, ← entries, (opens.own run).1, List.any_eq_true]
  constructor
  · rintro ⟨e, member, same⟩
    obtain rfl := opens.single run e ((registered_sublist _ _).subset member) (beq_iff_eq.mp same)
    exact List.mem_map_of_mem member
  · intro listed
    obtain ⟨e, member, same⟩ := List.mem_map.mp listed
    obtain rfl := opens.self_of_id run member same
    exact ⟨e, member, beq_self_eq_true _⟩

/-- The subscriber tells no broadcast that it is gone, as its queue is open until it is registered no more. -/
theorem kept {f : Floor} {noticed : Option Remark} (stands : now.Stands before self past)
    (move : now.floor.Move self.subscriber noticed f)
    (orderly : Orderly origin.hub.roster.entries (chronicle before self (noticed.toList ++ past))) :
    self.id ∉ lost (chronicle before self (noticed.toList ++ past)) := by
  rw [chronicle_append] at orderly ⊢
  rcases noticed with _ | (_ | _ | _ | _)
  · exact stands.kept
  · rename_i x
    cases x with
    | began | ended => exact List.not_mem_nil
    | called | entered | removed => exact stands.kept
    | answered e frame answer =>
      have registered : e ∈ registeredAfter _ (chronicle before self past) := answered_registered orderly
      have other (final : answer.any (·.isFinal) = true) : self.id ≠ e.id := by
        intro same
        obtain rfl := opens.self_of_id run registered same.symm
        have here : e.id ∈ now.floor.hub.roster.ids := opens.registered_ids run ▸ List.mem_map_of_mem registered
        obtain ⟨b, queued, standing⟩ := opens.stands run
        have isOpen : b.isOpen = true :=
          standing.isOpen.mpr fun listed => stands.ended (stands.closed.mp listed) here
        rw [move.answers queued rfl] at final
        rcases b.offer_cases frame with ⟨shut, _⟩ | ⟨_, _, offers⟩ | ⟨_, _, offers⟩
        · exact absurd (isOpen.symm.trans shut) nofun
        · rw [offers] at final
          cases final
        · rw [offers] at final
          cases final
      have told : lost (.answered e frame answer :: chronicle before self past) =
          if answer.any (·.isFinal) then lost (chronicle before self past) ++ [e.id]
          else lost (chronicle before self past) := rfl
      have whole : self.id ∉ lost (.answered e frame answer :: chronicle before self past) := by
        rw [told]
        split
        · rename_i final
          simpa using ⟨stands.kept, other final⟩
        · exact stands.kept
      exact whole
  · exact List.not_mem_nil
  · exact stands.kept
  · exact stands.kept

/-- While the connection serves and its queue is empty, all frames that were accepted have been taken. -/
theorem takes_all {b : Mailbox} (stands : now.Stands before self past) (serving : now.connection.phase = .serving)
    (queued : now.floor.hub.mailbox? self.subscriber = some b) (empty : b.queue.toList = []) :
    received past = accepted self.subscriber (occurrences past) := by
  obtain ⟨_, same, standing⟩ := opens.stands run
  cases queued.symm.trans same
  rw [← standing.kept (standing.isOpen.mpr (stands.never serving)), empty, List.append_nil]

theorem stands_others {f : Floor} {noticed : Option Remark} (stands : now.Stands before self past)
    (move : now.floor.Move now.connection.mailbox noticed f)
    (foreign : ∀ x ∈ noticed, x.IsForeign now.connection.mailbox) :
    Stands before self (noticed.toList ++ past) { now with floor := f } := by
  have later := (@Step.others talks now noticed f move foreign).run
  have orderly := opens.orderly (run.trans later)
  rw [(opens.own run).1] at move
  refine ⟨?_, fun ended => (opens.apart run (stands.ended ended) later).1, fun left calm => ?_,
    opens.kept run stands move orderly, fun call tally listed => ?_⟩
  · rw [← stands.closed, List.mem_append, or_iff_right]
    exact fun listed => foreign _ (Option.mem_toList.mp listed)
  · obtain ⟨gone, written⟩ := stands.drained left ⟨calm.1, calm.2, calm.3, calm.4⟩
    obtain ⟨still, _, mute⟩ := opens.apart run gone later
    exact ⟨still, written.trans (congrArg _ (accepted_mute mute).symm)⟩
  · rcases List.mem_append.mp listed with newer | older
    · cases Option.mem_toList.mp newer
      have evicts : tally.evicted = lost (chronicle before self past) := orderly.1.2.2
      exact evicts ▸ stands.kept
    · exact stands.unreported call tally older

/-- In calm a connection that stops to serve has found its queue empty and not registered any more. -/
theorem drained_quit {move : ConnectionMove} (stands : now.Stands before self past) (stops : move.stops = true)
    (free : now.writing = none) (serving : now.connection.phase = .serving)
    (may : now.connection.MayStop now.floor.hub now.stopping move) (calm : now.Calm) :
    self.id ∉ now.floor.hub.roster.ids ∧
      now.connection.written = (accepted self.subscriber (occurrences past)).flatten := by
  cases move with
  | relay | relayFails | ignore | leave => cases stops
  | stop => exact absurd (calm.stopping.symm.trans may) nofun
  | hangUp => exact absurd (calm.peerGone.symm.trans may.2) nofun
  | readFails => exact absurd (calm.readFails.symm.trans may) nofun
  | evicted =>
    obtain ⟨empty, unregistered⟩ := may
    obtain ⟨b, queued, _⟩ := opens.stands run
    rw [(opens.own run).1, queued] at empty
    refine ⟨fun listed => ?_, ?_⟩
    · exact absurd (((opens.isRegistered_iff run).mpr listed).symm.trans unregistered) nofun
    · rw [← opens.takes_all run stands serving queued (by simpa using empty)]
      exact (run.wrote opens.wrote).whole free calm.broken

theorem stands_leave {d : Connection} {after : Hub} (stands : now.Stands before self past)
    (moves : now.connection.move? now.floor.hub now.floor.turns now.stopping .leave = some (d, after)) :
    Stands before self ([.closed, .noticed (.removed now.connection.id)] ++ past)
      { now with floor := { now.floor with hub := after }, connection := d } := by
  obtain ⟨leaving, rfl, removed, left, removes, rfl⟩ := Connection.leave_cases moves
  have gone : self.id ∉ (left.closeMailbox now.connection.mailbox).roster.ids := by
    rw [(Hub.closeMailbox_alike _ _).1, (Turns.remove_eq removes).2, (opens.own run).2]
    simp [Hub.remove, Roster.remove, Roster.ids]
  have resigned : now.connection.phase ≠ .serving := fun serving => absurd (leaving.symm.trans serving) (by simp)
  refine ⟨⟨fun _ => rfl, fun _ => List.mem_cons_self ..⟩, fun _ => gone, fun _ calm => ⟨gone, ?_⟩, ?_,
    by simpa using stands.unreported⟩
  · have written := (stands.drained resigned ⟨calm.1, calm.2, calm.3, calm.4⟩).2
    exact written.trans (congrArg _ (accepted_mute rfl).symm)
  · rw [chronicle_append]
    exact stands.kept

theorem stands_next (stands : now.Stands before self past) (step : now.Step talks new g) :
    g.Stands before self (new ++ past) := by
  have wrote := run.wrote opens.wrote
  have ⟨closed, ended, drained, kept, unreported⟩ := stands
  cases step with
  | others move foreign => exact opens.stands_others run stands move foreign
  | cancel => exact ⟨closed, ended, fun _ calm => (nomatch calm.stopping), kept, unreported⟩
  | depart => exact ⟨closed, ended, fun _ calm => (nomatch calm.peerGone), kept, unreported⟩
  | spoil => exact ⟨closed, ended, fun _ calm => (nomatch calm.readFails), kept, unreported⟩
  | talk | ignore | finish =>
    exact ⟨closed, ended, fun left calm => drained left ⟨calm.1, calm.2, calm.3, calm.4⟩, kept, unreported⟩
  | take serving =>
    refine ⟨by simpa using closed, fun ended => absurd (serving.symm.trans ended) nofun,
      fun left _ => absurd serving left, kept, by simpa using unreported⟩
  | write writing =>
    have serving := (wrote.part _ writing).1
    exact ⟨closed, ended, fun left _ => absurd serving left, kept, unreported⟩
  | fail writing =>
    have never := stands.never (wrote.part _ writing).1
    exact ⟨⟨fun listed => absurd listed never, nofun⟩, nofun, fun _ calm => (nomatch calm.broken), kept, unreported⟩
  | quit stops free moves =>
    obtain ⟨serving, may, rfl, _⟩ := (Connection.stops_iff stops).mp moves
    have never := stands.never serving
    have all := opens.drained_quit run stands stops free serving may
    exact ⟨⟨fun listed => absurd listed never, nofun⟩, nofun, fun _ calm => all ⟨calm.1, calm.2, calm.3, calm.4⟩,
      kept, unreported⟩
  | leave moves => exact opens.stands_leave run stands moves

omit run in
theorem stands_first : start.Stands before self [] := by
  have serving : start.connection.phase = .serving := by rw [opens.connection]
  have orderly := opens.orderly (@Run.start true start)
  refine ⟨⟨nofun, fun ended => absurd (serving.symm.trans ended) nofun⟩,
    fun ended => absurd (serving.symm.trans ended) nofun, fun left _ => absurd serving left, fun told => ?_, nofun⟩
  -- Its number was never registered before.
  exact orderly.1.2 (lost_joined orderly.2 told)

theorem stands_run : now.Stands before self past := by
  induction run with
  | start => exact opens.stands_first
  | next run step ih => exact opens.stands_next run ih step

/-- A connection that has ended writes nothing more. -/
theorem ended_rests (ended : now.connection.phase = .ended) (later : now.Run talks more last) :
    last.connection.phase = .ended ∧ last.connection.written = now.connection.written := by
  induction later with
  | start => exact ⟨ended, rfl⟩
  | next later step ih =>
    obtain ⟨still, same⟩ := ih
    have wrote := (run.trans later).wrote opens.wrote
    cases step with
    | others | cancel | depart | spoil | talk => exact ⟨still, same⟩
    | ignore _ serving | take serving => exact absurd (still.symm.trans serving) nofun
    | write writing | finish writing | fail writing =>
      exact absurd (still.symm.trans (wrote.part _ writing).1) nofun
    | quit stops _ moves => exact absurd (still.symm.trans ((Connection.stops_iff stops).mp moves).1) nofun
    | leave moves => exact absurd (still.symm.trans (Connection.leave_cases moves).1) nofun

/-- A broadcast that begins when the subscriber is not registered gets no answer from it. -/
theorem report_apart {later during earlier : List Remark} {call : Call} {tally : Tally}
    (gone : self.id ∉ now.floor.hub.roster.ids) (further : now.Run talks more last)
    (parts : more = later ++ .reported call tally :: (during ++ .noticed (.began call) :: earlier))
    (lasts : ∀ c t, .reported c t ∉ during) :
    ∃ answers, tally = .of answers ∧ self.id ∉ answers.map (·.1.id) := by
  have moves := further.moves.1
  rw [(opens.own run).1] at moves
  obtain ⟨f, g, moves, ends⟩ := moves.split parts
  obtain ⟨counts, ended⟩ := moves.reported (opens.history run) opens.idle ends
  have orderly := (ended.agrees opens.sound opens.idle).1
  have listeners := (pass_calls orderly.2 (Floor.not_ended lasts moves)).2.1
  rw [← opens.registered_ids run] at gone
  have known := List.mem_map_of_mem (f := Entry.id) (chronicle_known origin.hub.roster.entries before self past)
  have still := (silent_while_gone orderly.2.of_append.2 known gone).2
  refine ⟨_, counts, fun listed => still ?_⟩
  rw [← listeners, ← replies_settled orderly.2 orderly.1.1, List.map_map]
  exact listed

/-- A connection that is not registered any more stops when its queue is empty. -/
theorem drains_empty {b : Mailbox} (serving : now.connection.phase = .serving) (free : now.writing = none)
    (gone : self.id ∉ now.floor.hub.roster.ids) (queued : now.floor.hub.mailbox? self.subscriber = some b)
    (empty : b.queue.toList = []) : ∃ last, now.Run talks [] last ∧ last.connection.phase = .leaving ∧
      last.connection.written = (accepted self.subscriber (occurrences past)).flatten := by
  have wrote := run.wrote opens.wrote
  have intact : now.broken = false := Bool.eq_false_iff.mpr fun broken => (wrote.cut broken).1 serving
  have unregistered : now.connection.isRegistered now.floor.hub = false :=
    Bool.eq_false_iff.mpr fun listed => gone ((opens.isRegistered_iff run).mp listed)
  have may : now.connection.MayStop now.floor.hub now.stopping .evicted :=
    ⟨by simp [(opens.own run).1, queued, Array.toList_eq_nil_iff.mp empty], unregistered⟩
  refine ⟨_, (@Step.quit talks now .evicted _ _ rfl free
    ((Connection.stops_iff rfl).mpr ⟨serving, may, rfl, rfl⟩)).run, rfl, ?_⟩
  rw [← opens.takes_all run (opens.stands_run run) serving queued empty]
  exact wrote.whole free intact

/-- As long as it serves, a connection that is not registered any more can write all that its queue holds,
and then it stops. -/
theorem drains {b : Mailbox} {frames : List Bytes} (serving : now.connection.phase = .serving)
    (gone : self.id ∉ now.floor.hub.roster.ids) (queued : now.floor.hub.mailbox? self.subscriber = some b)
    (held : b.queue.toList = frames) : ∃ more last, now.Run talks more last ∧ occurrences more = [] ∧
      last.connection.phase = .leaving ∧
      last.connection.written = (accepted self.subscriber (occurrences past)).flatten := by
  induction frames generalizing now past b with
  | nil =>
    obtain ⟨w, finishes, free, serves, same⟩ := @finishes talks now serving
    obtain ⟨last, stops, leaving, written⟩ := opens.drains_empty (run.trans finishes) serves free
      (same ▸ gone) (same ▸ queued) held
    exact ⟨_, last, finishes.trans stops, rfl, leaving, written⟩
  | cons frame frames ih =>
    obtain ⟨w, finishes, free, serves, same⟩ := @finishes talks now serving
    obtain ⟨after, receives, kept, alike⟩ := Hub.receive_first (same ▸ queued) held
    rw [← (opens.own (run.trans finishes)).1] at receives
    have taken := finishes.next (.take serves free receives)
    have stillGone : self.id ∉ after.roster.ids := by
      rw [alike.1]
      exact same ▸ gone
    obtain ⟨more, last, later, quiet, leaving, written⟩ := ih (run.trans taken) serves stillGone kept rfl
    refine ⟨_, last, taken.trans later, ?_, leaving, written⟩
    rw [occurrences_append, quiet]
    rfl

end Opens

end Wire

namespace Service

variable {s next after : Service}

/-- No connection reads the queue of the subscriber with index `i`. -/
def Unread (i : Nat) (s : Service) : Prop :=
  ∀ (j : Nat) (c : Connection), s.connections[j]? = some c → c.mailbox ≠ i

/-- As long as no connection reads the queue, whatever happens is the doing of others, and none reads it. -/
def LeavesUnread (i : Nat) (s after : Service) : Prop :=
  s.Unread i → Floor.Drifts i s.turns s.hub after.turns after.hub ∧ after.Unread i

theorem Drifts.leavesUnread (drifts : s.Drifts i next) : s.LeavesUnread i next := by
  intro unread
  refine ⟨drifts.floor, fun j c found => unread j c ?_⟩
  rw [← drifts.connections]
  exact found

theorem step_leavesUnread {action : Action} (steps : s.step? action = some next) : s.LeavesUnread i next := by
  rcases step_drifts steps with drifts | ⟨j, c, d, hub, move, known, moves, rfl⟩
  · exact drifts.leavesUnread
  · intro unread
    refine ⟨Floor.move_drifts (unread j c known) moves, fun k e found => ?_⟩
    obtain ⟨before, there, same⟩ := set_mailbox known (Connection.move_mailbox moves) found
    exact same ▸ unread k before there

theorem leavesUnread_habit : Habit i (LeavesUnread i) where
  course := {
    refl := fun s => (Drifts.refl s).leavesUnread
    trans := by
      intro s t u first second unread
      obtain ⟨drifts, still⟩ := first unread
      obtain ⟨further, after⟩ := second still
      exact ⟨drifts.trans further, after⟩
    step := step_leavesUnread
    clock := fun s time => (s.clock_drifts time).leavesUnread }
  drift := Drifts.leavesUnread

/-- A peer that connects opens a connection. -/
theorem connect_opens {joining : List SubscriberId} {fuel index : Nat} {name : String} (sound : origin.Sound)
    (idle : origin.turns.pass = none) (earliest : origin.Run earlier ⟨s.turns, s.hub, joining⟩)
    (known : ∀ e ∈ joined origin.hub.roster.entries earlier, e.subscriber < s.hub.subscribers.size)
    (reads : ∀ (j : Nat) (c : Connection), s.connections[j]? = some c → c.mailbox < s.hub.subscribers.size)
    (done : (connect fuel name).run s = some (index, after)) :
    ∃ before self c, after.Owns index self.subscriber c ∧
      (after.wire joining c false).Opens origin before self s.feed.config.queueRoom := by
  unfold connect at done
  simp only [StateT.run_bind, StateT.run_get, Option.pure_def, Option.bind_eq_bind, Option.bind_some] at done
  obtain ⟨⟨mailbox, introduced⟩, introduces, rest⟩ := Option.bind_eq_some_iff.mp done
  obtain ⟨⟨id, registered⟩, registers, same⟩ := Option.bind_eq_some_iff.mp rest
  cases introduces
  cases same
  obtain ⟨middle, hub, rfl, waits, entering, rfl⟩ := register_awaits registers
  let mailbox : Nat := s.hub.subscribers.size
  let fresh : Hub := (s.hub.introduce (.mailbox (.ofCapacity name s.feed.config.queueRoom))).2
  have queued : fresh.reserve.2.mailbox? mailbox = some (.ofCapacity name s.feed.config.queueRoom) :=
    Hub.mailbox_eq_some_iff.mpr Array.getElem?_push_size
  obtain ⟨drifts, unread⟩ := leavesUnread_habit.course.runUntil waits fun j c found => (reads j c found).ne
  -- Until the broadcasts allow the registration its number is one of those still to come.
  obtain ⟨past, moves, foreign⟩ := drifts (fresh.reserve.1 :: joining)
  have introduced : Floor.Step ⟨s.turns, s.hub, joining⟩ none ⟨s.turns, fresh, joining⟩ := .aside rfl rfl
  have run := ((earliest.next introduced).next .reserve).trans moves.run
  have unknown : ∀ e ∈ joined origin.hub.roster.entries (occurrences past ++ earlier),
      e.subscriber ≠ mailbox := by
    intro e member
    rcases mem_joined member with old | entered
    · exact (known e old).ne
    · exact foreign _ (noticed_entered entered)
  have mute : verdicts mailbox (occurrences past) = [] := by
    have all := mute_of_unknown (run.agrees sound idle).1 unknown
    rw [verdicts_append] at all
    exact (List.append_eq_nil_iff.mp all).2
  obtain ⟨b, reads, standing⟩ := moves.stands queued
  obtain ⟨_, rfl⟩ := Turns.enter_eq entering
  refine ⟨occurrences past ++ earlier, ⟨fresh.reserve.1, mailbox⟩, { mailbox, id := fresh.reserve.1 }, ?_, ?_⟩
  · refine ⟨Array.getElem?_push_size, rfl, fun j d found own => ?_⟩
    rw [Array.getElem?_push] at found
    split at found
    · assumption
    · exact absurd own (unread j d found)
  · have entered := run.next (.enter (List.mem_cons_self ..) entering)
    rw [List.erase_cons_head] at entered
    exact {
      sound
      idle
      earliest := entered
      alone := unknown
      queue := ⟨b.name, (standing.untouched foreign mute) ▸ reads⟩
      connection := rfl
      calm := ⟨rfl, rfl⟩ }

end Service

namespace Wire

/-- A connection whose registration is entered writes the frames that its queue takes, in their order, and
only a prefix of them, of which the last one may lack its end: while it is being written, or when it could not
be, and then the connection serves no longer. What the peer sends changes nothing: without it the same is
written, and the same happens to the registrations. If the connection stops in calm, its registration was over
and it has written all that the queue took; as long as it serves it can do so when its registration is over.
When it has ended it is not registered, nothing more is written, and it is neither called by a later broadcast
nor counted in its report; and no report ever lists it as evicted. This is how a connection of a service goes
on, whatever that does or has to do, and how one begins when a peer connects to it. -/
theorem connection_relays_its_queue (opens : start.Opens origin before self capacity)
    (run : start.Run true past now) :
    let frames := accepted self.subscriber (occurrences past)
    (received past <+: frames ∧ now.Wrote (received past)) ∧ start.hushed.Run false past now.hushed ∧
    (now.connection.phase ≠ .serving → now.Calm →
      self.id ∉ now.floor.hub.roster.ids ∧ now.connection.written = frames.flatten) ∧
    (now.connection.phase = .serving → self.id ∉ now.floor.hub.roster.ids →
      ∃ more last, now.Run true more last ∧ occurrences more = [] ∧ last.connection.phase = .leaving ∧
        last.connection.written = frames.flatten) ∧
    (now.connection.phase = .ended → self.id ∉ now.floor.hub.roster.ids ∧
      ∀ more last, now.Run true more last → last.connection.phase = .ended ∧
        last.connection.written = now.connection.written ∧ self.id ∉ last.floor.hub.roster.ids ∧
        heard self.id (occurrences more) = [] ∧ verdicts self.subscriber (occurrences more) = [] ∧
        ∀ later call tally during earlier,
          more = later ++ .reported call tally :: (during ++ .noticed (.began call) :: earlier) →
          (∀ c t, .reported c t ∉ during) →
          ∃ answers, tally = .of answers ∧ self.id ∉ answers.map (·.1.id)) ∧
    (now.connection.phase = .leaving → now.floor.turns.isDelivering = false →
      ∃ last, now.Step true [.closed, .noticed (.removed self.id)] last ∧ last.connection.phase = .ended) ∧
    (∀ call tally, .reported call tally ∈ past → self.id ∉ tally.evicted) ∧
    (∀ index i s t, ((∃ action, Service.step? s action = some t) ∨
      (∃ errand reply, Errand.IsForeign i errand ∧ s.Does errand reply t) ∨
      ∃ j f, (∀ w : Wire, w.Step true [] { w with connection := f w.connection }) ∧
        (Service.onConnection j f).run s = some ((), t)) → s.Carries index i t) ∧
    ∀ (floor : Floor) known joining (s t : Service) fuel name index, floor.Sound → floor.turns.pass = none →
      floor.Run known ⟨s.turns, s.hub, joining⟩ →
      (∀ e ∈ joined floor.hub.roster.entries known, e.subscriber < s.hub.subscribers.size) →
      (∀ (j : Nat) (c : Connection), s.connections[j]? = some c → c.mailbox < s.hub.subscribers.size) →
      (Service.connect fuel name).run s = some (index, t) →
      ∃ earlier self c, t.Owns index self.subscriber c ∧
        (t.wire joining c false).Opens floor earlier self s.feed.config.queueRoom := by
  intro frames
  have stands := opens.stands_run run
  obtain ⟨b, queued, standing⟩ := opens.stands run
  refine ⟨⟨?_, run.wrote opens.wrote⟩, run.hushed, stands.drained, fun serving gone => ?_, fun ended => ?_,
    fun leaving free => ?_, stands.unreported, ?_,
    fun _ _ _ _ _ _ _ _ sound idle earliest known reads done =>
      Service.connect_opens sound idle earliest known reads done⟩
  · cases isOpen : b.isOpen with
    | true => exact ⟨_, standing.kept isOpen⟩
    | false => exact (standing.discarded isOpen).2
  · exact opens.drains run serving gone queued rfl
  · have gone := stands.ended ended
    refine ⟨gone, fun more last later => ?_⟩
    obtain ⟨still, same⟩ := opens.ended_rests run ended later
    obtain ⟨away, silent, mute⟩ := opens.apart run gone later
    refine ⟨still, same, away, silent, mute, fun _ _ _ _ _ parts lasts => ?_⟩
    exact opens.report_apart run gone later parts lasts
  · obtain ⟨d, after, moves, ended⟩ := Connection.leaves now.floor.hub now.stopping leaving free
    rw [← (opens.own run).2]
    exact ⟨_, .leave moves, ended⟩
  · rintro index i s t (⟨action, steps⟩ | ⟨errand, reply, foreign, does⟩ | ⟨j, f, steps, changes⟩)
    · exact Service.step_carries steps
    · exact Service.does_carries foreign does
    · exact Service.onConnection_carries steps j _ _ _ changes

/-- A connection is about to write its second frame when its registration ends from outside, while its peer
talks. It writes both frames and ends. -/
theorem removed_connection_writes_the_rest :
    let self : Entry := ⟨⟨1⟩, 0⟩
    let peer : Hub := { subscribers := #[.mailbox (.ofCapacity "peer" 2)] }
    let start : Wire :=
      { floor := ⟨{}, { peer with roster := ⟨[self], 2⟩ }, []⟩, connection := { mailbox := 0, id := ⟨1⟩ } }
    let call (text : String) : Call := ⟨.operator, .raw text⟩
    let frame (text : String) : Bytes := Frame.encode (call text).message
    ∃ past now, start.Opens ⟨{}, peer, []⟩ [] self 2 ∧ start.Run true past now ∧
      now.connection.phase = .ended ∧ now.Calm ∧ now.connection.written = frame "a" ++ frame "b" ∧
      received past = [frame "a", frame "b"] ∧ start.hushed.Run false past now.hushed ∧
      self.id ∉ now.floor.hub.roster.ids := by
  intro self peer start call frame
  let hub (queue : Array Bytes) (entries : List Entry) (given : List String) : Hub :=
    { subscribers := #[.mailbox ⟨"peer", 2, queue, true⟩], roster := ⟨entries, 2⟩
      journal := ⟨given.map fun text => ⟨0, 0, frame text⟩⟩ }
  have opens : start.Opens ⟨{}, peer, []⟩ [] self 2 := {
    sound := Floor.sound_ofCount (show peer.roster = .ofCount 0 from rfl)
    idle := rfl
    earliest := (Floor.Run.start.next .reserve).next (.enter (.head _) rfl)
    alone := nofun
    queue := ⟨_, rfl⟩
    connection := rfl
    calm := ⟨rfl, rfl⟩ }
  let wire (hub : Hub) (unread : Nat) (written : Bytes) (writing : Option Bytes) : Wire :=
    { floor := ⟨{}, hub, []⟩, connection := { mailbox := 0, id := ⟨1⟩, unread, written }, writing }
  have first := @Floor.single_pass 0 none (hub #[] [self] []) (hub #[frame "a"] [self] ["a"]) self (call "a")
    { delivered := 1 } rfl rfl rfl
  have second := @Floor.single_pass 0 none (hub #[] [self] ["a"]) (hub #[frame "b"] [self] ["a", "b"]) self
    (call "b") { delivered := 1 } rfl rfl rfl
  have foreign {call : Call} {tally : Tally} {e : Entry} {frame : Bytes} : ∀ x ∈ ([.reported call tally,
      .noticed (.answered e frame none), .noticed (.called e frame), .noticed (.began call)] : List Remark),
      x.IsForeign 0 := by simp [Remark.IsForeign]
  have run : start.Run true _ (wire (hub #[frame "a"] [self] ["a"]) 0 [] none) :=
    @Run.others true start _ _ first foreign
  have run : start.Run true _ (wire (hub #[] [self] ["a"]) 3 ((frame "a").take 2) (some ((frame "a").drop 2))) :=
    ((run.next (.talk 3 rfl)).next (@Step.take true (wire _ 3 [] none) (frame "a") _ rfl rfl rfl)).next
      (@Step.write true (wire _ 3 [] _) ((frame "a").take 2) ((frame "a").drop 2) (by simp [wire]))
  have removes := @Floor.Step.remove {} (hub #[frame "b"] [self] ["a", "b"]) [] ⟨1⟩ true
    (hub #[frame "b"] [] ["a", "b"]) rfl
  have removed := @Step.others true (wire (hub #[frame "b"] [self] ["a", "b"]) 3 ((frame "a").take 2)
    (some ((frame "a").drop 2))) _ _ (.notice removes nofun) (by simp [Remark.IsForeign])
  have run := (run.trans (@Run.others true (wire _ 3 _ _) _ _ second foreign)).next removed
  let sent : Bytes := (frame "a").take 2 ++ (frame "a").drop 2 ++ frame "b"
  have run : start.Run true _ (wire (hub #[] [] ["a", "b"]) 3 sent none) :=
    ((((run.next (@Step.write true (wire _ 3 _ _) ((frame "a").drop 2) [] (by simp [wire]))).next
      (.finish rfl)).next
      (@Step.take true (wire _ 3 _ none) (frame "b") _ rfl rfl rfl)).next
      (@Step.write true (wire _ 3 _ _) (frame "b") [] (by simp [wire]))).next (.finish rfl)
  have run := ((run.next (.ignore 3 rfl rfl (by decide) le_rfl)).next
    (@Step.quit true (wire (hub #[] [] ["a", "b"]) 0 sent none) .evicted _ _ rfl rfl rfl)).next (.leave rfl)
  obtain ⟨_, hushed, drained, _, ended, _⟩ := connection_relays_its_queue opens run
  obtain ⟨gone, written⟩ := drained nofun ⟨rfl, rfl, rfl, rfl⟩
  have both := written.trans (congrArg (frame "a" ++ ·) (List.append_nil (frame "b")))
  exact ⟨_, _, opens, run, rfl, ⟨rfl, rfl, rfl, rfl⟩, both, rfl, hushed, gone⟩

end Wire

end LiveTiming
