import LiveTiming.Proofs.ServiceFloor

namespace LiveTiming

/-- Whether a connection that makes the move stops to serve its peer, without a frame in its hands. -/
def ConnectionMove.stops : ConnectionMove → Bool
  | .stop | .evicted | .hangUp | .readFails => true
  | .relay | .relayFails _ | .ignore | .leave => false

/-- A connection at work, among the broadcasts and everybody else: whether the feed stops, what is left of
the frame that is being written to the peer, and whether a frame could not be written to its end. -/
structure Wire where
  floor : Floor
  connection : Connection
  stopping : Bool := false
  writing : Option Bytes := none
  broken : Bool := false

/-- A step at a connection, and what is noticed at its queue. The others take any steps of theirs, the
feed is told to stop, the peer leaves or cannot be read, and it sends bytes if it talks. The connection
takes a frame, writes it in as many parts as it takes, or fails to; then it does whatever else it can, of
which it may choose any. -/
inductive Wire.Step (talks : Bool) : Wire → List Remark → Wire → Prop
  | others {w new g} : w.floor.Move w.connection.mailbox new g →
      (∀ x ∈ new, x.IsForeign w.connection.mailbox) → Step talks w new.toList { w with floor := g }
  | cancel {w} : Step talks w [] { w with stopping := true }
  | depart {w} : Step talks w [] { w with connection := { w.connection with peerGone := true } }
  | spoil {w} : Step talks w [] { w with connection := { w.connection with readFails := true } }
  | talk {w} (count : Nat) : talks = true →
      Step talks w [] { w with connection := { w.connection with unread := w.connection.unread + count } }
  | ignore {w} (count : Nat) : w.connection.phase = .serving → w.writing = none → 0 < count →
      count ≤ w.connection.unread →
      Step talks w [] { w with connection := { w.connection with unread := w.connection.unread - count } }
  | take {w frame after} : w.connection.phase = .serving → w.writing = none →
      w.floor.hub.receive w.connection.mailbox 1 = ([frame], after) →
      Step talks w [.received [frame]] { w with floor := { w.floor with hub := after }, writing := some frame }
  | write {w part rest} : w.writing = some (part ++ rest) →
      Step talks w [] { w with
        connection := { w.connection with written := w.connection.written ++ part }, writing := some rest }
  | finish {w} : w.writing = some [] → Step talks w [] { w with writing := none }
  | fail {w rest} : w.writing = some rest →
      Step talks w [] { w with
        connection := { w.connection with phase := .leaving }, writing := none, broken := true }
  | quit {w move d after} : move.stops = true → w.writing = none →
      w.connection.move? w.floor.hub w.floor.turns w.stopping move = some (d, after) →
      Step talks w [] { w with connection := d }
  | leave {w d after} : w.connection.move? w.floor.hub w.floor.turns w.stopping .leave = some (d, after) →
      Step talks w [.closed, .noticed (.removed w.connection.id)]
        { w with floor := { w.floor with hub := after }, connection := d }

/-- Any number of steps, with what was noticed in them, the latest first. -/
inductive Wire.Run (talks : Bool) (start : Wire) : List Remark → Wire → Prop
  | start : Run talks start [] start
  | next {past w new g} : Run talks start past w → Step talks w new g → Run talks start (new ++ past) g

/-- Whether an errand is not done in the name of the reader of the queue of the subscriber with index `i`. -/
def Errand.IsForeign (i : Nat) : Errand → Prop
  | .register j | .receive j _ | .close j => j ≠ i
  | _ => True

/-- The same without what the peer has sent. -/
def Wire.hushed (w : Wire) : Wire :=
  { w with connection := { w.connection with unread := 0 } }

/-- What makes a connection stop to serve with a move: the feed stops, the queue is empty and not
registered any more, or the peer is gone, with nothing left to read, or cannot be read. -/
def Connection.MayStop (c : Connection) (h : Hub) (stopping : Bool) : ConnectionMove → Prop
  | .stop => stopping = true
  | .evicted => (h.mailbox? c.mailbox).all (·.queue.isEmpty) = true ∧ c.isRegistered h = false
  | .hangUp => c.unread = 0 ∧ c.peerGone = true
  | .readFails => c.readFails = true
  | .relay | .relayFails _ | .ignore | .leave => False

namespace Service

/-- The connection as it is at a service, when it does not write. -/
def wire (s : Service) (joining : List SubscriberId) (c : Connection) (broken : Bool) : Wire :=
  { floor := ⟨s.turns, s.hub, joining⟩, connection := c, stopping := s.feed.stopping, broken }

/-- The connection with an index reads the queue of the subscriber with index `i`, and no other does. -/
structure Owns (index i : Nat) (s : Service) (c : Connection) : Prop where
  known : s.connections[index]? = some c
  mailbox : c.mailbox = i
  alone : ∀ j d, s.connections[j]? = some d → d.mailbox = i → j = index

/-- From one service to the other the connection that reads a queue takes steps, as do all others. -/
def Carries (index i : Nat) (s after : Service) : Prop :=
  ∀ c, s.Owns index i c → ∃ d, after.Owns index i d ∧ ∀ joining broken, ∃ past stillBroken,
    (s.wire joining c broken).Run true past (after.wire joining d stillBroken)

end Service

variable {c d : Connection} {h after : Hub} {t : Turns} {stopping talks : Bool} {move : ConnectionMove}
  {w g k start now : Wire} {new past more : List Remark}

theorem Hub.receive_one {i : Nat} {frame : Bytes} {frames : List Bytes}
    (received : h.receive i 1 = (frame :: frames, after)) : frames = [] := by
  unfold receive at received
  split at received
  · cases received
  · rename_i b _
    have few : (b.receive 1).1.length ≤ 1 := by simp [Mailbox.receive]
    rw [(Prod.ext_iff.mp received).1] at few
    exact List.length_eq_zero_iff.mp (Nat.le_zero.mp (Nat.le_of_succ_le_succ few))

namespace Connection

theorem stops_iff (stops : move.stops = true) : c.move? h t stopping move = some (d, after) ↔
    c.phase = .serving ∧ c.MayStop h stopping move ∧ { c with phase := .leaving } = d ∧ h = after := by
  cases phase : c.phase with
  | ended => simp [move?, phase]
  | leaving =>
    cases move with
    | leave => cases stops
    | stop | relay | relayFails | evicted | ignore | hangUp | readFails => simp [move?, phase]
  | serving =>
    cases move with
    | relay | relayFails | ignore | leave => cases stops
    | stop | evicted | hangUp | readFails => simp [move?, phase, MayStop]

theorem leave_cases (moves : c.move? h t stopping .leave = some (d, after)) :
    c.phase = .leaving ∧ d = { c with phase := .ended } ∧
      ∃ removed left, t.remove? h c.id = some (removed, left) ∧ after = left.closeMailbox c.mailbox := by
  unfold move? at moves
  split at moves
  · cases moves
  · rename_i leaving
    obtain ⟨⟨removed, left⟩, removes, same⟩ := Option.map_eq_some_iff.mp moves
    cases same
    exact ⟨leaving, rfl, removed, left, removes, rfl⟩
  · cases moves

/-- A connection that is about to end its registration can, unless a broadcast is on its way. -/
theorem leaves (h : Hub) (stopping : Bool) (leaving : c.phase = .leaving)
    (free : t.isDelivering = false) :
    ∃ d after, c.move? h t stopping .leave = some (d, after) ∧ d.phase = .ended := by
  simp [move?, leaving, Turns.remove?, free]

/-- A frame that a connection takes is written to its end, or it could not be. -/
theorem relay_cases (moves : c.move? h t stopping .relay = some (d, after)) : c.phase = .serving ∧
    ∃ frame, h.receive c.mailbox 1 = ([frame], after) ∧ d = { c with written := c.written ++ frame } := by
  unfold move? at moves
  split at moves
  · cases moves
  · cases moves
  · rename_i serving
    dsimp only at moves
    split at moves
    · rename_i frame more hub received
      cases moves
      cases Hub.receive_one received
      exact ⟨serving, frame, received, rfl⟩
    · cases moves

theorem relayFails_cases {count : Nat} (moves : c.move? h t stopping (.relayFails count) = some (d, after)) :
    c.phase = .serving ∧ ∃ frame, h.receive c.mailbox 1 = ([frame], after) ∧
      d = { c with phase := .leaving, written := c.written ++ frame.take count } := by
  unfold move? at moves
  split at moves
  · cases moves
  · cases moves
  · rename_i serving
    dsimp only at moves
    split at moves
    · rename_i frame more hub received
      cases moves
      cases Hub.receive_one received
      exact ⟨serving, frame, received, rfl⟩
    · cases moves

theorem ignore_cases (moves : c.move? h t stopping .ignore = some (d, after)) :
    c.phase = .serving ∧ 0 < c.unread ∧ d = { c with unread := 0 } ∧ after = h := by
  unfold move? at moves
  split at moves
  · cases moves
  · cases moves
  · rename_i serving
    obtain ⟨something, same⟩ := Option.ite_none_right_eq_some.mp moves
    cases same
    exact ⟨serving, something, rfl, rfl⟩

theorem move_mailbox (moves : c.move? h t stopping move = some (d, after)) : d.mailbox = c.mailbox := by
  cases move with
  | stop | evicted | hangUp | readFails =>
    obtain ⟨_, _, rfl, _⟩ := (stops_iff rfl).mp moves
    rfl
  | leave =>
    obtain ⟨_, rfl, _⟩ := leave_cases moves
    rfl
  | ignore =>
    obtain ⟨_, _, rfl, _⟩ := ignore_cases moves
    rfl
  | relay =>
    obtain ⟨_, _, _, rfl⟩ := relay_cases moves
    rfl
  | relayFails =>
    obtain ⟨_, _, _, rfl⟩ := relayFails_cases moves
    rfl

end Connection

namespace Wire

theorem Step.run (step : w.Step talks new g) : w.Run talks new g := by
  simpa using Run.start.next step

theorem Run.trans (run : w.Run talks past g) (later : g.Run talks more k) : w.Run talks (more ++ past) k := by
  induction later with
  | start => exact run
  | next _ step ih =>
    rw [List.append_assoc]
    exact ih.next step

/-- What happens at a connection is seen as steps from its queue. -/
theorem Step.moves (step : w.Step talks new g) : w.floor.Moves w.connection.mailbox new g.floor ∧
    g.connection.mailbox = w.connection.mailbox ∧ g.connection.id = w.connection.id := by
  cases step with
  | others move => exact ⟨move.moves, rfl, rfl⟩
  | cancel | depart | spoil | talk | ignore | write | finish | fail => exact ⟨.start, rfl, rfl⟩
  | take _ _ receives =>
    have move := @Floor.Move.receive w.connection.mailbox w.floor.turns w.floor.hub w.floor.joining 1
    rw [receives] at move
    exact ⟨move.moves, rfl, rfl⟩
  | quit stops _ moves =>
    obtain ⟨_, _, rfl, _⟩ := (Connection.stops_iff stops).mp moves
    exact ⟨.start, rfl, rfl⟩
  | leave moves =>
    obtain ⟨_, rfl, _, _, removes, rfl⟩ := Connection.leave_cases moves
    have removed : Floor.Move w.connection.mailbox w.floor _ _ := .notice (.remove removes) nofun
    exact ⟨removed.moves.next .close, rfl, rfl⟩

theorem Run.moves (run : start.Run talks past now) : start.floor.Moves start.connection.mailbox past now.floor ∧
    now.connection.mailbox = start.connection.mailbox ∧ now.connection.id = start.connection.id := by
  induction run with
  | start => exact ⟨.start, rfl, rfl⟩
  | next _ step ih =>
    obtain ⟨moves, mailbox, id⟩ := ih
    obtain ⟨later, mailboxStill, idStill⟩ := step.moves
    rw [mailbox] at later
    exact ⟨moves.trans later, mailboxStill.trans mailbox, idStill.trans id⟩

/-- Without what the peer sends a connection does the same, but for the reading of that. -/
theorem Step.hushed (step : w.Step talks new g) :
    new = [] ∧ g.hushed = w.hushed ∨ w.hushed.Step false new g.hushed := by
  cases step with
  | talk | ignore => exact Or.inl ⟨rfl, rfl⟩
  | others move foreign => exact Or.inr (@Step.others false w.hushed _ _ move foreign)
  | cancel => exact Or.inr (@Step.cancel false w.hushed)
  | depart => exact Or.inr (@Step.depart false w.hushed)
  | spoil => exact Or.inr (@Step.spoil false w.hushed)
  | take serving free receives => exact Or.inr (@Step.take false w.hushed _ _ serving free receives)
  | write writing => exact Or.inr (@Step.write false w.hushed _ _ writing)
  | finish writing => exact Or.inr (@Step.finish false w.hushed writing)
  | fail writing => exact Or.inr (@Step.fail false w.hushed _ writing)
  | @quit move d after stops free moves =>
    obtain ⟨serving, may, rfl, rfl⟩ := (Connection.stops_iff stops).mp moves
    have still : w.hushed.connection.MayStop w.floor.hub w.stopping move := by
      cases move with
      | hangUp => exact ⟨rfl, may.2⟩
      | stop | evicted | readFails => exact may
      | relay | relayFails | ignore | leave => cases stops
    exact Or.inr (.quit stops free ((Connection.stops_iff stops).mpr ⟨serving, still, rfl, rfl⟩))
  | leave moves =>
    refine Or.inr (@Step.leave false w.hushed _ _ ?_)
    obtain ⟨leaving, rfl, removed, left, removes, rfl⟩ := Connection.leave_cases moves
    simp [Wire.hushed, Connection.move?, leaving, removes]

theorem Run.hushed (run : start.Run talks past now) : start.hushed.Run false past now.hushed := by
  induction run with
  | start => exact .start
  | next _ step ih =>
    rcases step.hushed with ⟨rfl, same⟩ | quiet
    · rw [same]
      exact ih
    · exact ih.next quiet

/-- What others do is what they do at a connection. -/
theorem Run.others {f : Floor} (moves : w.floor.Moves w.connection.mailbox past f)
    (foreign : ∀ x ∈ past, x.IsForeign w.connection.mailbox) : w.Run talks past { w with floor := f } := by
  induction moves with
  | start => exact .start
  | next _ move ih =>
    have before := ih fun x listed => foreign x (List.mem_append_right _ listed)
    have own := fun x listed => foreign x (List.mem_append_left _ (Option.mem_toList.mpr listed))
    exact before.next (.others move own)

/-- Whatever a connection that does not write can do, it does in some steps. -/
theorem Run.of_move (free : w.writing = none)
    (moves : w.connection.move? w.floor.hub w.floor.turns w.stopping move = some (d, after)) :
    ∃ past broken, w.Run talks past { w with floor := { w.floor with hub := after }, connection := d, broken } := by
  cases move with
  | stop | evicted | hangUp | readFails =>
    obtain ⟨_, _, rfl, rfl⟩ := (Connection.stops_iff rfl).mp moves
    exact ⟨[], w.broken, (Step.quit rfl free moves).run⟩
  | leave =>
    obtain ⟨_, rfl, _⟩ := Connection.leave_cases moves
    exact ⟨_, w.broken, (Step.leave moves).run⟩
  | ignore =>
    obtain ⟨serving, something, rfl, rfl⟩ := Connection.ignore_cases moves
    have ignored := @Step.ignore talks w w.connection.unread serving free something le_rfl
    rw [Nat.sub_self] at ignored
    exact ⟨[], w.broken, ignored.run⟩
  | relay =>
    obtain ⟨serving, frame, receives, rfl⟩ := Connection.relay_cases moves
    have taken := (@Step.take talks _ _ _ serving free receives).run
    have written := taken.next (@Step.write talks _ frame [] (by simp))
    exact ⟨_, w.broken, by simpa [free] using written.next (.finish rfl)⟩
  | relayFails count =>
    obtain ⟨serving, frame, receives, rfl⟩ := Connection.relayFails_cases moves
    have taken := (@Step.take talks _ _ _ serving free receives).run
    have written := taken.next (@Step.write talks _ (frame.take count) (frame.drop count) (by simp))
    exact ⟨_, true, by simpa [free] using written.next (.fail rfl)⟩

end Wire

namespace Service

variable {index i : Nat} {s next last : Service}

theorem Drifts.owns (drifts : s.Drifts i next) (owns : s.Owns index i c) : next.Owns index i c :=
  ⟨drifts.connections ▸ owns.known, owns.mailbox, drifts.connections ▸ owns.alone⟩

/-- What others do at a service is what they do at a connection, which notices when the feed stops. -/
theorem Drifts.carries (drifts : s.Drifts i next) : s.Carries index i next := by
  intro c owns
  refine ⟨c, drifts.owns owns, fun joining broken => ?_⟩
  obtain ⟨past, moves, foreign⟩ := drifts.floor joining
  obtain rfl := owns.mailbox
  have others := @Wire.Run.others true (s.wire joining c broken) past _ moves foreign
  have same : next.wire joining c broken = { s.wire joining c broken with
    floor := ⟨next.turns, next.hub, joining⟩, stopping := next.feed.stopping } := rfl
  refine ⟨past, broken, ?_⟩
  rw [same]
  by_cases told : next.feed.stopping = s.feed.stopping
  · rw [told]
    exact others
  · have stops : next.feed.stopping = true := by
      cases before : s.feed.stopping with
      | true => exact drifts.stopping before
      | false => simpa [before] using told
    rw [stops]
    exact others.next .cancel

theorem Carries.refl (s : Service) : s.Carries index i s :=
  fun c owns => ⟨c, owns, fun _ broken => ⟨[], broken, .start⟩⟩

theorem Carries.trans (first : s.Carries index i next) (second : next.Carries index i last) :
    s.Carries index i last := by
  intro c owns
  obtain ⟨d, owned, run⟩ := first c owns
  obtain ⟨e, still, later⟩ := second d owned
  refine ⟨e, still, fun joining broken => ?_⟩
  obtain ⟨past, brokenThen, before⟩ := run joining broken
  obtain ⟨more, brokenNow, after⟩ := later joining brokenThen
  exact ⟨_, brokenNow, before.trans after⟩

theorem set_mailbox {j k : Nat} {e : Connection} (known : s.connections[j]? = some c)
    (same : d.mailbox = c.mailbox) (found : (s.connections.setIfInBounds j d)[k]? = some e) :
    ∃ before, s.connections[k]? = some before ∧ before.mailbox = e.mailbox := by
  by_cases own : j = k
  · subst own
    have inside : j < s.connections.size := (Array.getElem?_eq_some_iff.mp known).1
    rw [Array.getElem?_setIfInBounds_self_of_lt inside] at found
    cases found
    exact ⟨c, known, same.symm⟩
  · rw [Array.getElem?_setIfInBounds_ne own] at found
    exact ⟨e, found, rfl⟩

/-- A connection makes a move, the one that reads the queue or another one. -/
theorem move_carries {j : Nat} (known : s.connections[j]? = some c)
    (moves : c.move? s.hub s.turns s.feed.stopping move = some (d, after)) :
    s.Carries index i { s.withHub after with connections := s.connections.setIfInBounds j d } := by
  intro own owns
  have mailbox := Connection.move_mailbox moves
  have alone : ∀ k e, (s.connections.setIfInBounds j d)[k]? = some e → e.mailbox = i → k = index := by
    intro k e found reads
    obtain ⟨before, there, same⟩ := set_mailbox known mailbox found
    exact owns.alone k before there (same.trans reads)
  by_cases same : j = index
  · subst same
    cases known.symm.trans owns.known
    have inside : j < s.connections.size := (Array.getElem?_eq_some_iff.mp known).1
    refine ⟨d, ⟨Array.getElem?_setIfInBounds_self_of_lt inside, mailbox.trans owns.mailbox, alone⟩, ?_⟩
    intro joining broken
    exact @Wire.Run.of_move _ _ true _ (s.wire joining c broken) rfl moves
  · have other : c.mailbox ≠ i := fun reads => same (owns.alone j c known reads)
    refine ⟨own, ⟨(Array.getElem?_setIfInBounds_ne same).trans owns.known, owns.mailbox, alone⟩, ?_⟩
    intro joining broken
    obtain ⟨past, others, foreign⟩ := Floor.move_drifts other moves joining
    obtain rfl := owns.mailbox
    exact ⟨past, broken, @Wire.Run.others true (s.wire joining own broken) past _ others foreign⟩

theorem step_carries {action : Action} (steps : s.step? action = some next) : s.Carries index i next := by
  rcases step_drifts steps with drifts | ⟨_, _, _, _, _, known, moves, rfl⟩
  · exact drifts.carries
  · exact move_carries known moves

theorem carries_habit : Habit i (Carries index i) where
  course := {
    refl := .refl
    trans := .trans
    step := step_carries
    clock := fun s time => (s.clock_drifts time).carries }
  drift := Drifts.carries

/-- Another subscriber is registered. -/
theorem register_carries {j : Nat} (other : j ≠ i) (fuel : Nat) : Follows (Carries index i) (register fuel j) := by
  intro s number last done
  obtain ⟨middle, hub, rfl, waits, entering, rfl⟩ := register_awaits done
  intro c owns
  obtain ⟨d, owned, run⟩ := carries_habit.course.runUntil waits c ⟨owns.known, owns.mailbox, owns.alone⟩
  refine ⟨d, ⟨owned.known, owned.mailbox, owned.alone⟩, fun joining broken => ?_⟩
  -- Until the broadcasts allow the registration its number is one of those still to come.
  obtain ⟨past, stillBroken, waited⟩ := run (s.hub.reserve.1 :: joining) broken
  have reserved := @Wire.Step.others true (s.wire joining c broken) none _
    (.still (@Floor.Step.reserve s.turns s.hub joining) fun _ => id) nofun
  have enters := @Floor.Step.enter middle.turns middle.hub (s.hub.reserve.1 :: joining) _ j hub (.head _) entering
  rw [List.erase_cons_head] at enters
  have entered := @Wire.Step.others true (middle.wire (s.hub.reserve.1 :: joining) d stillBroken) _ _
    (.notice enters nofun) (by
      rintro _ ⟨⟩
      exact fun same => other (same.trans owned.mailbox))
  exact ⟨_, stillBroken, (reserved.run.trans waited).next entered⟩

/-- What an operator does at a service, but for what is done in the name of the reader of a queue, is seen as
steps at the connection that reads it. -/
theorem does_carries {errand : Errand} {reply : Reply} (foreign : errand.IsForeign i)
    (does : s.Does errand reply next) : s.Carries index i next := by
  refine carries_habit.does does ?_ ?_ ?_
  · rintro fuel j rfl
    exact register_carries foreign fuel
  · rintro j count rfl
    exact Drifts.carries ⟨Floor.receive_drifts _ _ foreign _, rfl, id⟩
  · rintro j rfl
    exact Drifts.carries ⟨Floor.closeMailbox_drifts _ _ foreign, rfl, id⟩

/-- What a peer does at its connection is seen as a step there, and at no other. -/
theorem onConnection_carries {f : Connection → Connection}
    (steps : ∀ w : Wire, w.Step true [] { w with connection := f w.connection }) (j : Nat) :
    Follows (Carries index i) (onConnection j f) := by
  rintro s _ _ ⟨⟩
  have mailbox : ∀ c, (f c).mailbox = c.mailbox := fun c => (steps (s.wire [] c false)).moves.2.1
  intro c owns
  have alone : ∀ k d, (s.connections.modify j f)[k]? = some d → d.mailbox = i → k = index := by
    intro k d found reads
    rw [Array.getElem?_modify] at found
    split at found
    · obtain ⟨before, there, rfl⟩ := Option.map_eq_some_iff.mp found
      exact owns.alone k before there ((mailbox before).symm.trans reads)
    · exact owns.alone k d found reads
  by_cases own : j = index
  · subst own
    have found : (s.connections.modify j f)[j]? = some (f c) := by
      rw [Array.getElem?_modify, if_pos rfl, owns.known]
      rfl
    exact ⟨f c, ⟨found, (mailbox c).trans owns.mailbox, alone⟩, fun joining broken =>
      ⟨[], broken, (steps (s.wire joining c broken)).run⟩⟩
  · have found : (s.connections.modify j f)[index]? = some c := by
      rw [Array.getElem?_modify, if_neg own, owns.known]
    exact ⟨c, ⟨found, owns.mailbox, alone⟩, fun joining broken => ⟨[], broken, .start⟩⟩

end Service

end LiveTiming
