import LiveTiming.Proofs.EventFates
import LiveTiming.Proofs.QueueMoves
import LiveTiming.Proofs.ServiceRun

namespace LiveTiming

/-- What somebody has to do with the events that are due, and how many he has sent by now: that is not
known, he does not care, he looks for the next one, or he waits for the broadcast of one. -/
inductive Duty
  | unknown
  | away
  | looking (count : Nat)
  | sending (count : Nat)

/-- The broadcast that somebody waited for has ended. -/
def Duty.resume : Duty → Duty
  | .sending count => .looking (count + 1)
  | duty => duty

/-- What a driver that has sent so many events has to do with those that are due. -/
def Driver.duty (count : Nat) : Option Driver → Duty
  | some .looking => .looking count
  | some .sending => .sending count
  | _ => .away

/-- The broadcast that is under way, if it is for this caller. -/
def Turns.ownPass (t : Turns) (c : Caller) : Option Pass :=
  t.pass.filter fun p => decide (p.call.caller = c)

/-- The broadcasts that this caller asked for and that have not begun. -/
def Turns.ownCalls (t : Turns) (c : Caller) : List Call :=
  t.waiting.filter fun call => decide (call.caller = c)

/-- The place that somebody has among those who send what is due, as his duty is and as these broadcasts
were asked for. He has asked for that of the event that he has taken, and for no other one. -/
inductive Seat (c : Caller) : Duty → Turns → List Sender → Prop
  | unknown {t} : Seat c .unknown t []
  | away {t} : t.ownPass c = none → t.ownCalls c = [] → Seat c .away t []
  | looks {t n} : t.ownPass c = none → t.ownCalls c = [] → Seat c (.looking n) t [⟨n, .looking⟩]
  | waits {t n e} : t.ownPass c = none → t.ownCalls c = [⟨c, e.message⟩] →
      Seat c (.sending n) t [⟨n, .taken e⟩]
  | tells {t n e p} : t.ownPass c = some p → p.frame = Frame.encode e.message → t.ownCalls c = [] →
      Seat c (.sending n) t [⟨n, .telling e p.left p.tally⟩]

/-- A service works at the hub. Its driver and its operator are among those who send what is due, as their
duties are, before the others. -/
structure Service.WorksAt (s : Service) (operator : Duty) (others : List Sender) (d : Desk) : Prop where
  hub : d.hub = s.hub
  seats : ∃ n own guest, Seat .driver (Driver.duty n s.driver) s.turns own ∧
    Seat .operator operator s.turns guest ∧ d.senders = own ++ (guest ++ others)

/-- What may be noticed of an action that a service takes by itself. -/
def Action.Shows : Action → Notice → Prop
  | .begin, .began _ _ => True
  | .visit, .told _ _ _ | .visit, .given _ | .visit, .posted _ => True
  | .conclude, .ended _ _ | .conclude, .enrolled _ => True
  | .look, .taken _ _ | .look, .began _ _ | .look, .returned _ => True
  | .connection _ _, .enrolled _ => True
  | _, _ => False

variable {past more : List Notice} {d after : Desk} {h left : Hub} {s next : Service} {t u : Turns} {c : Caller}
  {duty operator : Duty} {own others : List Sender} {action : Action} {p : Pass} {call : Call} {n : Nat}

theorem Driver.duty_sending {driver : Option Driver} {count : Nat} (sends : Driver.duty n driver = .sending count) :
    driver = some .sending ∧ n = count := by
  unfold duty at sends
  split at sends <;> cases sends
  exact ⟨rfl, rfl⟩

theorem Driver.duty_looking {driver : Option Driver} {count : Nat} (looks : Driver.duty n driver = .looking count) :
    count = n := by
  unfold duty at looks
  split at looks <;> cases looks
  rfl

theorem Driver.duty_known (driver : Option Driver) : Driver.duty n driver ≠ .unknown := by
  unfold duty
  split <;> nofun

theorem Turns.ownPass_own (busy : t.pass = some p) (own : p.call.caller = c) : t.ownPass c = some p := by
  rw [ownPass, busy, Option.filter_some, decide_eq_true own]
  rfl

theorem Turns.ownPass_other (others : ∀ p ∈ t.pass, p.call.caller ≠ c) : t.ownPass c = none :=
  Option.filter_eq_none_iff.mpr fun p busy own => others p busy (of_decide_eq_true own)

theorem Turns.start_ownPass (t : Turns) (h : Hub) (call : Call) : (t.start h call).ownPass call.caller =
    some { call, frame := Frame.encode call.message, left := h.roster.entries } :=
  ownPass_own rfl rfl

namespace Seat

/-- Only what this caller asked for matters. -/
theorem kept (seat : Seat c duty t own) (pass : u.ownPass c = t.ownPass c) (calls : u.ownCalls c = t.ownCalls c) :
    Seat c duty u own := by
  cases seat with
  | unknown => exact .unknown
  | away noPass noCalls => exact .away (pass.trans noPass) (calls.trans noCalls)
  | looks noPass noCalls => exact .looks (pass.trans noPass) (calls.trans noCalls)
  | waits noPass calling => exact .waits (pass.trans noPass) (calls.trans calling)
  | tells busy frame noCalls => exact .tells (pass.trans busy) frame (calls.trans noCalls)

theorem started (noCalls : t.ownCalls c = []) (h : Hub) (n : Nat) (e : Event) :
    Seat c (.sending n) (t.start h ⟨c, e.message⟩) [⟨n, .telling e h.roster.entries {}⟩] :=
  .tells (t.start_ownPass h ⟨c, e.message⟩) rfl noCalls

/-- The first call that waits has its turn. -/
theorem begins {later : List Call} (seat : Seat c duty t own) (free : t.pass = none)
    (waiting : t.waiting = call :: later) (h : Hub) :
    Seat c duty (Turns.start { t with waiting := later } h call) own ∨
      call.caller = c ∧ ∃ n e, own = [⟨n, .taken e⟩] ∧
        Seat c duty (Turns.start { t with waiting := later } h call) [⟨n, .telling e h.roster.entries {}⟩] := by
  have noPass : t.ownPass c = none := Turns.ownPass_other (by simp [free])
  by_cases same : call.caller = c
  · have calls : t.ownCalls c = call :: later.filter fun call => decide (call.caller = c) := by
      simp [Turns.ownCalls, waiting, same]
    cases seat with
    | unknown => exact Or.inl .unknown
    | away _ noCalls | looks _ noCalls => cases calls.symm.trans noCalls
    | @waits _ n e _ calling =>
      obtain ⟨rfl, rest⟩ := List.cons.inj (calls.symm.trans calling)
      have started := @started { t with waiting := later } c rest h n e
      exact Or.inr ⟨rfl, n, e, rfl, started⟩
    | tells busy => cases noPass.symm.trans busy
  · refine Or.inl (seat.kept (noPass ▸ Turns.ownPass_other ?_) ?_)
    · rintro _ ⟨⟩
      exact same
    · simp [Turns.ownCalls, Turns.start, waiting, same]

/-- The broadcast that is under way goes on. -/
theorem goes (seat : Seat c duty t own) (busy : t.pass = some p) (q : Pass) (sameCall : q.call = p.call)
    (sameFrame : q.frame = p.frame) :
    Seat c duty { t with pass := some q } own ∨
      p.call.caller = c ∧ ∃ n e, p.frame = Frame.encode e.message ∧ own = [⟨n, .telling e p.left p.tally⟩] ∧
        Seat c duty { t with pass := some q } [⟨n, .telling e q.left q.tally⟩] := by
  by_cases same : p.call.caller = c
  · have underway := Turns.ownPass_own busy same
    cases seat with
    | unknown => exact Or.inl .unknown
    | away noPass | looks noPass | waits noPass => cases noPass.symm.trans underway
    | tells pass frame noCalls =>
      obtain rfl := Option.some.inj (pass.symm.trans underway)
      exact Or.inr ⟨same, _, _, frame, rfl,
        .tells (Turns.ownPass_own rfl (sameCall ▸ same)) (sameFrame.trans frame) noCalls⟩
  · have noPass : t.ownPass c = none := Turns.ownPass_other (by simpa [busy] using same)
    refine Or.inl (seat.kept (noPass ▸ Turns.ownPass_other ?_) rfl)
    rintro _ ⟨⟩
    exact sameCall ▸ same

/-- The broadcast that is under way ends. -/
theorem concludes (seat : Seat c duty t own) (busy : t.pass = some p) (ended : p.left = []) :
    Seat c duty { t with pass := none } own ∧ (p.call.caller = c → duty = .unknown) ∨
      p.call.caller = c ∧ ∃ n e, duty = .sending n ∧ own = [⟨n, .telling e [] p.tally⟩] ∧
        Seat c (.looking (n + 1)) { t with pass := none } [⟨n + 1, .looking⟩] := by
  by_cases same : p.call.caller = c
  · have underway := Turns.ownPass_own busy same
    cases seat with
    | unknown => exact Or.inl ⟨.unknown, fun _ => rfl⟩
    | away noPass | looks noPass | waits noPass => cases noPass.symm.trans underway
    | tells pass _ noCalls =>
      obtain rfl := Option.some.inj (pass.symm.trans underway)
      rw [ended]
      exact Or.inr ⟨same, _, _, rfl, rfl, .looks rfl noCalls⟩
  · have noPass : t.ownPass c = none := Turns.ownPass_other (by simpa [busy] using same)
    have freed : ({ t with pass := none } : Turns).ownPass c = none := rfl
    exact Or.inl ⟨seat.kept (freed.trans noPass.symm) rfl, fun equal => absurd equal same⟩

/-- Somebody asks for the broadcast of the event that he has taken. -/
theorem asks (seat : Seat c (.looking n) t own) (h : Hub) (e : Event) :
    own = [⟨n, .looking⟩] ∧
      (Seat c (.sending n) (t.ask h ⟨c, e.message⟩) [⟨n, .taken e⟩] ∨
        Seat c (.sending n) (t.ask h ⟨c, e.message⟩) [⟨n, .telling e h.roster.entries {}⟩]) := by
  cases seat with
  | looks noPass noCalls =>
    refine ⟨rfl, ?_⟩
    unfold Turns.ask
    split
    · exact Or.inr (started noCalls h n e)
    · refine Or.inl (.waits noPass ?_)
      simpa [Turns.ownCalls] using noCalls

/-- Others may ask for what they like. -/
theorem asked (seat : Seat c duty t own) (call : Call) (other : call.caller ≠ c) (h : Hub) :
    Seat c duty (t.ask h call) own := by
  unfold Turns.ask
  split
  · rename_i idle
    have free : t.pass = none := by simpa using (Bool.and_eq_true_iff.mp idle).1
    have noPass : t.ownPass c = none := Turns.ownPass_other (by simp [free])
    refine seat.kept (noPass ▸ Turns.ownPass_other ?_) rfl
    rintro _ ⟨⟩
    exact other
  · refine seat.kept rfl ?_
    simp [Turns.ownCalls, other]

theorem looking (seat : Seat c (.looking n) t own) : own = [⟨n, .looking⟩] ∧ Seat c .away t [] := by
  cases seat with
  | looks noPass noCalls => exact ⟨rfl, .away noPass noCalls⟩

theorem absent (seat : Seat c .away t own) : own = [] ∧ ∀ n, Seat c (.looking n) t [⟨n, .looking⟩] := by
  cases seat with
  | away noPass noCalls => exact ⟨rfl, fun n => .looks noPass noCalls⟩

end Seat

namespace Service

/-- A service in which nobody sends comes to the desk. If its driver looks for events, it comes with it. -/
theorem worksAt_idle (idle : s.turns = {}) (free : s.driver ≠ some .sending) (others : List Sender) :
    ∃ after, (Desk.mk s.hub others).Run [] after ∧ s.WorksAt .away others after := by
  cases looks : Driver.duty 0 s.driver with
  | unknown => exact absurd looks (Driver.duty_known _)
  | sending => exact absurd (Driver.duty_sending looks).1 free
  | away =>
    refine ⟨_, .start, rfl, 0, [], [], ?_, ?_, rfl⟩
    · rw [looks, idle]
      exact .away rfl rfl
    · rw [idle]
      exact .away rfl rfl
  | looking n =>
    obtain rfl := Driver.duty_looking looks
    have called := @Desk.Step.run none _ _ (@Desk.Step.call s.hub [] others)
    refine ⟨_, called, rfl, 0, [{}], [], ?_, ?_, rfl⟩
    · rw [looks, idle]
      exact .looks rfl rfl
    · rw [idle]
      exact .away rfl rfl

/-- What others do at the hub leaves a service at work. -/
theorem WorksAt.withHub (works : s.WorksAt operator others d) (hub : Hub) :
    (s.withHub hub).WorksAt operator others ⟨hub, d.senders⟩ :=
  ⟨rfl, works.seats⟩

section

variable {guest : List Sender}

/-- The first call that waits has its turn, at the desk too if it was asked for by one of those who send. -/
theorem begins_run (driver : Seat .driver duty t own) (guests : Seat .operator operator t guest)
    (begins : t.begin? h = some u) (others : List Sender) :
    ∃ more own' guest', (Desk.mk h (own ++ (guest ++ others))).Run more ⟨h, own' ++ (guest' ++ others)⟩ ∧
      (∀ x ∈ more, Action.begin.Shows x) ∧ Seat .driver duty u own' ∧ Seat .operator operator u guest' := by
  obtain ⟨call, later, free, waiting, rfl⟩ := Turns.begin_cases begins
  rcases driver.begins free waiting h with keeps | ⟨mine, n, e, rfl, moved⟩
  · rcases guests.begins free waiting h with rests | ⟨_, n, e, rfl, moved⟩
    · exact ⟨[], own, guest, .start, nofun, keeps, rests⟩
    · exact ⟨_, _, _, Desk.Step.run (.work .begin), by simp [Action.Shows], keeps, moved⟩
  · rcases guests.begins free waiting h with rests | ⟨theirs, _⟩
    · exact ⟨_, _, _, Desk.Step.run (@Desk.Step.work _ [] _ _ _ _ _ .begin), by simp [Action.Shows], moved, rests⟩
    · cases mine.symm.trans theirs

/-- The broadcast that is under way comes to its next subscriber, who is told of an event if the broadcast is
that of one of those who send. -/
theorem visits_run (driver : Seat .driver duty t own) (guests : Seat .operator operator t guest)
    (visits : t.visit? h = some (u, left)) (others : List Sender) :
    ∃ more own' guest', (Desk.mk h (own ++ (guest ++ others))).Run more ⟨left, own' ++ (guest' ++ others)⟩ ∧
      (∀ x ∈ more, Action.visit.Shows x) ∧ Seat .driver duty u own' ∧ Seat .operator operator u guest' := by
  obtain ⟨p, entry, later, busy, entries, outcome⟩ := Turns.visit_cases visits
  have shown {posts : List Notice} {x : Notice} (only : ∀ x ∈ posts, x.IsPost) (kind : Action.visit.Shows x) :
      ∀ y ∈ posts ++ [x], Action.visit.Shows y := fun y member => by
    rcases List.mem_append.mp member with post | last
    · have kind := only y post
      cases y <;> trivial
    · exact List.mem_singleton.mp last ▸ kind
  rcases outcome with ⟨rfl, rfl⟩ | ⟨rfl, time, rfl⟩
  · let taken := h.take entry.subscriber p.frame
    let q : Pass := { p with left := later, heldUntil := none, tally := p.tally.count entry.id taken.1 }
    rcases driver.goes busy q rfl rfl with keeps | ⟨mine, n, e, frame, rfl, moved⟩
    · rcases guests.goes busy q rfl rfl with rests | ⟨_, n, e, frame, rfl, moved⟩
      · obtain ⟨posts, takes, only⟩ := Desk.take_run h (own ++ (guest ++ others)) entry.subscriber p.frame
        exact ⟨_, own, guest, takes, shown only trivial, keeps, rests⟩
      · obtain ⟨posts, tells, only⟩ := Desk.tell_run n e p.tally h own others entry later
        rw [← frame, ← entries] at tells
        exact ⟨_, own, [⟨n, .telling e later q.tally⟩], tells, shown only trivial, keeps, moved⟩
    · rcases guests.goes busy q rfl rfl with rests | ⟨theirs, _⟩
      · obtain ⟨posts, tells, only⟩ := Desk.tell_run n e p.tally h [] (guest ++ others) entry later
        rw [← frame, ← entries] at tells
        exact ⟨_, [⟨n, .telling e later q.tally⟩], guest, tells, shown only trivial, moved, rests⟩
      · cases mine.symm.trans theirs
  · -- Nobody is given the frame yet, so nobody's place changes.
    let q : Pass := { p with heldUntil := some time }
    have waits {c : Caller} {duty : Duty} {own : List Sender} (seat : Seat c duty t own) :
        Seat c duty { t with pass := some q } own := by
      rcases seat.goes busy q rfl rfl with keeps | ⟨_, n, e, _, rfl, moved⟩
      · exact keeps
      · exact moved
    exact ⟨[], own, guest, .start, nofun, waits driver, waits guests⟩

/-- The broadcast that is under way ends. Whoever waited for it looks for the next event. -/
theorem concludes_run {caller : Caller} {tally : Tally} (driver : Seat .driver (Driver.duty n s.driver) s.turns own)
    (guests : Seat .operator operator s.turns guest)
    (concludes : s.turns.conclude? s.hub = some (caller, tally, u, left)) (others : List Sender) :
    let ended := ({ s.withHub left with turns := u } : Service).reportTo caller tally
    ∃ more n' own' guest' duty,
      (Desk.mk s.hub (own ++ (guest ++ others))).Run more ⟨left, own' ++ (guest' ++ others)⟩ ∧
      (∀ x ∈ more, Action.conclude.Shows x) ∧ Seat .driver (Driver.duty n' ended.driver) ended.turns own' ∧
      Seat .operator duty ended.turns guest' ∧
      (duty = operator ∧ ended.answer = s.answer ∨ duty = operator.resume ∧ ended.answer.isSome = true) := by
  obtain ⟨p, busy, finished, rfl, rfl, rfl, rfl⟩ := Turns.conclude_cases concludes
  have enrols (senders : List Sender) : (Desk.mk s.hub senders).Run [.enrolled _]
      ⟨{ s.hub with roster := s.hub.roster.evict p.tally.evicted }, senders⟩ := Desk.Step.run .enrol
  rcases driver.concludes busy finished with ⟨keeps, foreign⟩ | ⟨mine, _, e, driven, rfl, moved⟩
  · have other : p.call.caller ≠ .driver := fun mine => Driver.duty_known _ (foreign mine)
    rcases guests.concludes busy finished with ⟨rests, theirs⟩ | ⟨theirs, k, e, rfl, rfl, moved⟩
    · cases caller : p.call.caller with
      | driver => exact absurd caller other
      | background =>
        exact ⟨_, n, own, guest, operator, enrols _, by simp [Action.Shows], keeps, rests, Or.inl ⟨rfl, rfl⟩⟩
      | operator =>
        obtain rfl := theirs caller
        exact ⟨_, n, own, guest, .unknown, enrols _, by simp [Action.Shows], keeps, rests, Or.inr ⟨rfl, rfl⟩⟩
    · rw [theirs]
      exact ⟨_, n, own, _, _, Desk.Step.run (.work .finish), by simp [Action.Shows], keeps, moved,
        Or.inr ⟨rfl, rfl⟩⟩
  · rcases guests.concludes busy finished with ⟨rests, _⟩ | ⟨theirs, _⟩
    · obtain ⟨sending, rfl⟩ := Driver.duty_sending driven
      have free : Seat .driver (Driver.duty (n + 1) (s.driver.map .resume)) { s.turns with pass := none }
          [⟨n + 1, .looking⟩] := by
        rw [sending]
        exact moved
      rw [mine]
      exact ⟨_, n + 1, _, guest, operator, Desk.Step.run (@Desk.Step.work _ [] _ _ _ _ _ .finish),
        by simp [Action.Shows], free, rests, Or.inl ⟨rfl, rfl⟩⟩
    · cases mine.symm.trans theirs

/-- The driver looks for an event that is due. It asks for the broadcast of the one that it takes. -/
theorem looks_run {hub : Hub} {e : Event} (driver : Seat .driver (.looking n) t own)
    (guests : Seat .operator operator t guest) (taken : h.takeDue = (some e, hub)) (others : List Sender) :
    ∃ more own', (Desk.mk h (own ++ (guest ++ others))).Run more ⟨hub, own' ++ (guest ++ others)⟩ ∧
      (∀ x ∈ more, Action.look.Shows x) ∧ Seat .driver (.sending n) (t.ask hub ⟨.driver, e.message⟩) own' ∧
      Seat .operator operator (t.ask hub ⟨.driver, e.message⟩) guest := by
  have rests := guests.asked ⟨.driver, e.message⟩ nofun hub
  obtain ⟨rfl, waits | tells⟩ := driver.asks hub e <;>
    have takes : (Desk.mk h (⟨n, .looking⟩ :: (guest ++ others))).Run [.taken e h.clock]
        ⟨hub, ⟨n, .taken e⟩ :: (guest ++ others)⟩ :=
      Desk.Step.run (@Desk.Step.work _ [] _ _ _ _ _ (.take taken))
  · exact ⟨_, [⟨n, .taken e⟩], takes, by simp [Action.Shows], waits, rests⟩
  · have begins := takes.next (@Desk.Step.work _ [] _ _ _ _ _ .begin)
    exact ⟨_, [⟨n, .telling e hub.roster.entries {}⟩], begins, by simp [Action.Shows], tells, rests⟩

/-- A connection takes a step, in which nobody is given a frame. -/
theorem moves_run {index : Nat} {c e : Connection} {stopping : Bool} {move : ConnectionMove}
    (moves : c.move? h t stopping move = some (e, left)) (senders : List Sender) :
    ∃ more, (Desk.mk h senders).Run more ⟨left, senders⟩ ∧ ∀ x ∈ more, (Action.connection index move).Shows x := by
  rcases Connection.move_cases moves with rfl | rfl | ⟨removed, after, removes, rfl⟩
  · exact ⟨[], .start, nofun⟩
  · obtain ⟨same, clock⟩ := h.receive_aside c.mailbox 1
    obtain ⟨roster, journal⟩ := h.receive_alike c.mailbox 1
    exact ⟨[], @Desk.Step.run none _ _ (.aside same clock journal (congrArg Roster.entries roster)), nofun⟩
  · obtain ⟨_, rfl⟩ := Turns.remove_eq removes
    obtain ⟨same, clock⟩ := (h.remove c.id).2.closeMailbox_aside c.mailbox
    obtain ⟨roster, journal⟩ := (h.remove c.id).2.closeMailbox_alike c.mailbox
    have leaves : (Desk.mk h senders).Run [.enrolled (h.remove c.id).2.roster.entries]
        ⟨(h.remove c.id).2, senders⟩ :=
      Desk.Step.run .enrol
    exact ⟨_, leaves.next (.aside same clock journal (congrArg Roster.entries roster)), by simp [Action.Shows]⟩

end

/-- What a service does by itself are steps at the desk that it works at. Only what its action may show is
noticed, and the others who send keep their places. Its operator waits no longer when he has his answer. -/
theorem WorksAt.acts (works : s.WorksAt operator others d) (steps : s.step? action = some next) :
    ∃ more after duty, d.Run more after ∧ (∀ x ∈ more, action.Shows x) ∧ next.WorksAt duty others after ∧
      (duty = operator ∧ next.answer = s.answer ∨ duty = operator.resume ∧ next.answer.isSome = true) := by
  obtain ⟨hub, senders⟩ := d
  obtain ⟨rfl, n, own, guest, driver, guests, rfl⟩ := works
  -- All actions but the end of a broadcast leave the operator's duty and his answer as they are.
  have unanswered {next : Service} (same : next.answer = s.answer) (count : Nat) (own' : List Sender)
      {more : List Notice} {guest' : List Sender}
      (run : (Desk.mk s.hub (own ++ (guest ++ others))).Run more ⟨next.hub, own' ++ (guest' ++ others)⟩)
      (shows : ∀ x ∈ more, action.Shows x) (driver : Seat .driver (Driver.duty count next.driver) next.turns own')
      (guests : Seat .operator operator next.turns guest') :
      ∃ more after duty, (Desk.mk s.hub (own ++ (guest ++ others))).Run more after ∧
        (∀ x ∈ more, action.Shows x) ∧ next.WorksAt duty others after ∧
        (duty = operator ∧ next.answer = s.answer ∨ duty = operator.resume ∧ next.answer.isSome = true) :=
    ⟨more, _, operator, run, shows, ⟨rfl, count, own', guest', driver, guests, rfl⟩, Or.inl ⟨rfl, same⟩⟩
  cases steps_of steps with
  | begin begins =>
    obtain ⟨_, own', _, run, shows, keeps, rests⟩ := begins_run driver guests begins others
    exact unanswered rfl n own' run shows keeps rests
  | visit visits =>
    obtain ⟨_, own', _, run, shows, keeps, rests⟩ := visits_run driver guests visits others
    exact unanswered rfl n own' run shows keeps rests
  | @conclude caller tally turns hub concludes =>
    obtain ⟨more, n', own', guest', duty, run, shows, keeps, rests, answers⟩ :=
      concludes_run driver guests concludes others
    have same := reportTo_hub { s.withHub hub with turns } caller tally
    exact ⟨more, _, duty, run, shows, ⟨same.symm, n', own', guest', keeps, rests, rfl⟩, answers⟩
  | send looks taken =>
    rw [looks] at driver
    obtain ⟨_, own', run, shows, keeps, rests⟩ := looks_run driver guests taken others
    exact unanswered rfl n own' run shows keeps rests
  | look looks rested =>
    rw [looks] at driver
    obtain ⟨rfl, away⟩ := driver.looking
    have leaves : (Desk.mk s.hub (⟨n, .looking⟩ :: (guest ++ others))).Run [.returned n] _ :=
      Desk.Step.run (@Desk.Step.leave _ [] n _ _ rested)
    exact unanswered rfl n [] leaves (by simp [Action.Shows]) away guests
  | plan planning =>
    rw [planning] at driver
    exact unanswered rfl n own (@Desk.Step.run none _ _ .look) nofun driver guests
  | rest planned =>
    rw [planned] at driver
    exact unanswered rfl n own .start nofun driver guests
  | stop sleeps =>
    rw [sleeps] at driver
    exact unanswered rfl n own .start nofun driver guests
  | rouse sleeps =>
    rw [sleeps] at driver
    obtain ⟨rfl, looking⟩ := driver.absent
    have seen : (Desk.mk s.hub (guest ++ others)).Run [] ⟨{ s.hub with wake := false }, guest ++ others⟩ :=
      @Desk.Step.run none _ _ (.aside rfl rfl rfl rfl)
    have called := seen.next (@Desk.Step.call _ [] _)
    exact unanswered rfl 0 [{}] called nofun (looking 0) guests
  | ring sleeps =>
    rw [sleeps] at driver
    obtain ⟨rfl, looking⟩ := driver.absent
    have called := Desk.Run.start.next (@Desk.Step.call s.hub [] (guest ++ others))
    exact unanswered rfl 0 [{}] called nofun (looking 0) guests
  | connection _ moves =>
    obtain ⟨more, run, shows⟩ := moves_run moves (own ++ (guest ++ others))
    exact unanswered rfl n own run shows driver guests

end Service

end LiveTiming
