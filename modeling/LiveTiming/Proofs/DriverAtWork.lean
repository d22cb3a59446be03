import LiveTiming.Proofs.ConsoleSession
import LiveTiming.Proofs.Errands

namespace LiveTiming

namespace Hub

variable {h after : Hub}

theorem foldl_touches {α β : Type} {step : β × Hub → α → β × Hub}
    (steps : ∀ b h a, Hub.Touches h (step (b, h) a).2) (items : List α) (b : β) (h : Hub) :
    h.Touches (items.foldl step (b, h)).2 := by
  induction items generalizing b h with
  | nil => exact .refl
  | cons a items ih => exact (steps b h a).trans (ih _ _)

/-- A broadcast is what others may do at the hub of a sleeping driver. -/
theorem broadcast_touches (h : Hub) (m : Message) : h.Touches (h.broadcast m).2 := by
  have told : h.Touches (h.roster.entries.foldl (deliver (Frame.encode m)) ({}, h)).2 := by
    refine foldl_touches (fun tally h e => ?_) _ _ h
    rw [deliver_eq]
    exact .head .moveClock (take_touches _ _ _)
  exact .tail told (.aside rfl rfl)

/-- So is the cancellation of events. -/
theorem cancelAll_touches (h : Hub) (ids : List EventId) : h.Touches (h.cancelAll ids).2 :=
  foldl_touches (fun _ _ _ => .single .cancel) ids 0 h

end Hub

namespace Feed

/-- So is what a command does before anything is sent. -/
theorem react_touches (f : Feed) (c : Command) : f.hub.Touches (f.react c).2.hub := by
  rcases react_other f c with ⟨r, rfl⟩ | ⟨component, rfl⟩ | ⟨same, _⟩
  · rw [react_race_hub, launch]
    rcases plan_cases f r with ⟨reason, refused⟩ | ⟨rundown, generator, planned⟩
    · rw [refused]
      exact .refl
    · rw [planned]
      exact Hub.foldl_touches (fun _ _ _ => .single .postAt) _ _ _
  · exact Hub.cancelAll_touches _ _
  · rw [same]
    exact .refl

/-- So is a command, with what it sends. -/
theorem perform_touches (f : Feed) (c : Command) : f.hub.Touches (f.perform c).2.hub := by
  have reacted := f.react_touches c
  rcases reacts : f.react c with ⟨answer | m, g⟩
  · rw [reacts] at reacted
    rwa [perform_answer reacts]
  · rw [reacts] at reacted
    rw [perform, reacts]
    exact reacted.trans (g.hub.broadcast_touches m)

end Feed

/-- An errand that neither ends the feed nor lets the clock jump, and leaves the events that are due to
the driver. -/
def Errand.Timely : Errand → Prop
  | .perform .quit | .jump _ | .sendDue => False
  | _ => True

/-- A quiet service whose driver is at work, and has missed nothing so far. -/
structure Service.AtWork (s : Service) : Prop where
  quiet : s.Quiet
  watchful : s.Watchful
  goesOn : s.feed.stopping = false
  drives : ∃ d, s.driver = some d ∧ d ≠ .stopped

variable {s next t : Service} {sent : Option Event} {errand : Errand} {act : Feed → Reply × Feed}

/-- So is every errand that is done at once. -/
theorem Errand.act_touches (acts : errand.act? = some act) (f : Feed) : f.hub.Touches (act f).2.hub := by
  rcases act_cases acts with ⟨c, rfl, rfl⟩ | ⟨m, rfl, rfl⟩ | ⟨change, atOnce, rfl⟩
  · exact f.perform_touches c
  · exact f.hub.broadcast_touches m
  · cases errand with
    | perform | broadcast | sendDue | sleep => cases atOnce
    | post | postAt =>
      cases atOnce
      exact .single .postAt
    | cancel =>
      cases atOnce
      exact .single .cancel
    | register | remove =>
      cases atOnce
      exact .single (.aside rfl rfl)
    | receive i count =>
      cases atOnce
      have timeline : (f.hub.receive i count).2.timeline = f.hub.timeline := by
        rw [Hub.receive_adjusts, Hub.adjust_timeline]
      exact .single (.aside timeline (Hub.receive_quiet _ _ _))
    | close i =>
      cases atOnce
      have wake : (f.hub.closeMailbox i).wake = f.hub.wake := by
        unfold Hub.closeMailbox
        split <;> rfl
      exact .single (.aside (Hub.adjust_timeline _ _ _) wake)
    | jump =>
      cases atOnce
      exact .single .moveClock

/-- A timely errand does not stop the service. -/
theorem Errand.Timely.stopping (timely : errand.Timely) (acts : errand.act? = some act) (f : Feed) :
    (act f).2.stopping = f.stopping := by
  rcases act_cases acts with ⟨c, rfl, rfl⟩ | ⟨m, rfl, rfl⟩ | ⟨change, _, rfl⟩
  · have goesOn : c ≠ .quit := by
      rintro rfl
      exact timely
    rw [(f.perform_keeps c).2.1, decide_eq_false goesOn, Bool.or_false]
  · rfl
  · rfl

namespace Service

/-- A watchful driver stays so in every step of its service. -/
theorem Watchful.steps (watchful : s.Watchful) (goes : s.next? = some next) : next.Watchful := by
  obtain ⟨action, _, steps⟩ := List.exists_of_findSome?_eq_some goes
  exact watchful.act steps

theorem Watchful.goes {keeps : Service → Prop} (watchful : s.Watchful) (goes : s.Goes keeps next) :
    next.Watchful := by
  induction goes with
  | refl => exact watchful
  | tail _ step ih => exact ih.steps step.2

/-- A driver at work stays at work in its strides. -/
theorem AtWork.stride (atWork : s.AtWork) (strides : s.stride? = some (sent, next)) : next.AtWork := by
  obtain ⟨quiet, first, starts, goes⟩ := atWork.quiet.stride strides
  have watchful : next.Watchful := (atWork.watchful.steps starts).goes goes
  rcases stride_cases strides with ⟨e, after, _, _, _, rfl⟩ | ⟨_, d, after, _, stops, _, rfl⟩
  · exact ⟨quiet, watchful, atWork.goesOn, atWork.drives⟩
  · refine ⟨quiet, watchful, atWork.goesOn, d, rfl, fun stopped => ?_⟩
    exact absurd (stops stopped) (by simp [atWork.goesOn])

theorem AtWork.moveClock (atWork : s.AtWork) (time : Nat) : (s.moveClock time).AtWork :=
  ⟨atWork.quiet.moveClock time, atWork.watchful.touch .moveClock rfl, atWork.goesOn, atWork.drives⟩

/-- It stays at work when an operator does an errand that is done at once. -/
theorem AtWork.acts (atWork : s.AtWork) (acts : errand.act? = some act) (timely : errand.Timely) {reply : Reply}
    (does : s.Does errand reply t) : t.AtWork := by
  obtain ⟨_, ⟨answer, rfl⟩, quiet⟩ := atWork.quiet.acts acts does
  have touches := Errand.act_touches acts s.feed
  exact ⟨quiet, atWork.watchful.touches touches rfl, (timely.stopping acts s.feed).trans atWork.goesOn,
    atWork.drives⟩

/-- A driver at work that has nothing to do sleeps until some time, and no event is to come before
that. -/
theorem AtWork.waits (atWork : s.AtWork) (rests : s.stride? = none) :
    ∃ deadline, s.driver = some (.asleep deadline) ∧ s.nextTime? = deadline ∧ s.hub.timeline.Meets deadline ∧
      ∀ alarm, deadline = some alarm → s.hub.clock < alarm := by
  obtain ⟨d, driver, runs⟩ := atWork.drives
  cases d with
  | looking =>
    rcases taken : s.hub.takeDue with ⟨_ | e, after⟩
    · simp [stride_looks driver taken] at rests
    · simp [stride_sends driver taken] at rests
  | planning => simp [stride_plans driver] at rests
  | planned => simp [stride_rests driver] at rests
  | asleep deadline =>
    cases asked : s.hub.wake with
    | true => simp [stride_rouses driver atWork.goesOn asked] at rests
    | false =>
      have early : ∀ alarm, deadline = some alarm → s.hub.clock < alarm := by
        rintro alarm rfl
        by_contra due
        simp [stride_rings driver atWork.goesOn asked (Nat.le_of_not_lt due)] at rests
      have meets := (atWork.watchful.onGuard _ driver).resolve_left (by simp [asked])
      refine ⟨deadline, driver, ?_, meets, early⟩
      simp [nextTime?, atWork.quiet.idle, Turns.heldUntil?, driver, Driver.deadline?]
  | sending => exact absurd driver atWork.quiet.free
  | stopped => exact absurd rfl runs

/-- A service goes on without sending an event: its driver takes steps, or time passes until the
driver's alarm while there is nothing to do. -/
inductive Idles (time : Nat) : Service → Service → Prop
  | refl {s : Service} : Idles time s s
  | stride {s next t : Service} : s.stride? = some (none, next) → Idles time next t → Idles time s t
  | wait {s t : Service} {alarm : Nat} : s.stride? = none → s.nextTime? = some alarm → alarm ≤ time →
      Idles time (s.moveClock alarm) t → Idles time s t

variable {time : Nat} {fired : List (Nat × Event)} {e : Event} {after : Hub}

/-- What is done idly before a sleep belongs to it. -/
theorem Idles.sleeps (idles : Idles time s next) (sleeps : next.Sleeps time fired t) : s.Sleeps time fired t := by
  induction idles with
  | refl => exact sleeps
  | stride strides _ ih => exact .stride strides (ih sleeps)
  | wait rests rings early _ ih => exact .wait rests rings early (ih sleeps)

theorem Idles.atWork (idles : Idles time s next) (atWork : s.AtWork) : next.AtWork := by
  induction idles with
  | refl => exact atWork
  | stride strides _ ih => exact ih (atWork.stride strides)
  | wait _ _ _ _ ih => exact ih (atWork.moveClock _)

/-- A service is about to send an event, or nothing can happen until after a time. -/
inductive Poised (time : Nat) : Service → Prop
  | sends {s : Service} {e after} : s.driver = some .looking → s.hub.takeDue = (some e, after) → Poised time s
  | rests {s : Service} : s.stride? = none → (∀ alarm, s.nextTime? = some alarm → time < alarm) → Poised time s

/-- A service goes on until it is poised. -/
def Settles (time : Nat) (s : Service) : Prop :=
  ∃ next, Idles time s next ∧ Poised time next

/-- A driver settles if it does after a stride in which nothing is sent. -/
theorem Settles.stride (settles : next.Settles time) (strides : s.stride? = some (none, next)) :
    s.Settles time := by
  obtain ⟨t, idles, poised⟩ := settles
  exact ⟨t, .stride strides idles, poised⟩

/-- A driver that finds an event due has settled. -/
theorem settles_of_due (looks : s.driver = some .looking) (taken : s.hub.takeDue = (some e, after)) :
    s.Settles time :=
  ⟨s, .refl, .sends looks taken⟩

/-- A driver that sleeps until some time settles there if it would when it is woken. -/
theorem settles_of_asleep {deadline : Option Nat} (idle : s.turns = {})
    (sleeps : s.driver = some (.asleep deadline))
    (goesOn : s.feed.stopping = false) (unasked : s.hub.wake = false)
    (woken : ∀ alarm, deadline = some alarm →
      ({ s.moveClock alarm with driver := some .looking } : Service).Settles time) :
    s.Settles time := by
  have alarm : s.nextTime? = deadline := by
    simp [nextTime?, idle, Turns.heldUntil?, sleeps, Driver.deadline?]
  by_cases early : ∀ time, deadline = some time → s.hub.clock < time
  · have rests := stride_sleeps sleeps goesOn unasked early
    by_cases late : ∀ alarm, s.nextTime? = some alarm → time < alarm
    · exact ⟨s, .refl, .rests rests late⟩
    · simp only [not_forall, Nat.not_lt] at late
      obtain ⟨ring, rings, soon⟩ := late
      obtain rfl : deadline = some ring := alarm.symm.trans rings
      have due : ring ≤ (s.moveClock ring).hub.clock := le_max_right _ _
      obtain ⟨t, idles, poised⟩ := (woken ring rfl).stride (stride_rings sleeps goesOn unasked due)
      exact ⟨t, .wait rests rings soon idles, poised⟩
  · simp only [not_forall, Nat.not_lt] at early
    obtain ⟨ring, rfl, due⟩ := early
    have still : s.moveClock ring = s := by
      have clock : s.hub.moveClock ring = s.hub := by
        simp only [Hub.moveClock, max_eq_left due]
      rw [moveClock, clock]
      rfl
    have settles := woken ring rfl
    rw [still] at settles
    exact settles.stride (stride_rings sleeps goesOn unasked due)

theorem settles_of_nothing_due (looks : s.driver = some .looking) (taken : s.hub.takeDue = (none, after))
    (settles : ({ s.withHub { after with timeline := after.timeline.nextTime.2 } with
      driver := some (.asleep after.timeline.nextTime.1) } : Service).Settles time) :
    s.Settles time := by
  let planning : Service := { s.withHub after with driver := some .planning }
  let planned : Service := { s.withHub { after with timeline := after.timeline.nextTime.2 } with
    driver := some (.planned after.timeline.nextTime.1) }
  have rests : planned.Settles time := settles.stride (stride_rests rfl)
  have plans : planning.Settles time := rests.stride (stride_plans rfl)
  exact plans.stride (stride_looks looks taken)

/-- A driver that looks for events settles, if nobody has asked it to look again. -/
theorem settles_of_looking (idle : s.turns = {}) (sound : s.hub.timeline.Sound) (looks : s.driver = some .looking)
    (goesOn : s.feed.stopping = false) (unasked : s.hub.wake = false) : s.Settles time := by
  rcases taken : s.hub.takeDue with ⟨_ | e, after⟩
  · have kept := ((Hub.takeDue_tidied taken).timeline sound).right
    have wake : after.wake = false := (Hub.takeDue_wake taken).trans unasked
    refine settles_of_nothing_due looks taken (settles_of_asleep idle rfl goesOn wake fun alarm first => ?_)
    obtain ⟨e, member, rfl⟩ := Timeline.nextTime_some kept first
    let woken : Hub := ({ after with timeline := after.timeline.nextTime.2 } : Hub).moveClock e.time
    have due : e.time ≤ woken.clock := le_max_right _ _
    rcases again : woken.takeDue with ⟨_ | other, last⟩
    · obtain ⟨early, _⟩ := Timeline.takeDue_none (Timeline.nextTime_sound kept) (Hub.takeDue_eq again).1
      rw [Timeline.nextTime_pending kept] at early
      exact absurd due (Nat.not_le_of_lt (early e member))
    · exact settles_of_due rfl again
  · exact settles_of_due looks taken

/-- A sleeping driver settles: it is asked to look, its time comes, or it sleeps on. -/
theorem settles_of_sleeping {deadline : Option Nat} (idle : s.turns = {}) (sound : s.hub.timeline.Sound)
    (sleeps : s.driver = some (.asleep deadline)) (goesOn : s.feed.stopping = false) : s.Settles time := by
  cases asked : s.hub.wake with
  | true =>
    have looks : ({ s.withHub { s.hub with wake := false } with driver := some .looking } : Service).Settles time :=
      settles_of_looking idle sound rfl goesOn rfl
    exact looks.stride (stride_rouses sleeps goesOn asked)
  | false =>
    refine settles_of_asleep idle sleeps goesOn asked fun alarm _ => ?_
    exact settles_of_looking idle sound rfl goesOn asked

theorem settles_of_planned {deadline : Option Nat} (idle : s.turns = {}) (sound : s.hub.timeline.Sound)
    (planned : s.driver = some (.planned deadline)) (goesOn : s.feed.stopping = false) : s.Settles time := by
  have sleeps : ({ s with driver := some (.asleep deadline) } : Service).Settles time :=
    settles_of_sleeping idle sound rfl goesOn
  exact sleeps.stride (stride_rests planned)

/-- Whatever its driver is at, a service sends an event, or goes on until nothing can happen. -/
theorem AtWork.settles (atWork : s.AtWork) (time : Nat) : s.Settles time := by
  have idle := atWork.quiet.idle
  have sound := atWork.quiet.sound
  obtain ⟨d, driver, runs⟩ := atWork.drives
  cases d with
  | looking =>
    rcases taken : s.hub.takeDue with ⟨_ | e, after⟩
    · have kept := ((Hub.takeDue_tidied taken).timeline sound).right
      exact settles_of_nothing_due driver taken
        (settles_of_sleeping idle (Timeline.nextTime_sound kept) rfl atWork.goesOn)
    · exact settles_of_due driver taken
  | planning =>
    let next : Service := { s.withHub { s.hub with timeline := s.hub.timeline.nextTime.2 } with
      driver := some (.planned s.hub.timeline.nextTime.1) }
    have plans : next.Settles time := settles_of_planned idle (Timeline.nextTime_sound sound) rfl atWork.goesOn
    exact plans.stride (stride_plans driver)
  | planned deadline => exact settles_of_planned idle sound driver atWork.goesOn
  | asleep deadline => exact settles_of_sleeping idle sound driver atWork.goesOn
  | sending => exact absurd driver atWork.quiet.free
  | stopped => exact absurd rfl runs

end Service

end LiveTiming
