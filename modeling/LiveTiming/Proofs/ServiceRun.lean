import LiveTiming.Service
import LiveTiming.Proofs.Passes

namespace LiveTiming

/-- What a step of a service does: a broadcast that was asked for begins, goes on or ends, or the
driver or a connection takes a step. -/
inductive Service.Steps (s : Service) : Action → Service → Prop
  | begin {turns} : s.turns.begin? s.hub = some turns → Steps s .begin { s with turns }
  | visit {turns hub} : s.turns.visit? s.hub = some (turns, hub) →
      Steps s .visit { s.withHub hub with turns }
  | conclude {caller tally turns hub} : s.turns.conclude? s.hub = some (caller, tally, turns, hub) →
      Steps s .conclude ({ s.withHub hub with turns }.reportTo caller tally)
  | send {e hub} : s.driver = some .looking → s.hub.takeDue = (some e, hub) →
      Steps s .look { s.withHub hub with
        driver := some .sending, turns := s.turns.ask hub ⟨.driver, e.message⟩ }
  | look {hub} : s.driver = some .looking → s.hub.takeDue = (none, hub) →
      Steps s .look { s.withHub hub with driver := some .planning }
  | plan : s.driver = some .planning →
      Steps s .plan { s.withHub { s.hub with timeline := s.hub.timeline.nextTime.2 } with
        driver := some (.planned s.hub.timeline.nextTime.1) }
  | rest {deadline} : s.driver = some (.planned deadline) →
      Steps s .rest { s with driver := some (.asleep deadline) }
  | stop {deadline} : s.driver = some (.asleep deadline) → s.feed.stopping = true →
      Steps s .stop { s with driver := some .stopped }
  | rouse {deadline} : s.driver = some (.asleep deadline) → s.hub.wake = true →
      Steps s .rouse { s.withHub { s.hub with wake := false } with driver := some .looking }
  | ring {deadline} : s.driver = some (.asleep (some deadline)) → deadline ≤ s.hub.clock →
      Steps s .ring { s with driver := some .looking }
  | connection {index c d hub move} : s.connections[index]? = some c →
      c.move? s.hub s.turns s.feed.stopping move = some (d, hub) →
      Steps s (.connection index move) { s.withHub hub with
        connections := s.connections.setIfInBounds index d }

variable {h after : Hub}

/-- A broadcast begins with the call that has waited longest, when none is under way. -/
theorem Turns.begin_cases {t u : Turns} (begins : t.begin? h = some u) :
    ∃ call later, t.pass = none ∧ t.waiting = call :: later ∧
      u = start { t with waiting := later } h call := by
  unfold Turns.begin? at begins
  split at begins
  · rename_i call later free waiting
    cases begins
    exact ⟨call, later, free, waiting, rfl⟩
  · cases begins

/-- A broadcast comes to its next subscriber, who takes the frame, or is waited for. -/
theorem Turns.visit_cases {t u : Turns} (visits : t.visit? h = some (u, after)) :
    ∃ p e later, t.pass = some p ∧ p.left = e :: later ∧
      ((after = (h.take e.subscriber p.frame).2 ∧ u = { t with pass := some { p with
        left := later, heldUntil := none, tally := p.tally.count e.id (h.take e.subscriber p.frame).1 } }) ∨
      after = h ∧ ∃ time, u = { t with pass := some { p with heldUntil := some time } }) := by
  unfold Turns.visit? at visits
  split at visits
  · cases visits
  · rename_i p busy
    split at visits
    · cases visits
    · rename_i e later left
      refine ⟨p, e, later, busy, left, ?_⟩
      dsimp only at visits
      split at visits <;> split at visits <;> cases visits
      · exact Or.inl ⟨rfl, rfl⟩
      · exact Or.inl ⟨rfl, rfl⟩
      · exact Or.inr ⟨rfl, _, rfl⟩

/-- A broadcast ends when it has come to everybody, and those who are gone are evicted. -/
theorem Turns.conclude_cases {t u : Turns} {caller : Caller} {tally : Tally}
    (concludes : t.conclude? h = some (caller, tally, u, after)) :
    ∃ p, t.pass = some p ∧ p.left = [] ∧ caller = p.call.caller ∧ tally = p.tally ∧
      u = { t with pass := none } ∧ after = { h with roster := h.roster.evict p.tally.evicted } := by
  unfold Turns.conclude? at concludes
  split at concludes
  · cases concludes
  · rename_i p busy
    split at concludes
    · rename_i ended
      cases concludes
      exact ⟨p, busy, List.isEmpty_iff.mp ended, rfl, rfl, rfl, rfl⟩
    · cases concludes

/-- A relation between a hub and what it comes to when a service takes steps by itself. -/
structure Hub.Routine (R : Hub → Hub → Prop) : Prop extends Course R where
  takeDue : ∀ h, R h h.takeDue.2
  look : ∀ h, R h { h with timeline := h.timeline.nextTime.2 }

theorem Hub.run_routine : Routine fun h after => ∃ more, Run h more after where
  refl _ := ⟨_, .start⟩
  trans := fun ⟨_, first⟩ ⟨_, second⟩ => ⟨_, first.trans second⟩
  post _ _ _ := ⟨_, Step.run .postAt⟩
  moveClock _ _ := ⟨_, Step.run .moveClock⟩
  aside same clock := ⟨_, Step.run (.aside same clock)⟩
  takeDue h := by
    rcases taken : h.takeDue with ⟨_ | _, _⟩
    · exact ⟨_, Step.run (.rest taken)⟩
    · exact ⟨_, Step.run (.fire taken)⟩
  look _ := ⟨_, Step.run .look⟩

/-- A visit to a subscriber is a stretch of the walk of a frame. -/
theorem Turns.visit_follows {R : Hub → Hub → Prop} (course : Hub.Course R) {t u : Turns}
    (visits : t.visit? h = some (u, after)) : R h after := by
  obtain ⟨_, _, _, _, _, ⟨rfl, _⟩ | ⟨rfl, _⟩⟩ := visit_cases visits
  · exact course.take _ _ _
  · exact course.refl _

theorem Hub.receive_aside (h : Hub) (subscriber count : Nat) :
    (h.receive subscriber count).2.timeline = h.timeline ∧
      (h.receive subscriber count).2.clock = h.clock := by
  unfold Hub.receive
  split <;> exact ⟨rfl, rfl⟩

theorem Hub.closeMailbox_aside (h : Hub) (subscriber : Nat) :
    (h.closeMailbox subscriber).timeline = h.timeline ∧
      (h.closeMailbox subscriber).clock = h.clock := by
  unfold Hub.closeMailbox
  split <;> exact ⟨rfl, rfl⟩

/-- A connection leaves the hub as it is, takes a frame out of its queue, or ends its
registration and closes the queue. -/
theorem Connection.move_cases {c d : Connection} {t : Turns} {stopping : Bool} {move : ConnectionMove}
    (moves : c.move? h t stopping move = some (d, after)) :
    after = h ∨ after = (h.receive c.mailbox 1).2 ∨ ∃ removed left,
      t.remove? h c.id = some (removed, left) ∧ after = left.closeMailbox c.mailbox := by
  unfold Connection.move? at moves
  split at moves
  · cases moves
  · split at moves
    · obtain ⟨⟨removed, left⟩, removes, same⟩ := Option.map_eq_some_iff.mp moves
      cases same
      exact Or.inr (Or.inr ⟨removed, left, removes, rfl⟩)
    · cases moves
  · dsimp only at moves
    split at moves
    case h_1 | h_4 | h_5 | h_6 | h_7 =>
      split at moves
      · cases moves
        exact Or.inl rfl
      · cases moves
    case h_2 | h_3 =>
      split at moves
      · rename_i received
        cases moves
        exact Or.inr (Or.inl (congrArg Prod.snd received).symm)
      · cases moves
    case h_8 => cases moves

theorem Connection.move_aside {c d : Connection} {t : Turns} {stopping : Bool} {move : ConnectionMove}
    (moves : c.move? h t stopping move = some (d, after)) :
    after.timeline = h.timeline ∧ after.clock = h.clock := by
  rcases move_cases moves with rfl | rfl | ⟨removed, left, removes, rfl⟩
  · exact ⟨rfl, rfl⟩
  · exact Hub.receive_aside _ _ _
  · unfold Turns.remove? at removes
    split at removes
    · cases removes
    · cases removes
      exact Hub.closeMailbox_aside _ _

/-- The end of a broadcast does not touch the timeline. -/
theorem Turns.conclude_aside {t u : Turns} {caller : Caller} {tally : Tally}
    (concludes : t.conclude? h = some (caller, tally, u, after)) :
    after.timeline = h.timeline ∧ after.clock = h.clock := by
  obtain ⟨_, _, _, _, _, _, rfl⟩ := conclude_cases concludes
  exact ⟨rfl, rfl⟩

theorem Service.reportTo_hub (s : Service) (caller : Caller) (tally : Tally) :
    (s.reportTo caller tally).hub = s.hub := by
  cases caller <;> rfl

namespace Service

variable {s next : Service} {action : Action}

/-- The cases cover what a step of a service is. -/
theorem steps_of (steps : s.step? action = some next) : s.Steps action next := by
  cases action with
  | begin =>
    obtain ⟨_, begins, rfl⟩ := Option.map_eq_some_iff.mp steps
    exact .begin begins
  | visit =>
    obtain ⟨⟨_, _⟩, visits, rfl⟩ := Option.map_eq_some_iff.mp steps
    exact .visit visits
  | conclude =>
    obtain ⟨⟨_, _, _, _⟩, concludes, rfl⟩ := Option.map_eq_some_iff.mp steps
    exact .conclude concludes
  | look =>
    obtain ⟨d, driver, looks⟩ := Option.bind_eq_some_iff.mp steps
    obtain ⟨⟨_, _, _⟩, looked, same⟩ := Option.bind_eq_some_iff.mp looks
    cases same
    unfold Driver.look? at looked
    split at looked
    · split at looked
      · rename_i taken
        cases looked
        exact .send driver taken
      · rename_i taken
        cases looked
        exact .look driver taken
    · cases looked
  | plan =>
    obtain ⟨d, driver, plans⟩ := Option.bind_eq_some_iff.mp steps
    obtain ⟨⟨_, _⟩, planned, same⟩ := Option.bind_eq_some_iff.mp plans
    cases same
    unfold Driver.plan? at planned
    split at planned
    · cases planned
      exact .plan driver
    · cases planned
  | rest =>
    obtain ⟨d, driver, rests⟩ := Option.bind_eq_some_iff.mp steps
    obtain ⟨_, rested, same⟩ := Option.bind_eq_some_iff.mp rests
    cases same
    unfold Driver.rest? at rested
    split at rested
    · cases rested
      exact .rest driver
    · cases rested
  | stop =>
    obtain ⟨d, driver, stops⟩ := Option.bind_eq_some_iff.mp steps
    obtain ⟨_, stopped, same⟩ := Option.bind_eq_some_iff.mp stops
    cases same
    unfold Driver.stop? at stopped
    split at stopped
    · split at stopped
      · rename_i stopping
        cases stopped
        exact .stop driver stopping
      · cases stopped
    · cases stopped
  | rouse =>
    obtain ⟨d, driver, rouses⟩ := Option.bind_eq_some_iff.mp steps
    obtain ⟨⟨_, _⟩, roused, same⟩ := Option.bind_eq_some_iff.mp rouses
    cases same
    unfold Driver.rouse? at roused
    split at roused
    · split at roused
      · rename_i asked
        cases roused
        exact .rouse driver asked
      · cases roused
    · cases roused
  | ring =>
    obtain ⟨d, driver, rings⟩ := Option.bind_eq_some_iff.mp steps
    obtain ⟨_, rung, same⟩ := Option.bind_eq_some_iff.mp rings
    cases same
    unfold Driver.ring? at rung
    split at rung
    · split at rung
      · rename_i due
        cases rung
        exact .ring driver due
      · cases rung
    · cases rung
  | connection index move =>
    obtain ⟨c, connected, moves⟩ := Option.bind_eq_some_iff.mp steps
    obtain ⟨⟨_, _⟩, moved, same⟩ := Option.bind_eq_some_iff.mp moves
    cases same
    exact .connection connected moved

/-- Whatever a service does, its hub takes routine steps. -/
theorem step_follows {R : Hub → Hub → Prop} (routine : Hub.Routine R) (steps : s.step? action = some next) :
    R s.hub next.hub := by
  cases steps_of steps with
  | visit visits => exact Turns.visit_follows routine.toCourse visits
  | conclude concludes =>
    obtain ⟨same, clock⟩ := Turns.conclude_aside concludes
    rw [reportTo_hub]
    exact routine.aside same clock
  | send _ taken | look _ taken =>
    have takes := routine.takeDue s.hub
    rwa [taken] at takes
  | plan => exact routine.look _
  | rouse => exact routine.aside rfl rfl
  | connection _ moves =>
    obtain ⟨same, clock⟩ := Connection.move_aside moves
    exact routine.aside same clock
  | begin | rest | stop | ring => exact routine.refl _

/-- Whatever a service does by itself, its hub takes steps in it. -/
theorem step_run (steps : s.step? action = some next) : ∃ more, Hub.Run s.hub more next.hub :=
  step_follows Hub.run_routine steps

/-- A relation that holds between a service and whatever it comes to by itself, at any time. -/
structure Course (R : Service → Service → Prop) : Prop where
  refl : ∀ s, R s s
  trans : ∀ {s t u}, R s t → R t u → R s u
  step : ∀ {s t action}, s.step? action = some t → R s t
  clock : ∀ s time, R s (s.moveClock time)

namespace Course

variable {R : Service → Service → Prop} {last : Service} {fuel : Nat}

theorem next_step (course : Course R) (steps : s.next? = some last) : R s last := by
  obtain ⟨action, _, done⟩ := List.exists_of_findSome?_eq_some steps
  exact course.step done

/-- A relation along a course holds up to the end of a wait. -/
theorem runUntil (course : Course R) {done : Service → Bool} (runs : s.runUntil done fuel = some last) :
    R s last := by
  induction fuel generalizing s with
  | zero => cases runs
  | succ fuel ih =>
    unfold Service.runUntil at runs
    split at runs
    · cases runs
      exact course.refl _
    · split at runs
      · rename_i steps
        exact course.trans (course.next_step steps) (ih runs)
      · obtain ⟨time, _, rest⟩ := Option.bind_eq_some_iff.mp runs
        exact course.trans (course.clock s time) (ih rest)

/-- It holds as long as time passes. -/
theorem sleepUntil (course : Course R) {time : Nat} (sleeps : s.sleepUntil time fuel = some last) : R s last := by
  induction fuel generalizing s with
  | zero => cases sleeps
  | succ fuel ih =>
    unfold Service.sleepUntil at sleeps
    split at sleeps
    · rename_i steps
      exact course.trans (course.next_step steps) (ih sleeps)
    · split at sleeps
      · cases sleeps
        exact course.clock s time
      · rename_i t _
        split at sleeps
        · exact course.trans (course.clock s t) (ih sleeps)
        · cases sleeps
          exact course.clock s time

end Course

end Service

end LiveTiming
