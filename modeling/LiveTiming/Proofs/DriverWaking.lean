import LiveTiming.Proofs.ServiceRun

namespace LiveTiming

/-- What somebody other than the driver does to a hub. Whoever schedules an event, or cancels one
that is to come, asks for the timeline to be looked at again. -/
inductive Hub.Touch : Hub → Hub → Prop
  | postAt {h time m} : Touch h (h.postAt time m).2
  | cancel {h id} : Touch h (h.cancel id).2
  | takeDue {h} : Touch h h.takeDue.2
  | moveClock {h time} : Touch h (h.moveClock time)
  | aside {h after} : after.timeline = h.timeline → after.wake = h.wake → Touch h after

/-- What can come of a service when others work on its hub meanwhile. Between any two of its steps
they take any number of theirs, one at a time, which may change everything but the driver. -/
inductive Service.Amid (start : Service) : Service → Prop
  | start : Amid start start
  | act {s next action} : Amid start s → s.step? action = some next → Amid start next
  | others {s after} : Amid start s → s.hub.Touch after.hub → after.driver = s.driver → Amid start after

/-- No event is to come before a deadline. -/
def Timeline.Meets (t : Timeline) (deadline : Option Nat) : Prop :=
  ∀ e ∈ t.pending, ∃ time, deadline = some time ∧ time ≤ e.time

/-- A driver that has found its deadline will be woken, or no event is to come before that. -/
def Driver.OnGuard (h : Hub) : Driver → Prop
  | .planned deadline | .asleep deadline => h.wake = true ∨ h.timeline.Meets deadline
  | _ => True

/-- The timeline is sound, and the driver misses no event. -/
structure Service.Watchful (s : Service) : Prop where
  sound : s.hub.timeline.Sound
  onGuard : ∀ d, s.driver = some d → d.OnGuard s.hub

variable {h after : Hub} {t u : Timeline} {d : Driver} {turns queue : Turns}
  {s next start : Service}

namespace Timeline

variable {deadline : Option Nat}

/-- A deadline that is early enough for some events is so for fewer. -/
theorem Meets.subset (meets : t.Meets deadline) (fewer : u.pending ⊆ t.pending) : u.Meets deadline :=
  fun e member => meets e (fewer member)

/-- The time that is found for the next event is the time of the first one, if there is any. -/
theorem nextTime_meets (sound : t.Sound) : t.nextTime.2.Meets t.nextTime.1 := by
  intro e member
  rw [nextTime_pending sound] at member
  cases top : t.settleTop.heap.peek? with
  | none =>
    rw [settleTop_peek_none sound top] at member
    exact absurd member (Finset.notMem_empty e)
  | some first =>
    have least := Event.le_iff.mp ((settleTop_peek sound top).2 e member)
    have found : t.nextTime.1 = some first.time := by
      simp only [nextTime, top, Option.map_some]
    exact ⟨first.time, found, by omega⟩

/-- The next time is the time of an event to come. -/
theorem nextTime_some {time : Nat} (sound : t.Sound) (found : t.nextTime.1 = some time) :
    ∃ e ∈ t.pending, e.time = time := by
  obtain ⟨e, top, rfl⟩ := Option.map_eq_some_iff.mp found
  exact ⟨e, (settleTop_peek sound top).1, rfl⟩

end Timeline

namespace Hub

/-- What others do keeps the timeline sound. -/
theorem Touch.sound (touch : h.Touch after) (sound : h.timeline.Sound) : after.timeline.Sound := by
  cases touch with
  | postAt => exact Timeline.insert_sound sound _ _
  | cancel => exact Timeline.cancel_sound sound _
  | takeDue =>
    rcases taken : h.takeDue with ⟨_ | e, rest⟩
    · exact (Timeline.takeDue_none sound (takeDue_eq taken).1).2.1
    · exact (Timeline.takeDue_some sound (takeDue_eq taken).1).2.2.2.1
  | moveClock => exact sound
  | aside same _ => exact same ▸ sound

/-- Others do not take back that somebody asked for the timeline to be looked at, and unless they
ask for it themselves they add no event to those to come. -/
theorem Touch.wakes (touch : h.Touch after) (sound : h.timeline.Sound) :
    after.wake = true ∨ after.wake = h.wake ∧ after.timeline.pending ⊆ h.timeline.pending := by
  cases touch with
  | postAt => exact Or.inl rfl
  | @cancel id =>
    by_cases answer : (h.cancel id).1 = true
    · have asked : (h.cancel id).2.wake = (h.wake || (h.cancel id).1) := rfl
      exact Or.inl (by simp [asked, answer])
    · have quiet : (h.cancel id).2.wake = (h.wake || (h.cancel id).1) := rfl
      refine Or.inr ⟨by simp [quiet, answer], ?_⟩
      have pending : (h.cancel id).2.timeline.pending = h.timeline.pending.filter (·.id ≠ id) :=
        Timeline.cancel_pending _ _
      exact pending ▸ Finset.filter_subset _ _
  | takeDue =>
    refine Or.inr ⟨rfl, ?_⟩
    rcases taken : h.takeDue with ⟨_ | e, rest⟩
    · obtain ⟨_, _, same, _⟩ := Timeline.takeDue_none sound (takeDue_eq taken).1
      exact same.subset
    · obtain ⟨_, _, _, _, same, _⟩ := Timeline.takeDue_some sound (takeDue_eq taken).1
      exact same ▸ Finset.erase_subset _ _
  | moveClock => exact Or.inr ⟨rfl, subset_rfl⟩
  | aside same wake => exact Or.inr ⟨wake, by rw [same]⟩

/-- Any number of steps of others. -/
def Touches : Hub → Hub → Prop :=
  Relation.ReflTransGen Touch

theorem postAll_touches (h : Hub) (followUps : List (Nat × Message)) : h.Touches (h.postAll followUps) := by
  induction followUps generalizing h with
  | nil => exact .refl
  | cons followUp rest ih => exact .head .postAt (ih _)

/-- A subscriber that schedules an event asks for the driver to look. -/
theorem take_touches (h : Hub) (subscriber : Nat) (frame : Bytes) :
    h.Touches (h.take subscriber frame).2 := by
  unfold take
  dsimp only
  split
  · exact .single (.aside rfl rfl)
  · refine .head ?_ (postAll_touches _ _)
    exact .aside rfl rfl

end Hub

theorem Turns.visit_touches (visits : turns.visit? h = some (queue, after)) : h.Touches after := by
  obtain ⟨_, _, _, _, _, ⟨rfl, _⟩ | ⟨rfl, _⟩⟩ := visit_cases visits
  · exact Hub.take_touches _ _ _
  · exact .refl

/-- The end of a broadcast asks for nothing. -/
theorem Turns.conclude_quiet {caller : Caller} {tally : Tally}
    (concludes : turns.conclude? h = some (caller, tally, queue, after)) :
    after.timeline = h.timeline ∧ after.wake = h.wake := by
  obtain ⟨_, _, _, _, _, _, rfl⟩ := conclude_cases concludes
  exact ⟨rfl, rfl⟩

theorem Hub.receive_quiet (h : Hub) (subscriber count : Nat) :
    (h.receive subscriber count).2.wake = h.wake := by
  unfold Hub.receive
  split <;> rfl

theorem Connection.move_quiet {c left : Connection} {stopping : Bool} {move : ConnectionMove}
    (moves : c.move? h turns stopping move = some (left, after)) :
    after.timeline = h.timeline ∧ after.wake = h.wake := by
  refine ⟨(move_aside moves).1, ?_⟩
  rcases move_cases moves with rfl | rfl | ⟨removed, left, removes, rfl⟩
  · rfl
  · exact Hub.receive_quiet _ _ _
  · unfold Turns.remove? at removes
    split at removes
    · cases removes
    · cases removes
      unfold Hub.closeMailbox
      split <;> rfl

/-- Whatever others do, a driver that sleeps too long has been asked to look. -/
theorem Driver.OnGuard.touch (onGuard : d.OnGuard h) (touch : h.Touch after) (sound : h.timeline.Sound) :
    d.OnGuard after := by
  cases d with
  | planned deadline | asleep deadline =>
    rcases touch.wakes sound with asked | ⟨same, fewer⟩
    · exact Or.inl asked
    · rcases onGuard with asked | meets
      · exact Or.inl (same.trans asked)
      · exact Or.inr (meets.subset fewer)
  | looking | sending | planning | stopped => trivial

namespace Service

theorem Watchful.touch (watchful : s.Watchful) (touch : s.hub.Touch next.hub)
    (same : next.driver = s.driver) : next.Watchful where
  sound := touch.sound watchful.sound
  onGuard d driver := (watchful.onGuard d (same ▸ driver)).touch touch watchful.sound

/-- So it stays watchful whatever they do. -/
theorem Watchful.touches (watchful : s.Watchful) (touches : s.hub.Touches next.hub)
    (same : next.driver = s.driver) : next.Watchful := by
  suffices ∀ hub, s.hub.Touches hub → (s.withHub hub).Watchful by
    obtain ⟨sound, onGuard⟩ := this _ touches
    exact ⟨sound, fun d driver => onGuard d (same ▸ driver)⟩
  intro hub touches
  induction touches with
  | refl => exact ⟨watchful.sound, watchful.onGuard⟩
  | tail _ touch ih => exact ih.touch touch rfl

theorem watchful_of_driver (driver : s.driver = some d) (sound : s.hub.timeline.Sound) (onGuard : d.OnGuard s.hub) :
    s.Watchful := by
  refine ⟨sound, fun e same => ?_⟩
  rw [driver] at same
  cases same
  exact onGuard

/-- It stays watchful whatever the service does by itself. -/
theorem Watchful.act {action : Action} (watchful : s.Watchful) (steps : s.step? action = some next) :
    next.Watchful := by
  cases steps_of steps with
  | begin => exact ⟨watchful.sound, watchful.onGuard⟩
  | visit visits => exact watchful.touches (Turns.visit_touches visits) rfl
  | @conclude caller tally turns hub concludes =>
    obtain ⟨timeline, wake⟩ := Turns.conclude_quiet concludes
    have left : ({ s.withHub hub with turns } : Service).Watchful := watchful.touch (.aside timeline wake) rfl
    cases caller with
    | driver =>
      refine ⟨left.sound, fun d driver => ?_⟩
      obtain ⟨before, was, rfl⟩ := Option.map_eq_some_iff.mp driver
      have onGuard := left.onGuard before was
      cases before <;> exact onGuard
    | operator | background => exact ⟨left.sound, left.onGuard⟩
  | send _ taken | look _ taken =>
    have sound : s.hub.takeDue.2.timeline.Sound := Hub.Touch.takeDue.sound watchful.sound
    rw [taken] at sound
    exact watchful_of_driver rfl sound trivial
  | plan =>
    have sound := Timeline.nextTime_sound watchful.sound
    exact watchful_of_driver rfl sound (Or.inr (Timeline.nextTime_meets watchful.sound))
  | @rest deadline driver =>
    have onGuard : (Driver.planned deadline).OnGuard s.hub := watchful.onGuard _ driver
    exact watchful_of_driver rfl watchful.sound onGuard
  | stop | rouse | ring => exact watchful_of_driver rfl watchful.sound trivial
  | connection _ moves =>
    obtain ⟨timeline, wake⟩ := Connection.move_quiet moves
    exact watchful.touch (.aside timeline wake) rfl

/-- It stays watchful at every moment of every course. -/
theorem Amid.watchful (reached : start.Amid s) (watchful : start.Watchful) : s.Watchful := by
  induction reached with
  | start => exact watchful
  | act _ steps ih => exact ih.act steps
  | others _ touch same ih => exact ih.touch touch same

/-- The actions of a driver that does not wait for a broadcast. -/
def driving : List Action :=
  [.look, .plan, .rest, .rouse, .ring]

/-- A driver that misses nothing can go on when an event is due, unless it waits for a broadcast or
has stopped. -/
theorem Watchful.goes_on (watchful : s.Watchful) {e : Event} (member : e ∈ s.hub.timeline.pending)
    (due : e.time ≤ s.hub.clock) (driver : s.driver = some d) (waits : d ≠ .sending) (runs : d ≠ .stopped) :
    ∃ action ∈ driving, (s.step? action).isSome = true := by
  have onGuard := watchful.onGuard d driver
  cases d with
  | looking =>
    refine ⟨.look, by simp [driving], ?_⟩
    rcases taken : s.hub.takeDue with ⟨_ | e, rest⟩ <;> simp [step?, driver, Driver.look?, taken]
  | planning => exact ⟨.plan, by simp [driving], by simp [step?, driver, Driver.plan?]⟩
  | planned deadline => exact ⟨.rest, by simp [driving], by simp [step?, driver, Driver.rest?]⟩
  | asleep deadline =>
    rcases onGuard with asked | meets
    · exact ⟨.rouse, by simp [driving], by simp [step?, driver, Driver.rouse?, asked]⟩
    · obtain ⟨time, rfl, early⟩ := meets e member
      have rung : time ≤ s.hub.clock := early.trans due
      exact ⟨.ring, by simp [driving], by simp [step?, driver, Driver.ring?, rung]⟩
  | sending => exact absurd rfl waits
  | stopped => exact absurd rfl runs

/-- A driver that sleeps, and that nobody has asked to look at the timeline again, has its alarm set
no later than the first event to come, whatever others have done between any two of its steps. So
it can go on whenever an event is due. -/
theorem driver_misses_no_event (reached : start.Amid s) (sound : start.hub.timeline.Sound)
    (looks : start.driver = some .looking) :
    (∀ deadline, s.driver = some (.asleep deadline) → s.hub.wake = false →
      (∀ e ∈ s.hub.timeline.pending, ∃ time, deadline = some time ∧ time ≤ e.time) ∧
      ∀ first, s.hub.timeline.nextTime.1 = some first → ∃ time, deadline = some time ∧ time ≤ first) ∧
    ∀ e ∈ s.hub.timeline.pending, e.time ≤ s.hub.clock → ∀ d, s.driver = some d → d ≠ .sending →
      d ≠ .stopped → ∃ action ∈ driving, (s.step? action).isSome = true := by
  have watchful := reached.watchful (watchful_of_driver looks sound trivial)
  refine ⟨fun deadline sleeps quiet => ?_, fun e member due d driver waits runs => ?_⟩
  · have meets : s.hub.timeline.Meets deadline :=
      (watchful.onGuard _ sleeps).resolve_left (by simp [quiet])
    refine ⟨meets, fun first found => ?_⟩
    obtain ⟨e, member, rfl⟩ := Timeline.nextTime_some watchful.sound found
    exact meets e member
  · exact watchful.goes_on member due driver waits runs

/-- A driver is woken by an event that was scheduled before it went to sleep, finds nothing due, and
sleeps until that event is. -/
theorem driver_sleeps_until_event :
    let hub := (({} : Hub).postAt 10 (.raw "later")).2
    let start : Service :=
      { feed := { config := {}, hub, generator := .ofWords fun _ => 0 }, driver := some .looking }
    ∃ s, start.Amid s ∧ s.driver = some (.asleep (some 10)) ∧ s.hub.wake = false ∧
      s.hub.timeline.pending = {⟨10, 0, .raw "later"⟩} ∧
      ∀ e ∈ s.hub.timeline.pending, ∃ time, some 10 = some time ∧ time ≤ e.time := by
  intro hub start
  let asleep : Service := { start.withHub { hub with wake := false } with driver := some (.asleep (some 10)) }
  have reached : start.Amid asleep := by
    refine @Amid.act _ { asleep with driver := some (.planned (some 10)) } _ .rest ?_ rfl
    refine @Amid.act _ { asleep with driver := some .planning } _ .plan ?_ rfl
    refine @Amid.act _ { asleep with driver := some .looking } _ .look ?_ rfl
    refine @Amid.act _ { asleep.withHub hub with driver := some (.asleep (some 10)) } _ .rouse ?_ rfl
    refine @Amid.act _ { asleep.withHub hub with driver := some (.planned (some 10)) } _ .rest ?_ rfl
    refine @Amid.act _ { asleep.withHub hub with driver := some .planning } _ .plan ?_ rfl
    exact @Amid.act _ start _ .look .start rfl
  have sound : start.hub.timeline.Sound := Timeline.insert_sound Timeline.sound_empty _ _
  have pending : asleep.hub.timeline.pending = {⟨10, 0, .raw "later"⟩} :=
    Timeline.insert_pending Timeline.sound_empty _ _
  exact ⟨asleep, reached, rfl, rfl, pending, ((driver_misses_no_event reached sound rfl).1 _ rfl rfl).1⟩

end Service

end LiveTiming
