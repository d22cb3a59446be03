import LiveTiming.Proofs.IdealTimeline

namespace LiveTiming

def Happening.firing? : Happening → Option (Nat × Event)
  | .fired e time => some (time, e)
  | _ => none

/-- The events that were sent, with their times, the earliest first. -/
def firings (past : List (Nat × Happening)) : List (Nat × Event) :=
  (past.filterMap (·.2.firing?)).reverse

/-- The numbers of the events that an errand is to cancel. -/
def Errand.cancels (f : Feed) : Errand → List EventId
  | .cancel id => [id]
  | .perform (.abort component) => f.races.eventsOf component
  | _ => []

/-- What can come of a service, with what happened to its events and when, the latest first. Its
operator does errands between any two strides of the driver. Time passes while the driver has
nothing to do, but not beyond its alarm. -/
inductive Service.Lives (start : Service) : List (Nat × Happening) → Service → Prop
  | start : Lives start [] start
  | stride {past more} {s next : Service} {sent} : Lives start past s → s.stride? = some (sent, next) →
      s.hub.Run more next.hub → more.filterMap Happening.firing? = sent.toList.map (s.hub.clock, ·) →
      (∀ id, .cancelled id ∉ more) → Lives start (more.map (s.hub.clock, ·) ++ past) next
  | errand {past more} {s next : Service} {errand act reply} : Lives start past s → errand.act? = some act →
      errand.Timely → s.Does errand reply next → s.hub.Run more next.hub →
      more.filterMap Happening.firing? = [] → (∀ id, .cancelled id ∈ more → id ∈ errand.cancels s.feed) →
      Lives start (more.map (s.hub.clock, ·) ++ past) next
  | pass {past time} {s : Service} : Lives start past s → s.stride? = none →
      (∀ alarm, s.nextTime? = some alarm → time ≤ alarm) → Lives start past (s.moveClock time)

/-- Every event that was sent was sent at its time, or when it was scheduled if that was later, and
every other one that was scheduled was cancelled afterwards or is to come no earlier than that. -/
structure Hub.Punctual (past : List (Nat × Happening)) (h : Hub) : Prop where
  known : ∀ e ∈ h.timeline.pending, ∃ date, (date, .posted e) ∈ past ∧ date ≤ h.clock ∧ h.clock ≤ max e.time date
  fired : ∀ now e time, (now, .fired e time) ∈ past →
    time = now ∧ ∃ date, (date, .posted e) ∈ past ∧ now = max e.time date
  fate : ∀ date e, (date, .posted e) ∈ past →
    date ≤ h.clock ∧ h.clock ≤ max e.time date ∧ e ∈ h.timeline.pending ∨
      (max e.time date, .fired e (max e.time date)) ∈ past ∨
      ∃ now, [(now, .cancelled e.id), (date, .posted e)].Sublist past

variable {h after : Hub} {past : List (Nat × Happening)} {more : List Happening} {e : Event} {now time : Nat}

theorem still_or_gone {events : Finset Event} (waiting : e ∈ events) (more : List Happening) :
    e ∈ pendingAfter events more ∨ (∃ now, .fired e now ∈ more) ∨ .cancelled e.id ∈ more := by
  induction more with
  | nil => exact Or.inl waiting
  | cons x more ih =>
    rcases ih with still | ⟨now, fired⟩ | cancelled
    · cases x with
      | posted other => exact Or.inl (Finset.mem_insert.mpr (Or.inr still))
      | cancelled id =>
        by_cases same : e.id = id
        · exact Or.inr (Or.inr (same ▸ List.mem_cons_self ..))
        · exact Or.inl (Finset.mem_filter.mpr ⟨still, same⟩)
      | fired other now =>
        by_cases same : e = other
        · exact Or.inr (Or.inl ⟨now, same ▸ List.mem_cons_self ..⟩)
        · exact Or.inl (Finset.mem_erase.mpr ⟨same, still⟩)
    · exact Or.inr (Or.inl ⟨now, List.mem_cons_of_mem _ fired⟩)
    · exact Or.inr (Or.inr (List.mem_cons_of_mem _ cancelled))

namespace Hub

theorem Run.fired_since (run : h.Run more after) (fired : .fired e now ∈ more) : h.clock ≤ now := by
  induction run with
  | start => cases fired
  | next previous step ih =>
    rcases List.mem_append.mp fired with new | old
    · cases step with
      | fire taken =>
        cases List.mem_singleton.mp new
        exact previous.clock_le
      | postAt | cancel => cases List.mem_singleton.mp new
      | rest | look | moveClock | aside => cases new
    · exact ih old

/-- An event that is taken while no time passes was to come before, or was scheduled then, and is
due. -/
theorem Run.fired_now (run : h.Run more after) (sound : h.timeline.Sound) (still : after.clock = h.clock)
    (fired : .fired e now ∈ more) :
    now = h.clock ∧ e.time ≤ h.clock ∧ (e ∈ h.timeline.pending ∨ .posted e ∈ more) := by
  obtain ⟨later, earlier, rfl⟩ := List.append_of_mem fired
  obtain ⟨member, due, bound, _⟩ := run.fired sound rfl
  have since := run.fired_since fired
  have same : now = h.clock := by omega
  refine ⟨same, same ▸ due, (posted_of_pending member).imp_right fun posted => ?_⟩
  exact List.mem_append_right _ (List.mem_cons_of_mem _ posted)

theorem Punctual.batch (punctual : h.Punctual past) (run : h.Run more after) (sound : h.timeline.Sound)
    (still : after.clock = h.clock) : after.Punctual (more.map (h.clock, ·) ++ past) := by
  have pending := (run.timeline sound).2
  have new {x : Happening} (member : x ∈ more) : (h.clock, x) ∈ more.map (h.clock, ·) ++ past :=
    List.mem_append_left _ (List.mem_map_of_mem member)
  have old {x : Nat × Happening} (member : x ∈ past) : x ∈ more.map (h.clock, ·) ++ past :=
    List.mem_append_right _ member
  -- What was noted was noted before, or it happened now.
  have split {now : Nat} {x : Happening} (member : (now, x) ∈ more.map (h.clock, ·) ++ past) :
      now = h.clock ∧ x ∈ more ∨ (now, x) ∈ past := by
    refine (List.mem_append.mp member).imp_left fun mapped => ?_
    obtain ⟨y, happened, same⟩ := List.mem_map.mp mapped
    cases same
    exact ⟨rfl, happened⟩
  refine ⟨fun e member => ?_, fun now e time member => ?_, fun date e member => ?_⟩
  · rw [pending] at member
    rw [still]
    rcases posted_of_pending member with waiting | posted
    · obtain ⟨date, known, bounds⟩ := punctual.known e waiting
      exact ⟨date, old known, bounds⟩
    · exact ⟨h.clock, new posted, le_rfl, le_max_right _ _⟩
  · rcases split member with ⟨rfl, fired⟩ | earlier
    · obtain ⟨rfl, due, waiting | posted⟩ := run.fired_now sound still fired
      · obtain ⟨date, known, dated, bound⟩ := punctual.known e waiting
        exact ⟨rfl, date, old known, by omega⟩
      · exact ⟨rfl, h.clock, new posted, (max_eq_right due).symm⟩
    · obtain ⟨same, date, posted, exactly⟩ := punctual.fired now e time earlier
      exact ⟨same, date, old posted, exactly⟩
  · rw [still, pending]
    rcases split member with ⟨rfl, posted⟩ | earlier
    · obtain ⟨later, before, rfl⟩ := List.append_of_mem posted
      have waiting : e ∈ pendingAfter h.timeline.pending (.posted e :: before) := Finset.mem_insert_self _ _
      rw [pendingAfter_append]
      rcases still_or_gone waiting later with waits | ⟨now, fired⟩ | cancelled
      · exact Or.inl ⟨le_rfl, le_max_right _ _, waits⟩
      · obtain ⟨rfl, due, _⟩ := run.fired_now sound still (List.mem_append_left _ fired)
        rw [max_eq_right due]
        exact Or.inr (Or.inl (new (List.mem_append_left _ fired)))
      · refine Or.inr (Or.inr ⟨h.clock, List.Sublist.trans ?_ (List.sublist_append_left _ _)⟩)
        rw [List.map_append]
        exact (List.singleton_sublist.mpr (List.mem_map_of_mem cancelled)).append
          (List.singleton_sublist.mpr (List.mem_map_of_mem (List.mem_cons_self ..)))
    · rcases punctual.fate date e earlier with ⟨dated, bound, waiting⟩ | sent | ⟨now, cancelled⟩
      · rcases still_or_gone waiting more with waits | ⟨now, fired⟩ | cancelled
        · exact Or.inl ⟨dated, bound, waits⟩
        · obtain ⟨rfl, due, _⟩ := run.fired_now sound still fired
          have exactly : max e.time date = h.clock := by omega
          exact Or.inr (Or.inl (exactly ▸ new fired))
        · exact Or.inr (Or.inr ⟨h.clock, (List.singleton_sublist.mpr (List.mem_map_of_mem cancelled)).append
            (List.singleton_sublist.mpr earlier)⟩)
      · exact Or.inr (Or.inl (old sent))
      · exact Or.inr (Or.inr ⟨now, cancelled.trans (List.sublist_append_right _ _)⟩)

/-- Time that passes before the first event to come is in time for every event. -/
theorem Punctual.moveClock (punctual : h.Punctual past) (early : ∀ e ∈ h.timeline.pending, time ≤ e.time) :
    (h.moveClock time).Punctual past where
  known e member := by
    obtain ⟨date, known, dated, bound⟩ := punctual.known e member
    have soon := early e member
    refine ⟨date, known, le_max_of_le_left dated, max_le bound (le_max_of_le_left soon)⟩
  fired := punctual.fired
  fate date e member := by
    refine (punctual.fate date e member).imp_left fun ⟨dated, bound, waits⟩ => ?_
    have soon := early e waits
    exact ⟨le_max_of_le_left dated, max_le bound (le_max_of_le_left soon), waits⟩

end Hub

theorem no_firing_of_posts (posts : ∀ x ∈ more, ∃ e, x = .posted e) : more.filterMap Happening.firing? = [] := by
  refine List.filterMap_eq_nil_iff.mpr fun x member => ?_
  obtain ⟨e, rfl⟩ := posts x member
  rfl

theorem no_cancel_of_posts (posts : ∀ x ∈ more, ∃ e, x = .posted e) (id : EventId) : .cancelled id ∉ more := by
  intro member
  obtain ⟨e, same⟩ := posts _ member
  cases same

theorem Feed.perform_clock {f : Feed} (prompt : f.hub.Prompt) (c : Command) :
    (f.perform c).2.hub.clock = f.hub.clock := by
  have rescheduled := f.react_rescheduled c
  rcases reacts : f.react c with ⟨answer | m, g⟩ <;> rw [reacts] at rescheduled
  · rw [perform_answer reacts]
    exact rescheduled.clock
  · rw [perform, reacts]
    exact ((rescheduled.prompt prompt).broadcast m).2.trans rescheduled.clock

section Errands

variable {errand : Errand} {act : Feed → Reply × Feed} {f : Feed}

theorem Errand.Timely.clock (timely : errand.Timely) (acts : errand.act? = some act) (prompt : f.hub.Prompt) :
    (act f).2.hub.clock = f.hub.clock := by
  rcases act_cases acts with ⟨c, rfl, rfl⟩ | ⟨m, rfl, rfl⟩ | ⟨change, atOnce, rfl⟩
  · exact Feed.perform_clock prompt c
  · exact (prompt.broadcast m).2
  · cases errand with
    | perform | broadcast | sendDue | sleep => cases atOnce
    | jump => exact timely.elim
    | post | postAt | cancel | register | remove =>
      cases atOnce
      rfl
    | receive i count =>
      cases atOnce
      dsimp only
      rw [Hub.receive_adjusts, Hub.adjust_clock]
    | close i =>
      cases atOnce
      exact Hub.adjust_clock _ _ _

/-- An errand that sends no event schedules some, or cancels those that it is to cancel. -/
theorem Errand.act_run (acts : errand.act? = some act) (sound : f.hub.timeline.Sound) :
    ∃ more, f.hub.Run more (act f).2.hub ∧ more.filterMap Happening.firing? = [] ∧
      ∀ id, .cancelled id ∈ more → id ∈ errand.cancels f := by
  have grown {after : Hub} (grows : f.hub.Grows after) : ∃ more, f.hub.Run more after ∧
      more.filterMap Happening.firing? = [] ∧ ∀ id, .cancelled id ∈ more → id ∈ errand.cancels f := by
    obtain ⟨more, run, posts⟩ := grows
    exact ⟨more, run, no_firing_of_posts posts, fun id member => absurd member (no_cancel_of_posts posts id)⟩
  rcases act_cases acts with ⟨c, rfl, rfl⟩ | ⟨m, rfl, rfl⟩ | ⟨change, atOnce, rfl⟩
  · rcases f.perform_grows c with ⟨component, rfl⟩ | grows
    · refine ⟨_, (Hub.cancelAll_spec sound (f.races.eventsOf component)).1, ?_, fun id member => ?_⟩
      · simp [Happening.firing?, List.filterMap_eq_nil_iff]
      · simpa [Errand.cancels] using member
    · exact grown grows
  · exact grown (f.hub.broadcast_grows m)
  · cases errand with
    | perform | broadcast | sendDue | sleep => cases atOnce
    | post | postAt =>
      cases atOnce
      exact grown (.postAt _ _ _)
    | cancel id =>
      cases atOnce
      refine ⟨[.cancelled id], Hub.Step.run .cancel, rfl, fun other member => ?_⟩
      cases List.mem_singleton.mp member
      exact List.mem_singleton_self id
    | register | remove =>
      cases atOnce
      exact grown (.aside rfl rfl)
    | receive i count =>
      cases atOnce
      dsimp only
      rw [Hub.receive_adjusts]
      exact grown (.aside (Hub.adjust_timeline _ _ _) (Hub.adjust_clock _ _ _))
    | close i =>
      cases atOnce
      exact grown (.aside (Hub.adjust_timeline _ _ _) (Hub.adjust_clock _ _ _))
    | jump =>
      cases atOnce
      exact grown (.moveClock _ _)

end Errands

namespace Service

variable {s next t start : Service} {sent : Option Event}

theorem Quiet.stride_clock (quiet : s.Quiet) (strides : s.stride? = some (sent, next)) :
    next.hub.clock = s.hub.clock := by
  rcases stride_cases strides with ⟨e, after, _, taken, _, rfl⟩ | ⟨_, _, _, _, _, tidied, rfl⟩
  · have prompt := (Hub.takeDue_rescheduled taken).prompt quiet.prompt
    exact (prompt.broadcast e.message).2.trans (Hub.takeDue_eq taken).2.1
  · exact tidied.rest.clock

/-- A driver cancels nothing, and sends one event at most in a stride. -/
theorem stride_run (strides : s.stride? = some (sent, next)) :
    ∃ more, s.hub.Run more next.hub ∧ more.filterMap Happening.firing? = sent.toList.map (s.hub.clock, ·) ∧
      ∀ id, .cancelled id ∉ more := by
  rcases stride_cases strides with ⟨e, after, _, taken, rfl, rfl⟩ | ⟨rfl, _, _, _, _, tidied, rfl⟩
  · obtain ⟨more, run, posts⟩ := after.broadcast_grows e.message
    refine ⟨more ++ [.fired e s.hub.clock], (Hub.Step.run (.fire taken)).trans run, ?_, fun id member => ?_⟩
    · simp [List.filterMap_append, no_firing_of_posts posts, Happening.firing?]
    · rcases List.mem_append.mp member with posted | fired
      · exact no_cancel_of_posts posts id posted
      · cases List.mem_singleton.mp fired
  · exact ⟨[], tidied.run, rfl, fun _ => List.not_mem_nil⟩

theorem Lives.atWork (lives : start.Lives past s) (atWork : start.AtWork) : s.AtWork := by
  induction lives with
  | start => exact atWork
  | stride _ strides _ _ _ ih => exact ih.stride strides
  | errand _ acts timely does _ _ _ ih => exact ih.acts acts timely does
  | pass _ _ _ ih => exact ih.moveClock _

/-- A driver at work is punctual, whatever its operator does and whenever. -/
theorem Lives.punctual (lives : start.Lives past s) (atWork : start.AtWork)
    (fresh : start.hub.timeline.pending = ∅) : s.hub.Punctual past := by
  induction lives with
  | start => exact ⟨by simp [fresh], nofun, nofun⟩
  | stride lives strides run _ _ ih =>
    have quiet := (lives.atWork atWork).quiet
    exact ih.batch run quiet.sound (quiet.stride_clock strides)
  | errand lives acts timely does run _ _ ih =>
    have quiet := (lives.atWork atWork).quiet
    obtain ⟨_, ⟨_, rfl⟩, _⟩ := quiet.acts acts does
    exact ih.batch run quiet.sound (timely.clock acts quiet.prompt)
  | pass lives rests soon ih =>
    obtain ⟨deadline, _, next, meets, _⟩ := (lives.atWork atWork).waits rests
    refine ih.moveClock fun e member => ?_
    obtain ⟨alarm, rfl, bound⟩ := meets e member
    exact (soon alarm next).trans bound

theorem firings_batch (now : Nat) (more : List Happening) (past : List (Nat × Happening)) :
    firings (more.map (now, ·) ++ past) = firings past ++ (more.filterMap Happening.firing?).reverse := by
  rw [firings, List.filterMap_append, List.reverse_append, List.filterMap_map]
  rfl

variable {fired : List (Nat × Event)} {errands : List Errand} {replies : List Reply}

theorem Sleeps.lives (sleeps : s.Sleeps time fired t) (lives : start.Lives past s) :
    ∃ later, start.Lives later t ∧ firings later = firings past ++ fired := by
  induction sleeps generalizing past with
  | @stride s next t sent fired strides _ ih =>
    obtain ⟨more, run, sends, uncancelled⟩ := stride_run strides
    obtain ⟨later, ends, firings⟩ := ih (lives.stride strides run sends uncancelled)
    have first : (sent.toList.map (s.hub.clock, ·)).reverse = sent.toList.map (s.hub.clock, ·) := by
      cases sent <;> rfl
    refine ⟨later, ends, ?_⟩
    rw [firings, firings_batch, sends, first, List.append_assoc]
  | wait rests rings _ _ ih =>
    refine ih (lives.pass rests fun alarm same => ?_)
    rw [rings] at same
    cases same
    exact le_rfl
  | rest rests late =>
    exact ⟨past, lives.pass rests fun alarm rings => (late alarm rings).le, (List.append_nil _).symm⟩

theorem Attends.lives (attends : s.Attends errands replies fired t) (timely : ∀ errand ∈ errands, errand.Timely)
    (lives : start.Lives past s) (atWork : start.AtWork) :
    ∃ later, start.Lives later t ∧ firings later = firings past ++ fired := by
  induction attends generalizing past with
  | done => exact ⟨past, lives, (List.append_nil _).symm⟩
  | @next s t u errand reply fired later replies others does fires _ ih =>
    have first := timely errand (List.mem_cons_self ..)
    have rest := fun errand member => timely errand (List.mem_cons_of_mem _ member)
    suffices ∃ after, start.Lives after t ∧ firings after = firings past ++ fired by
      obtain ⟨after, lives, sent⟩ := this
      obtain ⟨last, ends, firings⟩ := ih rest lives
      exact ⟨last, ends, by rw [firings, sent, List.append_assoc]⟩
    cases acts : errand.act? with
    | some act =>
      have quiet := (lives.atWork atWork).quiet
      obtain ⟨_, ⟨_, same⟩, _⟩ := quiet.acts acts does
      obtain ⟨more, run, silent, cancels⟩ := Errand.act_run acts quiet.sound
      have ran : s.hub.Run more t.hub := by
        rw [same]
        exact run
      obtain rfl := (fires_act acts).mp fires
      refine ⟨_, lives.errand acts first does ran silent cancels, ?_⟩
      rw [firings_batch, silent]
      rfl
    | none =>
      rcases Errand.act_none acts with rfl | ⟨duration, rfl⟩
      · exact first.elim
      · exact Sleeps.lives fires lives

theorem start_at_work (config : Config) {subscribers : List Subscriber} (prompt : ∀ x ∈ subscribers, x.Prompt)
    (g : Generator) : ({ feed := .start config subscribers g, driver := some .looking } : Service).AtWork :=
  ⟨quiet_start config prompt g nofun, watchful_of_driver rfl Timeline.sound_empty trivial, rfl, _, rfl, nofun⟩

/-- A driver that is at work from the start realises the ideal course. What an operator's errands and
sleeps come to, with the frames that the subscribers are given and their times, is what comes of the
course in which the first event to come is sent again and again, each at its own time; and as far as
that course goes, so does the driver. Whenever the operator does his errands, between any two strides
of the driver, every event that nobody cancels is sent at its own time exactly, or when it was
scheduled if that was later; and the driver always goes on until it sends an event or none is due. -/
theorem driver_keeps_ideal_time (config : Config) {subscribers : List Subscriber}
    (prompt : ∀ x ∈ subscribers, x.Prompt) (g : Generator) {errands : List Errand}
    (timely : ∀ errand ∈ errands, errand.Timely) :
    let start : Service := { feed := .start config subscribers g, driver := some .looking }
    (∀ replies fired t, start.Attends errands replies fired t →
      (∃ ideal, start.feed.Plays errands fired ideal ∧ t.feed.Matches ideal) ∧
      ∃ past, start.Lives past t ∧ firings past = fired) ∧
    (∀ fired ideal, start.feed.Plays errands fired ideal →
      ∃ replies t, start.Attends errands replies fired t ∧ t.feed.Matches ideal) ∧
    ∀ past s, start.Lives past s → s.hub.Punctual past ∧ (∀ time, s.Settles time) ∧
      (s.stride? = none → ∀ e ∈ s.hub.timeline.pending, s.hub.clock < e.time) := by
  intro start
  have atWork : start.AtWork := start_at_work config prompt g
  have agree : start.feed.Agree nobody False start.feed :=
    ⟨rfl, .refl atWork.quiet.sound (Roster.ofCount_distinct _) nofun⟩
  refine ⟨fun replies fired t attends => ⟨?_, ?_⟩, fun fired ideal plays => ?_, fun past s lives => ?_⟩
  · obtain ⟨ideal, plays, ends⟩ := attends.plays timely atWork agree
    exact ⟨ideal, plays, ends.matches⟩
  · exact attends.lives timely .start atWork
  · obtain ⟨replies, t, attends, ends⟩ := plays.attends timely atWork agree
    exact ⟨replies, t, attends, ends.matches⟩
  · have goesOn := lives.atWork atWork
    refine ⟨lives.punctual atWork rfl, goesOn.settles, fun rests e member => ?_⟩
    obtain ⟨deadline, _, _, meets, early⟩ := goesOn.waits rests
    obtain ⟨alarm, rfl, bound⟩ := meets e member
    exact (early alarm rfl).trans_le bound

/-- A subscriber is given the frame of an event at its time, while the operator sleeps. -/
theorem event_is_sent_on_time :
    let start : Service := { feed := .start {} [.log] (.ofWords fun _ => 0), driver := some .looking }
    let e : Event := ⟨5, 0, .raw "on time"⟩
    ∃ replies t, start.Attends [.postAt 5 e.message, .sleep 10] replies [(5, e)] t ∧
      t.hub.journal = #[⟨0, 5, Frame.encode e.message⟩] := by
  intro start e
  have prompt : ∀ x ∈ [Subscriber.log], x.Prompt := by
    intro x member
    obtain rfl := List.mem_singleton.mp member
    trivial
  have timely : ∀ errand ∈ [Errand.postAt 5 e.message, .sleep 10], errand.Timely := by
    simp [Errand.Timely]
  let posted : Hub := (start.hub.postAt 5 e.message).2
  let rest : Hub := { posted.moveClock 5 with timeline := (posted.timeline.cancel 0).2 }
  have sound : posted.timeline.Sound := Timeline.insert_sound Timeline.sound_empty _ _
  have pending : posted.timeline.pending = {e} := Timeline.insert_pending Timeline.sound_empty _ _
  have empty : rest.timeline.pending = ({e} : Finset Event).erase e := by
    rw [Timeline.cancel_pending, pending]
    decide
  have without : (posted.moveClock 5).Without e rest :=
    ⟨rfl, Timeline.cancel_sound sound 0, by rw [empty]; exact congrArg (·.erase e) pending.symm, rfl⟩
  have ends : (rest.broadcast e.message).2.Ideal 10 [] ((rest.broadcast e.message).2.moveClock 10) := by
    refine .rest fun other member => ?_
    have none : other ∈ rest.timeline.pending := member
    simp [empty] at none
  have course : posted.Ideal 10 [(5, e)] ((rest.broadcast e.message).2.moveClock 10) := by
    refine .send ?_ ?_ (by decide) without ends
    · simp [pending]
    · simp [pending, Event.le]
  let ideal : Feed := { start.feed with hub := (rest.broadcast e.message).2.moveClock 10 }
  have sleeps : ({ start.feed with hub := posted } : Feed).Plays [.sleep 10] ([(5, e)] ++ []) ideal :=
    @Feed.Plays.sleep { start.feed with hub := posted } _ _ _ _ _ _ course .done
  have plays : start.feed.Plays [.postAt 5 e.message, .sleep 10] [(5, e)] ideal :=
    @Feed.Plays.act start.feed _ _ _ _ _ rfl sleeps
  obtain ⟨replies, t, attends, same⟩ := (driver_keeps_ideal_time {} prompt _ timely).2.1 _ _ plays
  refine ⟨replies, t, attends, ?_⟩
  have journal := congrArg Hub.journal same.hub
  exact journal.symm.trans rfl

end Service

end LiveTiming
