import LiveTiming.Proofs.DuePass
import LiveTiming.Proofs.RaceOrder
import LiveTiming.Proofs.RundownForm

namespace LiveTiming

/-- When a cue is due, and its message, if the race starts at `base`. -/
def Cue.post (unit : Duration) (base : Nat) (cue : Cue) : Nat × Message :=
  (base + (cue.offset.realTime unit).toNanos, cue.message)

variable {f : Feed} {r : RaceRequest} {rundown : Rundown} {reason : RaceRejection}

namespace Rundown

theorem events_posts (rundown : Rundown) (unit : Duration) (base : Nat) (first : EventId) :
    (rundown.events unit base first).map (fun e => (e.time, e.message)) = rundown.cues.map (·.post unit base) := by
  rw [events, List.map_map]
  calc (rundown.cues.zipIdx first).map _
    _ = ((rundown.cues.zipIdx first).map Prod.fst).map (·.post unit base) := by rw [List.map_map]; rfl
    _ = rundown.cues.map (·.post unit base) := by rw [List.zipIdx_map_fst]

theorem events_times (rundown : Rundown) (unit : Duration) (base : Nat) (first : EventId) :
    (rundown.events unit base first).map Event.time =
      rundown.cues.map (fun cue => base + (cue.offset.realTime unit).toNanos) := by
  have times := congrArg (List.map Prod.fst) (rundown.events_posts unit base first)
  rwa [List.map_map, List.map_map] at times

theorem events_messages (rundown : Rundown) (unit : Duration) (base : Nat) (first : EventId) :
    (rundown.events unit base first).map Event.message = rundown.cues.map Cue.message := by
  have messages := congrArg (List.map Prod.snd) (rundown.events_posts unit base first)
  rwa [List.map_map, List.map_map] at messages

theorem events_ids (rundown : Rundown) (unit : Duration) (base : Nat) (first : EventId) :
    (rundown.events unit base first).map Event.id = List.range' first rundown.cues.length := by
  rw [events, List.map_map]
  exact List.zipIdx_map_snd first rundown.cues

/-- The deadlines never decrease along a rundown whose cues stand in order. -/
theorem times_ordered (ordered : rundown.cues.Pairwise Cue.Before) (unit : Duration) (base : Nat)
    (first : EventId) :
    ((rundown.events unit base first).map Event.time).Pairwise (· ≤ ·) := by
  refine List.pairwise_map.mpr ((events_ordered ordered unit base first).imp fun before => ?_)
  rcases Event.le_iff.mp before.1 with sooner | ⟨together, _⟩
  · exact sooner.le
  · exact together.le

/-- The last event is due when the race is over. -/
theorem events_last {last : Cue} (ordered : rundown.cues.Pairwise Cue.Before)
    (ends : rundown.cues.getLast? = some last) (unit : Duration) (base : Nat) (first : EventId) :
    (rundown.events unit base first).getLast?.map Event.time =
      some (base + (rundown.duration.realTime unit).toNanos) := by
  rw [← List.getLast?_map, events_times, List.getLast?_map, ends, duration_eq ordered ends]
  rfl

end Rundown

/-- The cues of a race are scheduled one after the other, and nothing else happens. -/
theorem Hub.bookAll_eq (unit : Duration) (base : Nat) (cues : List Cue) (ids : Array EventId) (h : Hub) :
    (cues.foldl (bookNext unit base) (ids, h)).2 =
      { h with timeline := h.timeline.insertAll (cues.map (·.post unit base))
               wake := h.wake || !cues.isEmpty } := by
  induction cues generalizing ids h with
  | nil => simp [Timeline.insertAll]
  | cons cue cues ih =>
    rw [List.foldl_cons, ih]
    simp [bookNext, postAt, Timeline.insertAll, Cue.post]

namespace Feed

theorem book_feed (f : Feed) (rundown : Rundown) :
    (f.book rundown).2 = { f with hub := { f.hub with
      timeline := f.hub.timeline.insertAll (rundown.cues.map (·.post f.config.timeUnit f.hub.clock))
      wake := f.hub.wake || !rundown.cues.isEmpty } } :=
  congrArg (fun hub => { f with hub }) (Hub.bookAll_eq f.config.timeUnit f.hub.clock rundown.cues #[] f.hub)

theorem launch_refused (refused : (f.plan r).1 = .error reason) :
    f.plan r = (.error reason, f) ∧ f.launch r = (.error reason, f) := by
  rcases plan_cases f r with ⟨other, planned⟩ | ⟨rundown, generator, planned⟩ <;> rw [planned] at refused <;>
    cases refused
  refine ⟨planned, ?_⟩
  unfold launch
  rw [planned]

/-- A race that is accepted has cues, of which the last is the final results. -/
theorem plan_last (planned : (f.plan r).1 = .ok rundown) : ∃ last, rundown.cues.getLast? = some last := by
  obtain ⟨_, rfl⟩ := plan_ok_iff.mp planned
  rw [r.plan_eq]
  exact ⟨_, r.getLast?_cues _⟩

/-- A race that is accepted is planned, and its cues are scheduled. -/
theorem launch_planned (planned : (f.plan r).1 = .ok rundown) :
    let events := rundown.events f.config.timeUnit f.hub.clock f.hub.timeline.nextId
    f.plan r = (.ok rundown, { f with generator := (f.plan r).2.generator }) ∧
      f.launch r = (.ok ⟨r.component, events.map Event.id, rundown.duration.realTime f.config.timeUnit⟩,
        { f with
          generator := (f.plan r).2.generator
          hub := { f.hub with
            timeline := f.hub.timeline.insertAll (events.map fun e => (e.time, e.message))
            wake := true } }) ∧
      Hub.Run f.hub (events.map .posted).reverse (f.launch r).2.hub := by
  intro events
  rcases plan_cases f r with ⟨other, plans⟩ | ⟨_, generator, plans⟩ <;> rw [plans] at planned <;> cases planned
  have launches : f.launch r = (.ok ⟨r.component, ({ f with generator }.book rundown).1,
      rundown.duration.realTime f.config.timeUnit⟩, ({ f with generator }.book rundown).2) := by
    unfold launch
    rw [plans]
    rfl
  obtain ⟨run, numbers⟩ := book_spec { f with generator } rundown
  have cued : rundown.cues.isEmpty = false := by
    obtain ⟨last, ends⟩ := plan_last (congrArg Prod.fst plans)
    cases cues : rundown.cues with
    | nil => simp [cues] at ends
    | cons => rfl
  rw [launches, plans]
  refine ⟨rfl, ?_, run⟩
  rw [numbers, book_feed, rundown.events_posts, cued, Bool.not_false, Bool.or_true]

/-- To launch a race is to plan it and to schedule its cues. It is refused exactly if the plan is, for the
same reason, and nothing changes then. Otherwise the messages of the rundown are scheduled in their order,
under consecutive numbers from the next one on, each for its offset after one and the same point in time.
These times never decrease, and the last of them is as far from the start as the race is said to last. The
random words that are left are those that planning leaves, and besides the new events those that were to
come are still to come. -/
theorem launch_plans_and_books (f : Feed) (r : RaceRequest) :
    (∀ reason, ((f.launch r).1 = .error reason ↔ (f.plan r).1 = .error reason) ∧
      ((f.plan r).1 = .error reason → (f.plan r).2 = f ∧ (f.launch r).2 = f)) ∧
    ∀ rundown, (f.plan r).1 = .ok rundown →
      let base := f.hub.clock
      let first := f.hub.timeline.nextId
      let events := rundown.events f.config.timeUnit base first
      let after := (f.launch r).2
      ∃ race, (f.launch r).1 = .ok race ∧ race.component = r.component ∧
        race.events = List.range' first rundown.cues.length ∧
        events.map Event.id = List.range' first rundown.cues.length ∧
        events.map Event.message = rundown.cues.map Cue.message ∧
        events.map Event.time =
          rundown.cues.map (fun cue => base + (cue.offset.realTime f.config.timeUnit).toNanos) ∧
        (events.map Event.time).Pairwise (· ≤ ·) ∧
        events.getLast?.map Event.time = some (base + race.duration.toNanos) ∧
        (f.plan r).2 = { f with generator := (f.plan r).2.generator } ∧
        after = { f with
          generator := (f.plan r).2.generator
          hub := { f.hub with
            timeline := f.hub.timeline.insertAll (events.map fun e => (e.time, e.message))
            wake := true } } ∧
        after.hub.timeline.nextId = first + rundown.cues.length ∧
        (f.hub.timeline.Sound → after.hub.timeline.Sound ∧
          (∀ e, e ∈ after.hub.timeline.pending ↔ e ∈ f.hub.timeline.pending ∨ e ∈ events) ∧
          ∀ e ∈ f.hub.timeline.pending, e.id < first) := by
  have refused_iff (reason : RaceRejection) : (f.launch r).1 = .error reason ↔ (f.plan r).1 = .error reason := by
    cases planned : (f.plan r).1 with
    | error other =>
      rw [(launch_refused planned).2]
      simp only [Except.error.injEq]
    | ok rundown => simp [(launch_planned planned).2.1]
  refine ⟨fun reason => ⟨refused_iff reason, fun refused => ?_⟩, fun rundown planned => ?_⟩
  · obtain ⟨plans, launches⟩ := launch_refused refused
    rw [plans, launches]
    exact ⟨rfl, rfl⟩
  · intro base first events after
    obtain ⟨plans, launches, run⟩ := launch_planned planned
    have ordered := plan_ordered planned
    obtain ⟨last, ends⟩ := plan_last planned
    have ids : events.map Event.id = List.range' first rundown.cues.length :=
      rundown.events_ids f.config.timeUnit base first
    have books := congrArg Prod.snd launches
    refine ⟨_, congrArg Prod.fst launches, rfl, ids, ids, rundown.events_messages _ _ _, rundown.events_times _ _ _,
      Rundown.times_ordered ordered _ _ _, Rundown.events_last ordered ends _ _ _, congrArg Prod.snd plans, books,
      ?_, fun sound => ?_⟩
    · have count : events.length = rundown.cues.length := by simpa using congrArg List.length ids
      have next := Timeline.insertAll_nextId f.hub.timeline (events.map fun e => (e.time, e.message))
      rw [List.length_map, count] at next
      exact (congrArg (·.hub.timeline.nextId) books).trans next
    · obtain ⟨kept, pending⟩ := run.timeline sound
      refine ⟨kept, fun e => ?_, fun e => sound.pending_issued⟩
      rw [pending, mem_pendingAfter_posts (posts_only _), mem_posts]

/-- A race of one participant and one split is launched five nanoseconds after the start, while another
message is to come. Its five messages are scheduled under the next five numbers, the last of them fourteen
seconds later, and the other message is still to come. -/
theorem launched_race_follows_its_plan :
    let f : Feed := { start {} [] (.ofWords fun _ => 0) with
      hub := ((({} : Hub).postAt 7 (.raw "x")).2).moveClock 5 }
    let after := (f.launch ⟨"M", 1, ["x"]⟩).2
    ∃ race, (f.launch ⟨"M", 1, ["x"]⟩).1 = .ok race ∧ race.events = [1, 2, 3, 4, 5] ∧
      race.duration.toNanos = 14000000000 ∧ after.hub.timeline.nextId = 6 ∧
      ⟨14000000005, 5, .status "M" .final⟩ ∈ after.hub.timeline.pending ∧
      ⟨7, 0, .raw "x"⟩ ∈ after.hub.timeline.pending := by
  intro f after
  let passing : SplitRecord := ⟨"M", "x", 1, .ofCentis 800, 1, none⟩
  let rundown : Rundown := ⟨"M", [⟨.ofCentis 0, .status "M" .registered⟩, ⟨.ofCentis 300, .status "M" .started⟩,
    ⟨.ofCentis 800, .split passing⟩, ⟨.ofCentis 900, .status "M" .finished⟩, ⟨.ofCentis 1400, .status "M" .final⟩]⟩
  have planned : (f.plan ⟨"M", 1, ["x"]⟩).1 = .ok rundown := by decide +kernel
  have sound : f.hub.timeline.Sound := Timeline.insert_sound Timeline.sound_empty 7 (.raw "x")
  have waiting : ⟨7, 0, .raw "x"⟩ ∈ f.hub.timeline.pending := by
    have posted : f.hub.timeline = (({} : Timeline).insert 7 (.raw "x")).2 := rfl
    rw [posted, Timeline.insert_pending Timeline.sound_empty]
    exact Finset.mem_insert_self _ _
  obtain ⟨race, launched, _, numbers, _, _, _, _, last, _, _, next, pending⟩ :=
    (launch_plans_and_books f ⟨"M", 1, ["x"]⟩).2 rundown planned
  obtain ⟨_, member, _⟩ := pending sound
  have ends : (rundown.events f.config.timeUnit f.hub.clock f.hub.timeline.nextId).getLast?.map Event.time =
      some 14000000005 := by decide +kernel
  have lasts : 14000000005 = 5 + race.duration.toNanos := Option.some.inj (ends.symm.trans last)
  refine ⟨race, launched, numbers, by omega, next, ?_, (member _).mpr (.inl waiting)⟩
  exact (member _).mpr (.inr (by decide +kernel))

end Feed

end LiveTiming
