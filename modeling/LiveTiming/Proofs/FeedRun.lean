import LiveTiming.Feed
import LiveTiming.Proofs.Passes
import LiveTiming.Proofs.RaceBook

namespace LiveTiming

/-- The events of a race that starts at `base`, under the numbers from `first` on. -/
def Rundown.events (r : Rundown) (unit : Duration) (base : Nat) (first : EventId) : List Event :=
  (r.cues.zipIdx first).map fun (cue, id) =>
    ⟨base + (cue.offset.realTime unit).toNanos, id, cue.message⟩

theorem mem_posts {events : List Event} {e : Event} :
    .posted e ∈ (events.map Happening.posted).reverse ↔ e ∈ events := by
  simp

theorem posts_only (events : List Event) :
    ∀ x ∈ (events.map Happening.posted).reverse, ∃ e, x = .posted e := by
  simp only [List.mem_reverse, List.mem_map]
  rintro _ ⟨e, _, rfl⟩
  exact ⟨e, rfl⟩

theorem pendingAfter_cancelled (events : Finset Event) (ids : List EventId) :
    pendingAfter events (ids.map .cancelled) = events.filter (·.id ∉ ids) := by
  induction ids with
  | nil => simp [pendingAfter]
  | cons id ids ih =>
    simp only [List.map_cons, pendingAfter, ih, Finset.filter_filter, List.mem_cons, not_or, ne_eq]
    exact Finset.filter_congr fun e _ => and_comm

namespace Hub

variable {h after final : Hub}

/-- From one hub to the other events were scheduled, cancelled or taken, and nothing else
happened. -/
def Rescheduled (h after : Hub) : Prop :=
  after = { h with timeline := after.timeline, wake := after.wake }

theorem Rescheduled.refl (h : Hub) : h.Rescheduled h :=
  rfl

theorem Rescheduled.trans (first : h.Rescheduled after) (second : after.Rescheduled final) :
    h.Rescheduled final := by
  unfold Rescheduled at first second ⊢
  rw [second, first]

/-- Cancelling leaves the clock alone. -/
theorem Rescheduled.clock (rescheduled : h.Rescheduled after) : after.clock = h.clock := by
  rw [Rescheduled] at rescheduled
  rw [rescheduled]

theorem foldl_rescheduled {α β : Type} {step : β × Hub → α → β × Hub}
    (steps : ∀ b h a, Hub.Rescheduled h (step (b, h) a).2) (items : List α) (b : β) (h : Hub) :
    h.Rescheduled (items.foldl step (b, h)).2 := by
  induction items generalizing b h with
  | nil => exact .refl h
  | cons a items ih => exact (steps b h a).trans (ih _ _)

/-- Cancelling a list of events only touches the timeline. -/
theorem cancelAll_rescheduled (h : Hub) (ids : List EventId) : h.Rescheduled (h.cancelAll ids).2 := by
  refine foldl_rescheduled (fun n h id => ?_) ids 0 h
  rfl

/-- One more event is cancelled, and counted if it was to come. -/
def cancelNext : Nat × Hub → EventId → Nat × Hub
  | (n, h), id => (if (h.cancel id).1 then n + 1 else n, (h.cancel id).2)

theorem cancelAll_eq (h : Hub) (ids : List EventId) : h.cancelAll ids = ids.foldl cancelNext (0, h) :=
  rfl

/-- Each cancellation that is counted takes one pending event away. -/
theorem cancelNext_spec (sound : h.timeline.Sound) (ids : List EventId) (n : Nat) :
    Run h (ids.reverse.map .cancelled) (ids.foldl cancelNext (n, h)).2 ∧
      (ids.foldl cancelNext (n, h)).1 + (ids.foldl cancelNext (n, h)).2.timeline.pending.card =
        n + h.timeline.pending.card := by
  induction ids generalizing h n with
  | nil => exact ⟨.start, rfl⟩
  | cons id ids ih =>
    have step : Step h (some (.cancelled id)) (h.cancel id).2 := .cancel
    obtain ⟨run, count⟩ := ih (step.timeline sound).1 (cancelNext (n, h) id).1
    constructor
    · rw [List.reverse_cons, List.map_append]
      exact step.run.trans run
    · refine count.trans ?_
      have card : (h.cancel id).1.toNat + (h.cancel id).2.timeline.pending.card =
          h.timeline.pending.card := Timeline.cancel_card sound id
      unfold cancelNext
      cases live : (h.cancel id).1
      · simp only [live, Bool.toNat_false, Bool.false_eq_true, if_false] at card ⊢
        omega
      · simp only [live, Bool.toNat_true, if_true] at card ⊢
        omega

/-- Cancelling events in turn takes out those that were to come, and counts them. -/
theorem cancelAll_spec (sound : h.timeline.Sound) (ids : List EventId) :
    Run h (ids.reverse.map .cancelled) (h.cancelAll ids).2 ∧
      (h.cancelAll ids).2.timeline.pending = h.timeline.pending.filter (·.id ∉ ids) ∧
      (h.cancelAll ids).1 = (h.timeline.pending.filter (·.id ∈ ids)).card := by
  obtain ⟨run, count⟩ := cancelNext_spec sound ids 0
  have pending : (h.cancelAll ids).2.timeline.pending = h.timeline.pending.filter (·.id ∉ ids) := by
    rw [cancelAll_eq, (run.timeline sound).2, pendingAfter_cancelled]
    exact Finset.filter_congr fun e _ => by rw [List.mem_reverse]
  refine ⟨run, pending, ?_⟩
  have split := Finset.card_filter_add_card_filter_not (s := h.timeline.pending) (·.id ∈ ids)
  rw [← cancelAll_eq, pending] at count
  omega

/-- One more cue of a race that starts at `base` is scheduled. -/
def bookNext (unit : Duration) (base : Nat) : Array EventId × Hub → Cue → Array EventId × Hub
  | (ids, h), cue =>
    let (id, h) := h.postAt (base + (cue.offset.realTime unit).toNanos) cue.message
    (ids.push id, h)

theorem bookNext_spec (unit : Duration) (base : Nat) (cues : List Cue) (ids : Array EventId) (h : Hub) :
    let events := (cues.zipIdx h.timeline.nextId).map fun (cue, id) =>
      (⟨base + (cue.offset.realTime unit).toNanos, id, cue.message⟩ : Event)
    Run h (events.map .posted).reverse (cues.foldl (bookNext unit base) (ids, h)).2 ∧
      (cues.foldl (bookNext unit base) (ids, h)).1.toList = ids.toList ++ events.map Event.id := by
  induction cues generalizing ids h with
  | nil => exact ⟨.start, by simp⟩
  | cons cue cues ih =>
    have step : Step h (some (.posted ⟨base + (cue.offset.realTime unit).toNanos,
        h.timeline.nextId, cue.message⟩)) (bookNext unit base (ids, h) cue).2 := .postAt
    obtain ⟨run, numbers⟩ := ih (bookNext unit base (ids, h) cue).1 (bookNext unit base (ids, h) cue).2
    simp only [List.zipIdx_cons, List.map_cons, List.reverse_cons]
    refine ⟨step.run.trans run, numbers.trans ?_⟩
    simp [bookNext, postAt, Timeline.insert]

end Hub

namespace Feed

theorem book_spec (f : Feed) (r : Rundown) :
    let events := r.events f.config.timeUnit f.hub.clock f.hub.timeline.nextId
    Hub.Run f.hub (events.map .posted).reverse (f.book r).2.hub ∧ (f.book r).1 = events.map Event.id := by
  obtain ⟨run, numbers⟩ := Hub.bookNext_spec f.config.timeUnit f.hub.clock r.cues #[] f.hub
  exact ⟨run, numbers⟩

theorem book_config (f : Feed) (r : Rundown) : (f.book r).2.config = f.config :=
  rfl

theorem perform_send {f g : Feed} {c : Command} {m : Message} (sends : f.react c = (.send m, g)) :
    g.hub.Grows (f.perform c).2.hub ∧ (f.perform c).2.races = g.races ∧
      ∀ race, (f.perform c).1 ≠ .ok (.scheduled race) := by
  unfold perform
  rw [sends]
  exact ⟨Hub.broadcast_grows _ _, rfl, nofun⟩

theorem perform_answer {f g : Feed} {c : Command} {result : Except Failure Outcome}
    (answers : f.react c = (.answer result, g)) : f.perform c = (result, g) := by
  unfold perform
  rw [answers]

/-- Planning a race either refuses it and draws nothing or draws the whole of its plan. -/
theorem plan_cases (f : Feed) (r : RaceRequest) :
    (∃ reason, f.plan r = (.error reason, f)) ∨
      ∃ rundown generator, f.plan r = (.ok rundown, { f with generator }) := by
  unfold plan
  split
  · exact Or.inl ⟨_, rfl⟩
  · exact Or.inr ⟨_, _, rfl⟩

/-- A plan comes out just of a request that nothing speaks against. -/
theorem plan_ok_iff {f : Feed} {r : RaceRequest} {rundown : Rundown} : (f.plan r).1 = .ok rundown ↔
    r.rejection? f.config.bounds = none ∧ (r.plan f.config.pacing f.generator).1 = rundown := by
  unfold plan
  cases r.rejection? f.config.bounds <;> simp

/-- A race that is refused only costs an answer. -/
theorem perform_refused {f g : Feed} {r : RaceRequest} {reason : RaceRejection}
    (refused : f.plan r = (.error reason, g)) :
    f.perform (.race r) = (.error (.invalidRace reason.message), g) := by
  have launched : f.launch r = (.error reason, g) := by
    unfold launch
    rw [refused]
  have reacts : f.react (.race r) = (.answer (.error (.invalidRace reason.message)), g) := by
    unfold react
    dsimp only
    rw [launched]
  exact perform_answer reacts

/-- A race that is planned is booked and kept. -/
theorem perform_planned {f g : Feed} {r : RaceRequest} {rundown : Rundown}
    (planned : f.plan r = (.ok rundown, g)) :
    ∃ race, race.component = r.component ∧ race.events = (g.book rundown).1 ∧
      f.perform (.race r) = (.ok (.scheduled race), (g.book rundown).2.keep race) := by
  have launched : ∃ length,
      f.launch r = (.ok ⟨r.component, (g.book rundown).1, length⟩, (g.book rundown).2) := by
    unfold launch
    rw [planned]
    exact ⟨_, rfl⟩
  obtain ⟨length, launched⟩ := launched
  refine ⟨⟨r.component, (g.book rundown).1, length⟩, rfl, rfl, perform_answer ?_⟩
  unfold react
  dsimp only
  rw [launched]

/-- An accepted race is planned, its events are scheduled, and they are added to those
of its component that are still to come. -/
theorem perform_race {f : Feed} {r : RaceRequest} {race : BookedRace}
    (accepted : (f.perform (.race r)).1 = .ok (.scheduled race)) :
    ∃ rundown, (f.plan r).1 = .ok rundown ∧ race.component = r.component ∧
      let events := rundown.events f.config.timeUnit f.hub.clock f.hub.timeline.nextId
      race.events = events.map Event.id ∧
      Hub.Run f.hub (events.map .posted).reverse (f.perform (.race r)).2.hub ∧
      (f.perform (.race r)).2.races =
        (f.races.prune (f.perform (.race r)).2.hub.timeline).extend r.component race.events := by
  rcases plan_cases f r with ⟨reason, refused⟩ | ⟨rundown, generator, planned⟩
  · rw [perform_refused refused] at accepted
    cases accepted
  · obtain ⟨booked, component, events, performed⟩ := perform_planned planned
    rw [performed] at accepted ⊢
    cases accepted
    obtain ⟨run, numbers⟩ := book_spec { f with generator } rundown
    refine ⟨rundown, by rw [planned], component, events.trans numbers, run, ?_⟩
    rw [← component]
    rfl

/-- The hub of a feed that accepts a race has its cues scheduled, one after the other. -/
theorem perform_race_hub {f : Feed} {r : RaceRequest} {rundown : Rundown} (planned : (f.plan r).1 = .ok rundown) :
    (f.perform (.race r)).2.hub =
      (rundown.cues.foldl (Hub.bookNext f.config.timeUnit f.hub.clock) (#[], f.hub)).2 := by
  rcases plan_cases f r with ⟨reason, refused⟩ | ⟨other, generator, plans⟩
  · rw [refused] at planned
    cases planned
  · rw [plans] at planned
    cases planned
    obtain ⟨_, _, _, performed⟩ := perform_planned plans
    rw [performed]
    rfl

/-- Unless it is to start a race or to abort one, what a feed does up to the sending of
a message leaves its hub and the book of races as they are. -/
theorem react_other (f : Feed) (c : Command) :
    (∃ r, c = .race r) ∨ (∃ component, c = .abort component) ∨
      (f.react c).2.hub = f.hub ∧ (f.react c).2.races = f.races ∧
        ∀ race, (f.react c).1 ≠ .answer (.ok (.scheduled race)) := by
  unfold react
  split
  · exact Or.inr (Or.inr ⟨rfl, rfl, nofun⟩)
  · exact Or.inr (Or.inr ⟨rfl, rfl, nofun⟩)
  · rename_i component participant split
    -- Evaluating the draw would mean to run the generator.
    rcases SplitRecord.random component participant split f.generator with ⟨record, generator⟩
    exact Or.inr (Or.inr ⟨rfl, rfl, nofun⟩)
  · exact Or.inl ⟨_, rfl⟩
  · exact Or.inr (Or.inl ⟨_, rfl⟩)
  · exact Or.inr (Or.inr ⟨rfl, rfl, nofun⟩)
  · exact Or.inr (Or.inr ⟨rfl, rfl, nofun⟩)
  · exact Or.inr (Or.inr ⟨rfl, rfl, nofun⟩)

theorem react_race_hub (f : Feed) (r : RaceRequest) : (f.react (.race r)).2.hub = (f.launch r).2.hub := by
  unfold react
  dsimp only
  rcases f.launch r with ⟨_ | _, _⟩ <;> rfl

/-- What a feed does up to the sending of a message only schedules and cancels events. -/
theorem react_rescheduled (f : Feed) (c : Command) : f.hub.Rescheduled (f.react c).2.hub := by
  rcases react_other f c with ⟨r, rfl⟩ | ⟨component, rfl⟩ | ⟨same, _⟩
  · rw [react_race_hub]
    unfold launch
    rcases plan_cases f r with ⟨reason, refused⟩ | ⟨rundown, generator, planned⟩
    · rw [refused]
      exact .refl _
    · rw [planned]
      refine Hub.foldl_rescheduled (fun ids h cue => ?_) _ _ _
      rfl
  · exact Hub.cancelAll_rescheduled _ _
  · rw [same]
    exact .refl _

/-- Unless it starts a race or aborts one, a command leaves the book of races as it is,
and schedules events at most. -/
theorem perform_other (f : Feed) (c : Command) :
    (∃ r race, c = .race r ∧ (f.perform c).1 = .ok (.scheduled race)) ∨
      (∃ component, c = .abort component) ∨
      f.hub.Grows (f.perform c).2.hub ∧ (f.perform c).2.races = f.races ∧
        ∀ race, (f.perform c).1 ≠ .ok (.scheduled race) := by
  rcases react_other f c with ⟨r, rfl⟩ | abort | ⟨hub, races, unscheduled⟩
  · rcases plan_cases f r with ⟨reason, refused⟩ | ⟨rundown, generator, planned⟩
    · rw [perform_refused refused]
      exact Or.inr (Or.inr ⟨.refl _, rfl, nofun⟩)
    · obtain ⟨race, _, _, performed⟩ := perform_planned planned
      exact Or.inl ⟨r, race, rfl, by rw [performed]⟩
  · exact Or.inr (Or.inl abort)
  · refine Or.inr (Or.inr ?_)
    rw [← hub, ← races]
    rcases reacts : f.react c with ⟨result | m, g⟩
    · rw [reacts] at unscheduled
      rw [perform_answer reacts]
      exact ⟨.refl _, rfl, fun race same => unscheduled race (congrArg Reaction.answer same)⟩
    · exact perform_send reacts

/-- Aborting cancels the events kept for the name, and the answer counts them. -/
theorem perform_abort (f : Feed) (component : String) :
    f.perform (.abort component) =
      (.ok (.aborted component (f.hub.cancelAll (f.races.eventsOf component)).1),
        { f with
          hub := (f.hub.cancelAll (f.races.eventsOf component)).2
          races := f.races.forget component }) :=
  rfl

/-- Every command but an abort only adds to what is pending. -/
theorem perform_grows (f : Feed) (c : Command) :
    (∃ component, c = .abort component) ∨ f.hub.Grows (f.perform c).2.hub := by
  rcases perform_other f c with ⟨r, race, rfl, accepted⟩ | abort | ⟨grows, _⟩
  · obtain ⟨rundown, _, _, _, run, _⟩ := perform_race accepted
    exact Or.inr ⟨_, run, posts_only _⟩
  · exact Or.inl abort
  · exact Or.inr grows

/-- A command is a run of the hub it is given to. -/
theorem perform_run {f : Feed} (sound : f.hub.timeline.Sound) (c : Command) :
    ∃ more, Hub.Run f.hub more (f.perform c).2.hub := by
  rcases perform_grows f c with ⟨component, rfl⟩ | ⟨more, run, _⟩
  · exact ⟨_, (Hub.cancelAll_spec sound (f.races.eventsOf component)).1⟩
  · exact ⟨more, run⟩

/-- What a feed does up to the sending of a message are steps of its hub. -/
theorem react_run {f : Feed} (sound : f.hub.timeline.Sound) (c : Command) :
    ∃ more, Hub.Run f.hub more (f.react c).2.hub := by
  rcases reacts : f.react c with ⟨result | m, g⟩
  · have run := perform_run sound c
    rwa [perform_answer reacts] at run
  · rcases react_other f c with ⟨r, rfl⟩ | ⟨component, rfl⟩ | ⟨same, _⟩
    · unfold react at reacts
      dsimp only at reacts
      split at reacts <;> cases reacts
    · cases reacts
    · rw [reacts] at same
      exact ⟨[], same ▸ .start⟩

/-- What can happen to a feed: a command is performed and answered, or something happens
to its events apart from that. -/
inductive Happening
  | performed (c : Command) (answer : Except Failure Outcome)
  | apart (x : LiveTiming.Happening)

/-- Any number of steps of a feed, with what happened in them, the latest first. A
command is performed in one step; passes, subscribers and others who schedule or cancel
take the steps between. -/
inductive Run (start : Feed) : List Happening → Feed → Prop
  | start : Run start [] start
  | perform {past f} (c : Command) :
      Run start past f → Run start (.performed c (f.perform c).1 :: past) (f.perform c).2
  | apart {past f new hub} :
      Run start past f → Hub.Step f.hub new hub →
        Run start (new.toList.map .apart ++ past) { f with hub }

theorem Run.more {f g : Feed} {past : List Happening} {more : List LiveTiming.Happening} {hub : Hub}
    (run : Run f past g) (steps : Hub.Run g.hub more hub) :
    Run f (more.map .apart ++ past) { g with hub } := by
  induction steps with
  | start => exact run
  | next _ step ih =>
    rw [List.map_append, List.append_assoc]
    exact ih.apart step

/-- A pass that sends what is due belongs to a run, in which it fires its events. -/
theorem Run.sendDue {f g : Feed} {past : List Happening} {fuel count : Nat} {hub : Hub}
    (run : Run f past g) (sends : g.hub.sendDue fuel = some (count, hub)) :
    ∃ pass : List LiveTiming.Happening,
      Run f (pass.map .apart ++ past) { g with hub } ∧ pass.countP Hub.isFiring = count := by
  obtain ⟨pass, _, steps, counted, _⟩ := Hub.sendDue_run sends
  exact ⟨pass, run.more steps, counted⟩

/-- What happens to a feed are steps of its hub, and no command sends an event that was
scheduled. -/
theorem Run.hub {f g : Feed} {past : List Happening} (run : Run f past g) (sound : f.hub.timeline.Sound) :
    ∃ more, Hub.Run f.hub more g.hub ∧ ∀ e now, .apart (.fired e now) ∈ past → .fired e now ∈ more := by
  induction run with
  | start => exact ⟨[], .start, nofun⟩
  | perform c _ ih =>
    obtain ⟨before, first, fires⟩ := ih
    obtain ⟨more, then_⟩ := perform_run (first.timeline sound).1 c
    refine ⟨more ++ before, first.trans then_, fun e now member => ?_⟩
    rcases List.mem_cons.mp member with same | old
    · cases same
    · exact List.mem_append_right _ (fires e now old)
  | apart _ step ih =>
    obtain ⟨before, first, fires⟩ := ih
    refine ⟨_, first.next step, fun e now member => ?_⟩
    rcases List.mem_append.mp member with new | old
    · obtain ⟨x, happened, same⟩ := List.mem_map.mp new
      cases same
      exact List.mem_append_left _ happened
    · exact List.mem_append_right _ (fires e now old)

/-- An event goes out no sooner than it is due. -/
theorem Run.fired_due {f g : Feed} {past : List Happening} (run : Run f past g)
    (sound : f.hub.timeline.Sound) {e : Event} {now : Nat} (fired : .apart (.fired e now) ∈ past) :
    e.time ≤ now := by
  obtain ⟨more, steps, fires⟩ := run.hub sound
  obtain ⟨after, before, split⟩ := List.append_of_mem (fires e now fired)
  exact (steps.fired sound split).2.1

theorem Run.fired_pending {f g : Feed} {past : List Happening} (run : Run f past g)
    (sound : f.hub.timeline.Sound) {e : Event} {now : Nat} (fired : .apart (.fired e now) ∈ past)
    (old : e.id < f.hub.timeline.nextId) : e ∈ f.hub.timeline.pending := by
  obtain ⟨more, steps, fires⟩ := run.hub sound
  obtain ⟨after, before, split⟩ := List.append_of_mem (fires e now fired)
  refine (posted_of_pending (steps.fired sound split).1).resolve_right fun posted => ?_
  have again : .posted e ∈ more := by
    rw [split]
    exact List.mem_append_right _ (List.mem_cons_of_mem _ posted)
  exact absurd old (Nat.not_lt_of_le (steps.nextId_le_of_posted sound again))

end Feed

end LiveTiming
