import LiveTiming.Proofs.RaceTimes
import LiveTiming.Proofs.RaceTracking

namespace LiveTiming

namespace Feed

/-- The event that is sent. -/
def Happening.fired? : Happening → Option Event
  | .apart (.fired e _) => some e
  | _ => none

/-- The events that were sent, in the order in which they were. -/
def firedEvents (past : List Happening) : List Event :=
  (past.filterMap Happening.fired?).reverse

/-- Some events are sent one after the other, until what is left of them is cancelled as
a whole. -/
def Underway (planned : List Event) (later : List Happening) (f : Feed) : Prop :=
  ∃ done rest, planned = done ++ rest ∧
    (firedEvents later).filter (·.id ∈ planned.map Event.id) = done ∧
    ((∀ e, e ∈ f.hub.timeline.pending ∧ e.id ∈ planned.map Event.id ↔ e ∈ rest) ∨
      ∀ e ∈ f.hub.timeline.pending, e.id ∉ planned.map Event.id)

variable {f g : Feed} {past later : List Happening} {planned : List Event}

theorem mem_firedEvents {e : Event} {now : Nat} (fired : .apart (.fired e now) ∈ past) :
    e ∈ firedEvents past :=
  List.mem_reverse.mpr (List.mem_filterMap.mpr ⟨_, fired, rfl⟩)

theorem firedEvents_append : firedEvents (later ++ past) = firedEvents past ++ firedEvents later := by
  unfold firedEvents
  rw [List.filterMap_append, List.reverse_append]

namespace Underway

/-- What does not touch the events does not change how far they have come. -/
theorem unmoved (underway : Underway planned past f)
    (fired : (firedEvents later).filter (·.id ∈ planned.map Event.id) =
      (firedEvents past).filter (·.id ∈ planned.map Event.id))
    (same : ∀ e, e.id ∈ planned.map Event.id →
      (e ∈ g.hub.timeline.pending ↔ e ∈ f.hub.timeline.pending)) : Underway planned later g := by
  obtain ⟨done, rest, split, sent, left⟩ := underway
  refine ⟨done, rest, split, fired.trans sent, left.imp (fun waiting e => ?_) fun none e member => ?_⟩
  · rw [← waiting e]
    exact and_congr_left (same e)
  · exact fun own => none e ((same e own).mp member) own

/-- Of events in order that are all to come, only the first one comes before all others. -/
theorem first_of_least {pending : Finset Event} {rest : List Event} {e : Event}
    (ordered : rest.Pairwise Event.Before) (waiting : ∀ other ∈ rest, other ∈ pending)
    (least : ∀ other ∈ pending, e.le other = true) (member : e ∈ rest) : ∃ later, rest = e :: later := by
  cases rest with
  | nil => cases member
  | cons first later =>
    rcases List.mem_cons.mp member with rfl | behind
    · exact ⟨later, rfl⟩
    · obtain ⟨order, different⟩ := (List.pairwise_cons.mp ordered).1 e behind
      have next := least first (waiting first (List.mem_cons_self ..))
      exact absurd (Event.id_eq_of_le order next) different

theorem fire (underway : Underway planned past f) {hub : Hub} {e : Event} {now : Nat}
    (step : Hub.Step f.hub (some (.fired e now)) hub) (sound : f.hub.timeline.Sound)
    (ordered : planned.Pairwise Event.Before) :
    Underway planned (.apart (.fired e now) :: past) { f with hub } := by
  obtain ⟨_, pending⟩ := step.timeline sound
  obtain ⟨member, _, _, least⟩ := step.run.fired sound (List.nil_append _).symm
  have sent : firedEvents (.apart (.fired e now) :: past) = firedEvents past ++ [e] :=
    @firedEvents_append past [.apart (.fired e now)]
  by_cases own : e.id ∈ planned.map Event.id
  · obtain ⟨done, rest, split, before, waiting | none⟩ := underway
    · have tail := (List.pairwise_append.mp (split ▸ ordered)).2.1
      obtain ⟨rest, rfl⟩ := first_of_least tail (fun other left => ((waiting other).mpr left).1) least
        ((waiting e).mp ⟨member, own⟩)
      refine ⟨done ++ [e], rest, by rw [split, List.append_assoc]; rfl, ?_, Or.inl fun other => ?_⟩
      · rw [sent, List.filter_append, before, List.filter_cons_of_pos (by simpa using own), List.filter_nil]
      · rw [pending]
        constructor
        · rintro ⟨stays, ownOther⟩
          obtain ⟨different, old⟩ := Finset.mem_erase.mp stays
          exact (List.mem_cons.mp ((waiting other).mp ⟨old, ownOther⟩)).resolve_left different
        · intro later
          obtain ⟨old, ownOther⟩ := (waiting other).mpr (List.mem_cons_of_mem _ later)
          refine ⟨Finset.mem_erase.mpr ⟨?_, old⟩, ownOther⟩
          rintro rfl
          exact ((List.pairwise_cons.mp tail).1 other later).2 rfl
    · exact absurd own (none e member)
  · refine underway.unmoved ?_ fun other ownOther => ?_
    · rw [sent, List.filter_append, List.filter_cons_of_neg (by simpa using own), List.filter_nil,
        List.append_nil]
    · rw [pending]
      refine Finset.mem_erase.trans (and_iff_right ?_)
      rintro rfl
      exact own ownOther

theorem step (underway : Underway planned past f) {hub : Hub} {new : Option LiveTiming.Happening}
    (step : Hub.Step f.hub new hub) (sound : f.hub.timeline.Sound)
    (ordered : planned.Pairwise Event.Before)
    (issued : ∀ id ∈ planned.map Event.id, id < f.hub.timeline.nextId)
    (untouched : ∀ id ∈ planned.map Event.id, new ≠ some (.cancelled id)) :
    Underway planned (new.toList.map .apart ++ past) { f with hub } := by
  obtain ⟨_, pending⟩ := step.timeline sound
  rcases new with _ | other | id | e
  · exact underway.unmoved rfl fun e _ => by rw [pending]; rfl
  · have fresh := step.run.nextId_le_of_posted sound (List.mem_singleton_self _)
    refine underway.unmoved rfl fun e own => ?_
    rw [pending]
    refine Finset.mem_insert.trans (or_iff_right fun same => ?_)
    exact absurd (same ▸ issued e.id own) (Nat.not_lt_of_le fresh)
  · refine underway.unmoved rfl fun e own => ?_
    rw [pending]
    refine Finset.mem_filter.trans (and_iff_left fun same => ?_)
    exact untouched e.id own (by rw [same])
  · exact underway.fire step sound ordered

/-- An abort takes out all that is left of the events or nothing. -/
theorem abort (underway : Underway planned later f) (tracked : Tracked past f) {component : String}
    (own : ∀ id ∈ planned.map Event.id, id ∈ simulated component past) (other : String) :
    Underway planned (.performed (.abort other) (f.perform (.abort other)).1 :: later)
      (f.perform (.abort other)).2 := by
  obtain ⟨_, _, pending⟩ := tracked.perform_abort other
  by_cases same : other = component
  · subst same
    obtain ⟨done, rest, split, sent, _⟩ := underway
    refine ⟨done, rest, split, sent, Or.inr fun e member ownEvent => ?_⟩
    exact tracked.abort_spares member (own e.id ownEvent)
  · refine underway.unmoved rfl fun e ownEvent => ?_
    rw [pending, Finset.mem_sdiff]
    refine and_iff_left fun cancelled => same ?_
    exact tracked.apart _ _ e.id (Finset.mem_filter.mp cancelled).2 (own e.id ownEvent)

theorem perform (underway : Underway planned later f) (tracked : Tracked past f) {component : String}
    (own : ∀ id ∈ planned.map Event.id, id ∈ simulated component past) (command : Command) :
    Underway planned (.performed command (f.perform command).1 :: later) (f.perform command).2 := by
  rcases perform_grows f command with ⟨other, rfl⟩ | grows
  · exact underway.abort tracked own other
  · exact underway.unmoved rfl fun e ownEvent =>
      grows.old_pending_iff tracked.sound (tracked.issued component e.id (own e.id ownEvent))

/-- The events of a race stay in order in every run in which none of them is cancelled
alone. -/
theorem run (underway : Underway planned [] f) (tracked : Tracked past f) {component : String}
    (own : ∀ id ∈ planned.map Event.id, id ∈ simulated component past)
    (ordered : planned.Pairwise Event.Before) (run : Run f later g)
    (untouched : ∀ id ∈ planned.map Event.id, .apart (.cancelled id) ∉ later) :
    Underway planned later g := by
  have ownAfter (later : List Happening) (id : EventId) (member : id ∈ planned.map Event.id) :
      id ∈ simulated component (later ++ past) := by
    rw [simulated_append]
    exact List.mem_append_right _ (own id member)
  induction run with
  | start => exact underway
  | perform command previous ih =>
    have before := ih fun id member cancelled => untouched id member (List.mem_cons_of_mem _ cancelled)
    exact before.perform (tracked.run previous) (ownAfter _) command
  | apart previous step ih =>
    have before := ih fun id member cancelled => untouched id member (List.mem_append_right _ cancelled)
    have after := tracked.run previous
    have issued (id : EventId) (member : id ∈ planned.map Event.id) :=
      after.issued component id (ownAfter _ id member)
    refine before.step step after.sound ordered issued fun id member same => ?_
    exact untouched id member (List.mem_append_left _ (by simp [same]))

end Underway

theorem plan_ordered {r : RaceRequest} {rundown : Rundown} (planned : (f.plan r).1 = .ok rundown) :
    rundown.cues.Pairwise Cue.Before := by
  obtain ⟨_, rfl⟩ := plan_ok_iff.mp planned
  exact r.plan_ordered _ _

theorem race_underway {r : RaceRequest} {race : BookedRace} (sound : f.hub.timeline.Sound)
    (accepted : (f.perform (.race r)).1 = .ok (.scheduled race)) :
    ∃ rundown, (f.plan r).1 = .ok rundown ∧
      let planned := rundown.events f.config.timeUnit f.hub.clock f.hub.timeline.nextId
      race.events = planned.map Event.id ∧ Underway planned [] (f.perform (.race r)).2 := by
  obtain ⟨rundown, planned, _, numbers, run, _⟩ := perform_race accepted
  refine ⟨rundown, planned, numbers, [], _, rfl, rfl, Or.inl fun e => ?_⟩
  rw [(run.timeline sound).2, mem_pendingAfter_posts (posts_only _), mem_posts]
  constructor
  · rintro ⟨old | new, own⟩
    · obtain ⟨other, listed, same⟩ := List.mem_map.mp own
      have fresh := run.nextId_le_of_posted sound (mem_posts.mpr listed)
      exact absurd (sound.pending_issued old) (Nat.not_lt_of_le (same ▸ fresh))
    · exact new
  · exact fun new => ⟨Or.inr new, List.mem_map_of_mem new⟩

/-- In every run that follows an accepted race, whatever else is started, scheduled,
aborted or sent, the events of the race fire in the order of its plan, from the first
one on, and those that have not fired are all to come or were all aborted. None of them
fires before its offset from the start has passed in real time. Only that somebody
cancels one of them alone is excluded. -/
theorem races_fire_in_order {config : Config} {subscribers : List Subscriber} {generator : Generator}
    {r : RaceRequest} {race : BookedRace} (before : Run (start config subscribers generator) past f)
    (accepted : (f.perform (.race r)).1 = .ok (.scheduled race))
    (after : Run (f.perform (.race r)).2 later g)
    (untouched : ∀ id ∈ race.events, .apart (.cancelled id) ∉ later) :
    ∃ rundown, (f.plan r).1 = .ok rundown ∧
      let planned := rundown.events f.config.timeUnit f.hub.clock f.hub.timeline.nextId
      race.events = planned.map Event.id ∧
      (firedEvents later).filter (·.id ∈ race.events) <+: planned ∧
      ((∀ e ∈ planned, e ∉ firedEvents later → e ∈ g.hub.timeline.pending) ∨
        ∀ e ∈ g.hub.timeline.pending, e.id ∉ race.events) ∧
      ∀ e now, .apart (.fired e now) ∈ later → e.id ∈ race.events → e ∈ planned ∧ e.time ≤ now := by
  have tracked : Tracked past f := by
    simpa using (Tracked.start config subscribers generator).run before
  obtain ⟨rundown, planned, numbers, underway⟩ := race_underway tracked.sound accepted
  have ordered := Rundown.events_ordered (plan_ordered planned) f.config.timeUnit f.hub.clock
    f.hub.timeline.nextId
  have raced := tracked.race accepted
  have own (id : EventId) (member : id ∈ race.events) :
      id ∈ simulated r.component (.performed (.race r) (.ok (.scheduled race)) :: past) :=
    mem_simulated_race.mpr (Or.inl ⟨rfl, member⟩)
  refine ⟨rundown, planned, numbers, ?_⟩
  rw [numbers] at own untouched ⊢
  generalize rundown.events f.config.timeUnit f.hub.clock f.hub.timeline.nextId = events at *
  obtain ⟨done, rest, split, sent, left⟩ := underway.run raced own ordered after untouched
  refine ⟨sent ▸ split ▸ List.prefix_append _ _, left.imp_left fun waiting e member unfired => ?_,
    fun e now fired member => ⟨?_, after.fired_due raced.sound fired⟩⟩
  · rw [split] at member
    refine ((waiting e).mpr ((List.mem_append.mp member).resolve_left fun old => unfired ?_)).1
    rw [← sent] at old
    exact (List.mem_filter.mp old).1
  · have counted : e ∈ (firedEvents later).filter (·.id ∈ events.map Event.id) :=
      List.mem_filter.mpr ⟨mem_firedEvents fired, decide_eq_true member⟩
    rw [sent] at counted
    exact split ▸ List.mem_append_left _ counted

/-- The registration is due at once, so it is the first event of its race that fires. -/
theorem registration_fires_first :
    let f := start {} [] (.ofWords fun _ => 0)
    let raced := (f.perform (.race ⟨"M", 0, []⟩)).2
    let registration : Event := ⟨0, 0, .status "M" .registered⟩
    Run raced [.apart (.fired registration 0)] { raced with hub := raced.hub.takeDue.2 } ∧
      ∃ rundown, (f.plan ⟨"M", 0, []⟩).1 = .ok rundown ∧
        [registration] <+: rundown.events (.ofNanos 1000000000) 0 0 := by
  intro f raced registration
  have first : Run f [] f := .start
  have accepted : (f.perform (.race ⟨"M", 0, []⟩)).1 =
      .ok (.scheduled ⟨"M", [0, 1, 2, 3], .ofNanos 8000000000⟩) := by decide +kernel
  have taken : raced.hub.takeDue.1 = some registration := by decide +kernel
  have none : Run raced [] raced := .start
  have fires : Run raced [.apart (.fired registration 0)] { raced with hub := raced.hub.takeDue.2 } :=
    none.apart (.fire (Prod.ext taken rfl))
  obtain ⟨rundown, planned, _, order, _, _⟩ := races_fire_in_order first accepted fires (by simp)
  exact ⟨fires, rundown, planned, order⟩

end Feed

end LiveTiming
