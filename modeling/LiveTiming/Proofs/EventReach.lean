import LiveTiming.Proofs.LongestRace
import LiveTiming.Proofs.SeededDraws
import Mathlib.Data.List.Pairwise

namespace LiveTiming

/-- Whether an event is due when the longest delay has passed, at the latest. -/
def Hub.Reaches (h : Hub) (e : Event) : Prop :=
  e.time ≤ h.clock + longestDelay

/-- Whether everything that is to come is within reach. -/
def Hub.InReach (h : Hub) : Prop :=
  ∀ e ∈ h.timeline.pending, h.Reaches e

/-- Whether everything that is to come afterwards, and was not before, was within reach before. -/
def Hub.PlacesInReach (h after : Hub) : Prop :=
  ∀ e ∈ after.timeline.pending, e ∉ h.timeline.pending → h.Reaches e

/-- Steps lead from one hub to the other, and what is scheduled in them is within reach at the end. -/
def Hub.Trails (h after : Hub) : Prop :=
  ∃ more, Run h more after ∧ ∀ e, .posted e ∈ more → after.Reaches e

/-- Whether the longest race is over when the longest delay has passed. -/
def Config.RacesInReach (c : Config) : Prop :=
  (c.longestRace.realTime c.timeUnit).toNanos ≤ longestDelay

instance (c : Config) : Decidable c.RacesInReach :=
  inferInstanceAs (Decidable (_ ≤ _))

namespace Hub

variable {h after : Hub}

theorem Reaches.later {e : Event} (reaches : h.Reaches e) (later : h.clock ≤ after.clock) : after.Reaches e :=
  reaches.trans (Nat.add_le_add_right later _)

theorem reaches_delay (h : Hub) (delay : Nat) (id : EventId) (m : Message) :
    h.Reaches ⟨h.clock + min delay longestDelay, id, m⟩ :=
  Nat.add_le_add_left (min_le_right _ _) _

theorem post_pending (sound : h.timeline.Sound) (delay : Nat) (m : Message) :
    (h.post delay m).2.timeline.pending =
      insert ⟨h.clock + min delay longestDelay, (h.post delay m).1, m⟩ h.timeline.pending :=
  Timeline.insert_pending sound _ m

theorem post_placesInReach (sound : h.timeline.Sound) (delay : Nat) (m : Message) :
    h.PlacesInReach (h.post delay m).2 := by
  intro e member fresh
  rw [post_pending sound] at member
  rcases Finset.mem_insert.mp member with rfl | old
  · exact h.reaches_delay delay _ m
  · exact absurd old fresh

theorem Step.trails {new : Option Happening} (step : Step h new after)
    (reached : ∀ e, new = some (.posted e) → after.Reaches e) : h.Trails after :=
  ⟨_, step.run, fun e posted => reached e (Option.mem_toList.mp posted)⟩

theorem trails_routine : Routine Trails where
  refl _ := ⟨[], .start, nofun⟩
  trans := by
    rintro a b c ⟨past, run, old⟩ ⟨more, later, new⟩
    refine ⟨more ++ past, run.trans later, fun e posted => ?_⟩
    rcases List.mem_append.mp posted with last | first
    · exact new e last
    · -- The clock has moved on at most since then, so the event has only come nearer.
      exact (old e first).later later.clock_le
  post h delay m := Step.postAt.trails (by
    rintro _ ⟨⟩
    exact h.reaches_delay delay _ m)
  moveClock _ _ := Step.moveClock.trails nofun
  aside same clock := (Step.aside same clock).trails nofun
  takeDue h := by
    rcases taken : h.takeDue with ⟨_ | _, _⟩
    · exact (Step.rest taken).trails nofun
    · exact (Step.fire taken).trails nofun
  look _ := Step.look.trails nofun

theorem cancelAll_trails (h : Hub) (ids : List EventId) : h.Trails (h.cancelAll ids).2 := by
  rw [cancelAll_eq]
  generalize 0 = n
  induction ids generalizing h n with
  | nil => exact trails_routine.refl h
  | cons id ids ih => exact trails_routine.trans (Step.cancel.trails nofun) (ih (h.cancel id).2 _)

/-- What is within reach stays so, as the clock never goes back. -/
theorem Trails.inReach (trails : h.Trails after) (sound : h.timeline.Sound) (inReach : h.InReach) :
    after.InReach := by
  obtain ⟨more, run, reached⟩ := trails
  intro e member
  rw [(run.timeline sound).2] at member
  rcases posted_of_pending member with old | posted
  · exact (inReach e old).later run.clock_le
  · exact reached e posted

end Hub

/-- No event of a race is due after the race is over. -/
theorem Rundown.events_le {rundown : Rundown} (ordered : rundown.cues.Pairwise Cue.Before) {last : Cue}
    (ends : rundown.cues.getLast? = some last) {unit : Duration} {base : Nat} {first : EventId} {e : Event}
    (listed : e ∈ rundown.events unit base first) : e.time ≤ base + (rundown.duration.realTime unit).toNanos := by
  have final := events_last ordered ends unit base first
  rw [← List.getLast?_map] at final
  have before := (rundown.times_ordered ordered unit base first).rel_getLast (List.mem_map_of_mem listed)
  rwa [(List.getLast_eq_iff_getLast?_eq_some _).mpr final] at before

namespace Feed

variable {f : Feed} {r : RaceRequest} {race : BookedRace} {rundown : Rundown}

theorem launch_ok (launched : (f.launch r).1 = .ok race) : ∃ rundown, (f.plan r).1 = .ok rundown ∧
    race.duration = rundown.duration.realTime f.config.timeUnit := by
  cases planned : (f.plan r).1 with
  | error reason =>
    rw [(launch_refused planned).2] at launched
    cases launched
  | ok rundown =>
    rw [(launch_planned planned).2.1] at launched
    cases launched
    exact ⟨rundown, rfl, rfl⟩

/-- The events that are placed with a race are those of its rundown. -/
theorem launch_places (sound : f.hub.timeline.Sound) (planned : (f.plan r).1 = .ok rundown) (e : Event) :
    e ∈ (f.launch r).2.hub.timeline.pending ∧ e ∉ f.hub.timeline.pending ↔
      e ∈ rundown.events f.config.timeUnit f.hub.clock f.hub.timeline.nextId := by
  obtain ⟨_, _, run⟩ := launch_planned planned
  rw [(run.timeline sound).2, mem_pendingAfter_posts (posts_only _), mem_posts]
  refine ⟨fun placed => placed.1.resolve_left placed.2, fun listed => ⟨Or.inr listed, fun old => ?_⟩⟩
  have number := List.mem_map_of_mem (f := Event.id) listed
  rw [rundown.events_ids] at number
  exact Nat.not_lt_of_le (List.mem_range'_1.mp number).1 (sound.pending_issued old)

/-- The events of a race are within reach exactly if the last of them is. -/
theorem launch_placesInReach_iff (sound : f.hub.timeline.Sound) (launched : (f.launch r).1 = .ok race) :
    f.hub.PlacesInReach (f.launch r).2.hub ↔ race.duration.toNanos ≤ longestDelay := by
  obtain ⟨rundown, planned, lasts⟩ := launch_ok launched
  have ordered := plan_ordered planned
  obtain ⟨last, ends⟩ := plan_last planned
  rw [lasts]
  constructor
  · intro inReach
    obtain ⟨latest, ending, due⟩ := Option.map_eq_some_iff.mp
      (Rundown.events_last ordered ends f.config.timeUnit f.hub.clock f.hub.timeline.nextId)
    obtain ⟨member, fresh⟩ := (launch_places sound planned latest).mpr (List.mem_of_getLast? ending)
    have reach := inReach latest member fresh
    rw [Hub.Reaches, due] at reach
    exact Nat.le_of_add_le_add_left reach
  · intro short e member fresh
    have listed := (launch_places sound planned e).mp ⟨member, fresh⟩
    exact (Rundown.events_le ordered ends listed).trans (Nat.add_le_add_left short _)

theorem duration_in_reach (short : f.config.RacesInReach) (planned : (f.plan r).1 = .ok rundown) :
    (rundown.duration.realTime f.config.timeUnit).toNanos ≤ longestDelay :=
  (ClockTime.realTime_le (duration_le_longestRace planned) _).trans short

theorem launch_trails (short : f.config.RacesInReach) (r : RaceRequest) : f.hub.Trails (f.launch r).2.hub := by
  cases planned : (f.plan r).1 with
  | error reason =>
    rw [(launch_refused planned).2]
    exact Hub.trails_routine.refl _
  | ok rundown =>
    obtain ⟨last, ends⟩ := plan_last planned
    obtain ⟨_, _, run⟩ := launch_planned planned
    refine ⟨_, run, fun e posted => ?_⟩
    have due := Rundown.events_le (plan_ordered planned) ends (mem_posts.mp posted)
    exact Hub.Reaches.later (due.trans (Nat.add_le_add_left (duration_in_reach short planned) _)) run.clock_le

theorem react_trails (short : f.config.RacesInReach) (c : Command) : f.hub.Trails (f.react c).2.hub := by
  rcases f.react_other c with ⟨r, rfl⟩ | ⟨component, rfl⟩ | ⟨same, _⟩
  · rw [react_race_hub]
    exact launch_trails short r
  · exact f.hub.cancelAll_trails _
  · rw [same]
    exact Hub.trails_routine.refl _

end Feed

/-- All races of a feed are over within the longest delay exactly if the longest one is, whatever the random
words are. -/
theorem Config.racesInReach_iff (c : Config) : c.RacesInReach ↔ ∀ (f : Feed) (r : RaceRequest) (race : BookedRace),
    f.config = c → f.hub.timeline.Sound → (f.launch r).1 = .ok race → f.hub.PlacesInReach (f.launch r).2.hub := by
  constructor
  · rintro short f r race rfl sound launched
    obtain ⟨rundown, planned, lasts⟩ := Feed.launch_ok launched
    rw [Feed.launch_placesInReach_iff sound launched, lasts]
    exact Feed.duration_in_reach short planned
  · intro kept
    obtain ⟨rundown, planned, lasts⟩ := Feed.plan_largest c
    have launched := congrArg Prod.fst (Feed.launch_planned planned).2.1
    have short := (Feed.launch_placesInReach_iff Timeline.sound_empty launched).mp
      (kept _ _ _ rfl Timeline.sound_empty launched)
    rw [RacesInReach, ← lasts]
    exact short

/-- The time unit alone keeps all races within the longest delay, whatever the gaps and the bounds are, exactly if
the end of the race clock comes by then. -/
theorem Config.racesInReach_unit_iff (c : Config) : (∀ pacing bounds, { c with pacing, bounds }.RacesInReach) ↔
    c.timeUnit.toNanos * (UInt32.size - 1) / 100 ≤ longestDelay := by
  constructor
  · intro kept
    -- A lead-in that fills the race clock makes the longest race end there.
    let slow : Config := { c with pacing := { leadIn := .ofCentis maxWord } }
    have ends : slow.longestRace.centis = maxWord :=
      min_eq_right (Nat.le_add_right_of_le (Nat.le_add_right_of_le (Nat.le_add_right _ _)))
    have room : 100 * longestDelay + 100 ≤ Duration.longest.toNanos := by decide
    have short : slow.RacesInReach := kept _ _
    rw [RacesInReach, ClockTime.realTime_toNanos, ends, min_eq_right (show UInt32.size - 1 ≤ maxWord by decide)]
      at short
    change min (c.timeUnit.toNanos * (UInt32.size - 1)) Duration.longest.toNanos / 100 ≤ longestDelay at short
    generalize c.timeUnit.toNanos * (UInt32.size - 1) = total at short ⊢
    omega
  · intro short pacing bounds
    rw [RacesInReach, ClockTime.realTime_toNanos]
    refine le_trans (Nat.div_le_div_right ?_) short
    exact (min_le_left _ _).trans (Nat.mul_le_mul_left _ (min_le_right _ _))

/-- From one service to the other the setting stays, and if that keeps the races within reach, so is whatever is
scheduled. -/
def Service.Trails (s t : Service) : Prop :=
  t.feed.config = s.feed.config ∧ (s.feed.config.RacesInReach → s.hub.Trails t.hub)

/-- What a service comes to by itself, by what an operator and the readers of its queues do, by sessions on the
console, and by peers. Nobody schedules an event for a point in time. -/
inductive Service.Proceeds (start : Service) : Service → Prop
  | start : Proceeds start start
  | step {s t action} : Proceeds start s → s.step? action = some t → Proceeds start t
  | clock {s} (time : Nat) : Proceeds start s → Proceeds start (s.moveClock time)
  | errand {s t errand reply} : Proceeds start s → s.Does errand reply t → (∀ time m, errand ≠ .postAt time m) →
      Proceeds start t
  | ask {s t} (m : Message) : Proceeds start s → (askFor m).run s = some ((), t) → Proceeds start t
  | console {s t fuel inputs out written} : Proceeds start s →
      (console fuel inputs out).run s = some (written, t) → Proceeds start t
  | connect {s t fuel name index} : Proceeds start s → (connect fuel name).run s = some (index, t) →
      Proceeds start t
  | peer {s t index change} : Proceeds start s → (onConnection index change).run s = some ((), t) → Proceeds start t

namespace Service

variable {s t : Service}

theorem Trails.withHub {hub : Hub} (trails : s.hub.Trails hub) : s.Trails (s.withHub hub) :=
  ⟨rfl, fun _ => trails⟩

theorem Trails.refl (s : Service) : s.Trails s :=
  ⟨rfl, fun _ => Hub.trails_routine.refl _⟩

theorem trails_upkeep : Upkeep Trails where
  refl := .refl
  trans := fun ⟨kept, first⟩ ⟨still, second⟩ =>
    ⟨still.trans kept, fun short => Hub.trails_routine.trans (first short) (second (kept ▸ short))⟩
  step steps := ⟨(step_spares steps).draws.config, fun _ => step_follows Hub.trails_routine steps⟩
  clock s time := .withHub (Hub.trails_routine.moveClock s.hub time)
  ask s _ _ := .refl s
  takeDue s := .withHub (Hub.trails_routine.takeDue s.hub)
  tell {s} _ m := .withHub (Hub.trails_routine.broadcast s.hub m)
  post s delay m := .withHub (Hub.trails_routine.post s.hub delay m)
  cancel _ _ := .withHub (Hub.Step.cancel.trails nofun)
  aside _ _ same clock := .withHub (Hub.trails_routine.aside same clock)
  connections s _ := .refl s

theorem perform_trails (fuel : Nat) (c : Command) : Follows Trails (perform fuel c) :=
  trails_upkeep.perform (fun s c => ⟨(s.feed.react_keeps c).1, fun short => Feed.react_trails short c⟩) fuel c

/-- Everything that a service comes to trails behind. -/
theorem Proceeds.trails (proceeds : s.Proceeds t) : s.Trails t := by
  induction proceeds with
  | start => exact .refl s
  | step _ steps ih => exact trails_upkeep.trans ih (trails_upkeep.step steps)
  | clock time _ ih => exact trails_upkeep.trans ih (trails_upkeep.clock _ time)
  | errand _ does unplaced ih =>
    refine trails_upkeep.trans ih (trails_upkeep.does does (fun c _ fuel => perform_trails fuel c) ?_)
    exact fun time m placed => absurd placed (unplaced time m)
  | ask m _ asks ih => exact trails_upkeep.trans ih (trails_upkeep.askFor m _ _ _ asks)
  | console _ ends ih =>
    exact trails_upkeep.trans ih (trails_upkeep.console (fun c => perform_trails _ c) _ _ _ _ _ ends)
  | connect _ connects ih => exact trails_upkeep.trans ih (trails_upkeep.connect _ _ _ _ _ connects)
  | peer _ does ih => exact trails_upkeep.trans ih (trails_upkeep.onConnection _ _ _ _ _ does)

/-- A command at a service that nothing else happens in. -/
theorem Proceeds.perform (f : Feed) (c : Command) : Proceeds { feed := f } { feed := (f.perform c).2 } :=
  .errand .start (does_perform.mpr ⟨0, _, perform_alone rfl c, rfl⟩) nofun

end Service

namespace Feed

/-- An event that is scheduled after a delay is due after that delay or after the longest one, whichever is
shorter, so it is always within reach. The events of a race are so exactly if the race is over by then, as they
are not put off by the shorter of two delays but by the race time of each. All races of a feed are, exactly if
the largest one with the longest gaps is, and the time unit alone sees to that exactly if a full race clock does
not exceed the longest delay. In such a setting nothing that is to come is ever further away, whatever a service
comes to, unless somebody schedules an event for a point in time. -/
theorem placed_in_reach_iff (c : Config) :
    (∀ (h : Hub) (delay : Nat) (m : Message), h.timeline.Sound →
      (h.post delay m).2.timeline.pending =
        insert ⟨h.clock + min delay longestDelay, (h.post delay m).1, m⟩ h.timeline.pending ∧
      h.PlacesInReach (h.post delay m).2) ∧
    (∀ (f : Feed) (r : RaceRequest) (race : BookedRace), f.hub.timeline.Sound → (f.launch r).1 = .ok race →
      (f.hub.PlacesInReach (f.launch r).2.hub ↔ race.duration.toNanos ≤ longestDelay)) ∧
    (c.RacesInReach ↔ ∀ (f : Feed) (r : RaceRequest) (race : BookedRace), f.config = c →
      f.hub.timeline.Sound → (f.launch r).1 = .ok race → f.hub.PlacesInReach (f.launch r).2.hub) ∧
    ((∀ pacing bounds, { c with pacing, bounds }.RacesInReach) ↔
      c.timeUnit.toNanos * (UInt32.size - 1) / 100 ≤ longestDelay) ∧
    ∀ s t : Service, s.Proceeds t → s.feed.config = c → c.RacesInReach → s.hub.timeline.Sound → s.hub.InReach →
      t.hub.InReach := by
  refine ⟨fun _ delay m sound => ⟨Hub.post_pending sound delay m, Hub.post_placesInReach sound delay m⟩,
    fun _ _ _ sound launched => launch_placesInReach_iff sound launched, c.racesInReach_iff,
    c.racesInReach_unit_iff, ?_⟩
  rintro s t proceeds rfl short sound inReach
  exact (proceeds.trails.2 short).inReach sound inReach

/-- With the default setting an event is at most thirty years away, and a race is within reach. A time unit of
twenty-two seconds is short enough for any setting, one of twenty-three seconds is not. -/
theorem default_setting_in_reach :
    let f := start {} [] (.ofWords fun _ => 0)
    let later := f.hub.moveClock 5
    let r : RaceRequest := ⟨"M", 1, ["x"]⟩
    (⟨later.clock + longestDelay, 0, .raw "x"⟩ : Event) ∈
        (later.post Duration.longest.toNanos (.raw "x")).2.timeline.pending ∧
      f.config.RacesInReach ∧ f.hub.PlacesInReach (f.launch r).2.hub ∧
      (∀ pacing bounds, { f.config with timeUnit := .ofParts 22 0, pacing, bounds }.RacesInReach) ∧
      ¬ (∀ pacing bounds, { f.config with timeUnit := .ofParts 23 0, pacing, bounds }.RacesInReach) ∧
      (f.perform (.race r)).2.hub.InReach := by
  intro f later r
  obtain ⟨posts, launches, _, _, proceeds⟩ := placed_in_reach_iff f.config
  obtain ⟨_, _, _, shorter, _⟩ := placed_in_reach_iff { f.config with timeUnit := .ofParts 22 0 }
  obtain ⟨_, _, _, longer, _⟩ := placed_in_reach_iff { f.config with timeUnit := .ofParts 23 0 }
  have sound : f.hub.timeline.Sound := Timeline.sound_empty
  let rundown : Rundown := ⟨"M", [⟨.ofCentis 0, .status "M" .registered⟩, ⟨.ofCentis 300, .status "M" .started⟩,
    ⟨.ofCentis 800, .split ⟨"M", "x", 1, .ofCentis 800, 1, none⟩⟩, ⟨.ofCentis 900, .status "M" .finished⟩,
    ⟨.ofCentis 1400, .status "M" .final⟩]⟩
  have planned : (f.plan r).1 = .ok rundown := by decide +kernel
  have launched := congrArg Prod.fst (launch_planned planned).2.1
  have short : f.config.RacesInReach := by decide +kernel
  have performed := proceeds _ _ (.perform f (.race r)) rfl short sound fun e member =>
    absurd member (Finset.notMem_empty e)
  refine ⟨?_, short, (launches f r _ sound launched).mpr (by decide +kernel), shorter.mpr (by decide +kernel),
    fun kept => absurd (longer.mp kept) (by decide +kernel), performed⟩
  have capped : min Duration.longest.toNanos longestDelay = longestDelay := by decide
  rw [(posts later Duration.longest.toNanos (.raw "x") sound).1, capped]
  exact Finset.mem_insert_self _ _

/-- If a time unit lasts four years, the final results of a race without splits are due after thirty-two years,
while the longest delay is thirty. -/
theorem race_ends_out_of_reach : ¬ ((∀ (h : Hub) (delay : Nat) (m : Message), h.timeline.Sound →
      h.PlacesInReach (h.post delay m).2) ∧
    ∀ (f : Feed) (r : RaceRequest) (race : BookedRace), f.hub.timeline.Sound → (f.launch r).1 = .ok race →
      f.hub.PlacesInReach (f.launch r).2.hub) := by
  rintro ⟨_, kept⟩
  let f := start { timeUnit := .ofParts 126144000 0 } [] (.ofWords fun _ => 0)
  let r : RaceRequest := ⟨"K1", 0, []⟩
  let rundown : Rundown := ⟨"K1", [⟨.ofCentis 0, .status "K1" .registered⟩, ⟨.ofCentis 300, .status "K1" .started⟩,
    ⟨.ofCentis 300, .status "K1" .finished⟩, ⟨.ofCentis 800, .status "K1" .final⟩]⟩
  have planned : (f.plan r).1 = .ok rundown := by decide +kernel
  have launched := congrArg Prod.fst (launch_planned planned).2.1
  have sound : f.hub.timeline.Sound := Timeline.sound_empty
  obtain ⟨member, fresh⟩ := (launch_places sound planned ⟨1009152000000000000, 3, .status "K1" .final⟩).mpr
    (by decide +kernel)
  have reach : 1009152000000000000 ≤ 0 + longestDelay := kept f r _ sound launched _ member fresh
  exact absurd reach (by decide)

end Feed

end LiveTiming
