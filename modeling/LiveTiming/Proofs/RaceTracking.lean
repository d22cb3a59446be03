import LiveTiming.Proofs.FeedRun

namespace LiveTiming.Feed

/-- The events of a race of the component, when one is accepted. -/
def Happening.simulated (component : String) : Happening → List EventId
  | .performed (.race r) (.ok (.scheduled race)) => if r.component = component then race.events else []
  | _ => []

/-- The events of all the races of a component. -/
def simulated (component : String) (past : List Happening) : List EventId :=
  past.flatMap (Happening.simulated component)

variable {f g : Feed} {past later : List Happening} {component c d : String} {id : EventId}

theorem simulated_cons (x : Happening) :
    simulated c (x :: past) = x.simulated c ++ simulated c past :=
  rfl

theorem simulated_append : simulated c (later ++ past) = simulated c later ++ simulated c past :=
  List.flatMap_append

theorem simulated_apart (x : Option LiveTiming.Happening) :
    simulated c (x.toList.map .apart ++ past) = simulated c past := by
  cases x <;> rfl

/-- Nothing but an accepted race adds to the events of a component. -/
theorem simulated_other {command : Command} {answer : Except Failure Outcome}
    (unscheduled : ∀ race, answer ≠ .ok (.scheduled race)) :
    simulated c (.performed command answer :: past) = simulated c past := by
  rw [simulated_cons]
  unfold Happening.simulated
  split
  · rename_i race same
    cases same
    exact absurd rfl (unscheduled race)
  · rfl

/-- An accepted race adds its events to those of its component. -/
theorem mem_simulated_race {r : RaceRequest} {race : BookedRace} :
    id ∈ simulated c (.performed (.race r) (.ok (.scheduled race)) :: past) ↔
      c = r.component ∧ id ∈ race.events ∨ id ∈ simulated c past := by
  rw [simulated_cons, List.mem_append]
  refine or_congr_left ?_
  unfold Happening.simulated
  dsimp only
  split
  · rename_i same
    simp [same]
  · rename_i different
    simp [Ne.symm different]

/-- A past without races of a component adds nothing to it. -/
theorem simulated_none
    (others : ∀ r race, .performed (.race r) (.ok (.scheduled race)) ∈ later → r.component ≠ c) :
    simulated c later = [] := by
  refine List.flatMap_eq_nil_iff.mpr fun x member => ?_
  unfold Happening.simulated
  split
  · exact if_neg (others _ _ member)
  · rfl

/-- The book of a feed holds events of races under the components they belong to, and
among them all those that are still to come. -/
structure Tracked (past : List Happening) (f : Feed) : Prop where
  sound : f.hub.timeline.Sound
  distinct : f.races.Distinct
  noted : ∀ c, ∀ id ∈ f.races.eventsOf c, id ∈ simulated c past
  kept : ∀ c, ∀ id ∈ simulated c past, f.hub.timeline.contains id = true → id ∈ f.races.eventsOf c
  issued : ∀ c, ∀ id ∈ simulated c past, id < f.hub.timeline.nextId
  apart : ∀ c d, ∀ id ∈ simulated c past, id ∈ simulated d past → c = d

namespace Tracked

/-- A feed starts with an empty book, and nothing to track. -/
theorem start (config : Config) (subscribers : List Subscriber) (generator : Generator) :
    Tracked [] (start config subscribers generator) where
  sound := Timeline.sound_empty
  distinct := List.nodup_nil
  noted _ _ member := absurd member List.not_mem_nil
  kept _ _ member := absurd member List.not_mem_nil
  issued _ _ member := absurd member List.not_mem_nil
  apart _ _ _ member := absurd member List.not_mem_nil

/-- What happens at the hub alone leaves the book right. -/
theorem moved (tracked : Tracked past f) {now : List Happening} {more : List LiveTiming.Happening}
    (run : Hub.Run f.hub more g.hub) (races : g.races = f.races)
    (same : ∀ c, simulated c now = simulated c past) : Tracked now g where
  sound := (run.timeline tracked.sound).1
  distinct := races ▸ tracked.distinct
  noted c := by
    rw [races, same]
    exact tracked.noted c
  kept c id member live := by
    rw [same] at member
    rw [races]
    exact tracked.kept c id member (run.contains_before tracked.sound (tracked.issued c id member) live)
  issued c id member := by
    rw [same] at member
    exact (tracked.issued c id member).trans_le (run.nextId_le tracked.sound)
  apart c d := by
    rw [same, same]
    exact tracked.apart c d

/-- An accepted race is tracked. -/
theorem race (tracked : Tracked past f) {r : RaceRequest} {race : BookedRace}
    (accepted : (f.perform (.race r)).1 = .ok (.scheduled race)) :
    Tracked (.performed (.race r) (.ok (.scheduled race)) :: past) (f.perform (.race r)).2 := by
  obtain ⟨rundown, _, _, numbers, run, races⟩ := perform_race accepted
  generalize (f.perform (.race r)).2 = g at run races
  have pruned := RaceBook.prune_distinct tracked.distinct g.hub.timeline
  have posted (id : EventId) (member : id ∈ race.events) :
      f.hub.timeline.nextId ≤ id ∧ id < g.hub.timeline.nextId := by
    rw [numbers] at member
    obtain ⟨e, planned, rfl⟩ := List.mem_map.mp member
    have happened := mem_posts.mpr planned
    exact ⟨run.nextId_le_of_posted tracked.sound happened, run.posted_lt tracked.sound happened⟩
  refine ⟨(run.timeline tracked.sound).1, ?_, fun c id => ?_, fun c id => ?_, fun c id => ?_,
    fun c d id => ?_⟩
  · rw [races]
    exact RaceBook.extend_distinct pruned _ _
  · rw [races, RaceBook.mem_extend pruned, RaceBook.mem_prune tracked.distinct, mem_simulated_race]
    rintro (⟨old, _⟩ | new)
    · exact Or.inr (tracked.noted c id old)
    · exact Or.inl new
  · rw [races, RaceBook.mem_extend pruned, RaceBook.mem_prune tracked.distinct, mem_simulated_race]
    rintro (new | old) live
    · exact Or.inr new
    · have before := run.contains_before tracked.sound (tracked.issued c id old) live
      exact Or.inl ⟨tracked.kept c id old before, live⟩
  · rw [mem_simulated_race]
    rintro (⟨_, new⟩ | old)
    · exact (posted id new).2
    · exact (tracked.issued c id old).trans_le (run.nextId_le tracked.sound)
  · have fresh {c : String} (old : id ∈ simulated c past) : id ∉ race.events := fun new =>
      absurd (tracked.issued c id old) (Nat.not_lt_of_le (posted id new).1)
    rw [mem_simulated_race, mem_simulated_race]
    rintro (⟨left, new⟩ | left) (⟨right, again⟩ | right)
    · exact left.trans right.symm
    · exact absurd new (fresh right)
    · exact absurd again (fresh left)
    · exact tracked.apart c d id left right

/-- The events of a component that are to come are those in the book. -/
theorem pending_iff (tracked : Tracked past f) (live : f.hub.timeline.contains id = true) :
    id ∈ simulated c past ↔ id ∈ f.races.eventsOf c :=
  ⟨fun own => tracked.kept c id own live, tracked.noted c id⟩

/-- An abort cancels the events of the component's races that are to come, and those
only, and counts them. -/
theorem perform_abort (tracked : Tracked past f) (component : String) :
    (∃ more, Hub.Run f.hub more (f.perform (.abort component)).2.hub) ∧
    (f.perform (.abort component)).1 = .ok (.aborted component
      (f.hub.timeline.pending.filter (·.id ∈ simulated component past)).card) ∧
    (f.perform (.abort component)).2.hub.timeline.pending =
      f.hub.timeline.pending \ f.hub.timeline.pending.filter (·.id ∈ simulated component past) := by
  obtain ⟨run, pending, count⟩ := Hub.cancelAll_spec tracked.sound (f.races.eventsOf component)
  have noted {e : Event} (member : e ∈ f.hub.timeline.pending) :
      e.id ∈ f.races.eventsOf component ↔ e.id ∈ simulated component past :=
    (tracked.pending_iff (tracked.sound.contains_iff.mpr ⟨e, member, rfl⟩)).symm
  rw [Feed.perform_abort]
  refine ⟨⟨_, run⟩, ?_, ?_⟩
  · rw [count, Finset.filter_congr fun e => noted]
  · rw [pending, Finset.filter_congr fun e member => not_congr (noted member), Finset.filter_not]

/-- None of the component's events is to come after an abort. -/
theorem abort_spares (tracked : Tracked past f) {e : Event}
    (member : e ∈ (f.perform (.abort component)).2.hub.timeline.pending) :
    e.id ∉ simulated component past := by
  rw [(tracked.perform_abort component).2.2] at member
  obtain ⟨old, spared⟩ := Finset.mem_sdiff.mp member
  exact fun own => spared (Finset.mem_filter.mpr ⟨old, own⟩)

theorem abort (tracked : Tracked past f) (component : String) :
    Tracked (.performed (.abort component) (f.perform (.abort component)).1 :: past)
      (f.perform (.abort component)).2 := by
  obtain ⟨⟨more, run⟩, _⟩ := tracked.perform_abort component
  have sound := (run.timeline tracked.sound).1
  refine ⟨sound, RaceBook.forget_distinct tracked.distinct _, fun c id member => ?_,
    fun c id member live => ?_, fun c id member => ?_, tracked.apart⟩
  · exact tracked.noted c id ((RaceBook.mem_forget tracked.distinct).mp member).2
  · have before := run.contains_before tracked.sound (tracked.issued c id member) live
    refine (RaceBook.mem_forget tracked.distinct).mpr ⟨?_, tracked.kept c id member before⟩
    rintro rfl
    obtain ⟨e, stays, rfl⟩ := sound.contains_iff.mp live
    exact tracked.abort_spares stays member
  · exact (tracked.issued c id member).trans_le (run.nextId_le tracked.sound)

/-- Every command leaves the book right. -/
theorem perform (tracked : Tracked past f) (command : Command) :
    Tracked (.performed command (f.perform command).1 :: past) (f.perform command).2 := by
  rcases perform_other f command with
    ⟨r, race, rfl, accepted⟩ | ⟨component, rfl⟩ | ⟨grows, races, unscheduled⟩
  · rw [accepted]
    exact tracked.race accepted
  · exact tracked.abort component
  · obtain ⟨more, run, _⟩ := grows
    exact tracked.moved run races fun c => simulated_other unscheduled

/-- The book stays right along every run. -/
theorem run (tracked : Tracked past f) (run : Run f later g) : Tracked (later ++ past) g := by
  induction run with
  | start => exact tracked
  | perform command _ ih => exact ih.perform command
  | @apart _ f _ hub _ step ih =>
    rw [List.append_assoc]
    exact ih.moved (g := { f with hub }) step.run rfl fun c => simulated_apart _

/-- The status counts the events that are to come, and the components of those. -/
theorem report (tracked : Tracked past f) :
    ∃ components : Finset String,
      (∀ c, c ∈ components ↔ ∃ e ∈ f.hub.timeline.pending, e.id ∈ simulated c past) ∧
      (f.perform .report).1 = .ok (.status f.hub.roster.entries.length f.hub.timeline.pending.card
        components.card) := by
  obtain ⟨components, count, member⟩ := RaceBook.active_eq tracked.distinct f.hub.timeline
  refine ⟨components, fun c => (member c).trans ?_, ?_⟩
  · constructor
    · rintro ⟨id, noted, live⟩
      obtain ⟨e, pending, rfl⟩ := tracked.sound.contains_iff.mp live
      exact ⟨e, pending, tracked.noted c _ noted⟩
    · rintro ⟨e, pending, own⟩
      have live := tracked.sound.contains_iff.mpr ⟨e, pending, rfl⟩
      exact ⟨e.id, tracked.kept c _ own live, live⟩
  · rw [perform_answer (f := f) rfl, count, tracked.sound.size_eq]

end Tracked

/-- In every run of a feed, the events of a component's races that are to come are those
that the book holds for it and that are to come. An abort cancels them, and no others,
and counts them. None of them fires later, and a second abort finds none unless a race
of the component was accepted in between. A report counts what is to come, and the
components that have events of races among it. -/
theorem races_are_tracked {config : Config} {subscribers : List Subscriber} {generator : Generator}
    (run : Run (start config subscribers generator) past f) (component : String) :
    let own := f.hub.timeline.pending.filter (·.id ∈ simulated component past)
    let aborted := (f.perform (.abort component)).2
    (∀ id, f.hub.timeline.contains id = true →
      (id ∈ simulated component past ↔ id ∈ f.races.eventsOf component)) ∧
    (f.perform (.abort component)).1 = .ok (.aborted component own.card) ∧
    aborted.hub.timeline.pending = f.hub.timeline.pending \ own ∧
    (∀ later g, Run aborted later g →
      (∀ e now, .apart (.fired e now) ∈ later → ∀ cancelled ∈ own, e.id ≠ cancelled.id) ∧
      ((∀ r race, .performed (.race r) (.ok (.scheduled race)) ∈ later → r.component ≠ component) →
        (g.perform (.abort component)).1 = .ok (.aborted component 0))) ∧
    ∃ components : Finset String,
      (∀ c, c ∈ components ↔ ∃ e ∈ f.hub.timeline.pending, e.id ∈ simulated c past) ∧
      (f.perform .report).1 = .ok (.status f.hub.roster.entries.length f.hub.timeline.pending.card
        components.card) := by
  have tracked : Tracked past f := by
    simpa using (Tracked.start config subscribers generator).run run
  intro own aborted
  obtain ⟨_, answer, pending⟩ := tracked.perform_abort component
  have afterwards := tracked.abort component
  refine ⟨fun id live => tracked.pending_iff live, answer, pending, fun later g laterRun => ⟨?_, ?_⟩,
    tracked.report⟩
  · intro e now fired cancelled member same
    have own : e.id ∈ simulated component past := same ▸ (Finset.mem_filter.mp member).2
    have stays := laterRun.fired_pending afterwards.sound fired (afterwards.issued component e.id own)
    exact tracked.abort_spares stays own
  · intro others
    have final := afterwards.run laterRun
    obtain ⟨steps, hubRun, _⟩ := laterRun.hub afterwards.sound
    have none : g.hub.timeline.pending.filter (·.id ∈ simulated component
        (later ++ .performed (.abort component) (f.perform (.abort component)).1 :: past)) = ∅ := by
      refine Finset.filter_eq_empty_iff.mpr fun e member own => ?_
      rw [simulated_append, simulated_none others] at own
      rw [(hubRun.timeline afterwards.sound).2] at member
      have stays := hubRun.old_pending afterwards.sound (afterwards.issued component e.id own) member
      exact tracked.abort_spares stays own
    rw [(final.perform_abort component).2.1, none, Finset.card_empty]

/-- A race without splits has four events. Once it is aborted none of them fires. -/
theorem aborted_race_stays_silent :
    let f := start {} [] (.ofWords fun _ => 0)
    let raced := (f.perform (.race ⟨"M", 0, []⟩)).2
    let own := raced.hub.timeline.pending.filter
      (·.id ∈ simulated "M" [.performed (.race ⟨"M", 0, []⟩) (f.perform (.race ⟨"M", 0, []⟩)).1])
    own.card = 4 ∧ ∀ later g, Run (raced.perform (.abort "M")).2 later g →
      ∀ e now, .apart (.fired e now) ∈ later → ∀ cancelled ∈ own, e.id ≠ cancelled.id := by
  intro f raced own
  have first : Run f [] f := .start
  obtain ⟨_, answer, _, silent, _⟩ := races_are_tracked (first.perform (.race ⟨"M", 0, []⟩)) "M"
  have counted : (raced.perform (.abort "M")).1 = .ok (.aborted "M" 4) := by decide +kernel
  obtain ⟨_, card⟩ := Outcome.aborted.inj (Except.ok.inj (answer.symm.trans counted))
  exact ⟨card, fun later g laterRun => (silent later g laterRun).1⟩

end LiveTiming.Feed
