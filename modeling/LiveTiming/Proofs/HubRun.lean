import LiveTiming.Hub
import LiveTiming.Proofs.Timeline

namespace LiveTiming

/-- What can happen to an event: it is scheduled, it is cancelled, or it is taken at
some time to be sent. -/
inductive Happening
  | posted (e : Event)
  | cancelled (id : EventId)
  | fired (e : Event) (time : Nat)
deriving DecidableEq

/-- The events still to come after some happenings, of which the latest stands first,
when `events` were to come before them. A cancelled event is gone at once. -/
def pendingAfter (events : Finset Event) : List Happening → Finset Event
  | [] => events
  | .posted e :: past => insert e (pendingAfter events past)
  | .cancelled id :: past => (pendingAfter events past).filter (·.id ≠ id)
  | .fired e _ :: past => (pendingAfter events past).erase e

/-- The number of an event that is scheduled. -/
def Happening.postedId? : Happening → Option EventId
  | .posted e => some e.id
  | _ => none

/-- The numbers of the events that were scheduled, the latest first. -/
def postedIds (past : List Happening) : List EventId :=
  past.filterMap Happening.postedId?

/-- What is to come after a past is to come after its later part, from what the earlier part left. -/
theorem pendingAfter_append (events : Finset Event) (more past : List Happening) :
    pendingAfter events (more ++ past) = pendingAfter (pendingAfter events past) more := by
  induction more with
  | nil => rfl
  | cons x more ih => cases x <;> simp [pendingAfter, ih]

/-- What is to come was to come from the start, or was scheduled since. -/
theorem posted_of_pending {events : Finset Event} {past : List Happening} {e : Event}
    (member : e ∈ pendingAfter events past) : e ∈ events ∨ .posted e ∈ past := by
  induction past with
  | nil => exact Or.inl member
  | cons x past ih =>
    cases x with
    | posted other =>
      rcases Finset.mem_insert.mp member with same | old
      · exact Or.inr (same ▸ List.mem_cons_self ..)
      · exact (ih old).imp_right (List.mem_cons_of_mem _)
    | cancelled => exact (ih (Finset.mem_filter.mp member).1).imp_right (List.mem_cons_of_mem _)
    | fired => exact (ih (Finset.mem_erase.mp member).2).imp_right (List.mem_cons_of_mem _)

/-- Where events are only scheduled, they are added to what is to come. -/
theorem mem_pendingAfter_posts {events : Finset Event} {past : List Happening}
    (posts : ∀ x ∈ past, ∃ e, x = .posted e) {e : Event} :
    e ∈ pendingAfter events past ↔ e ∈ events ∨ .posted e ∈ past := by
  refine ⟨posted_of_pending, fun member => ?_⟩
  induction past with
  | nil => exact member.resolve_right List.not_mem_nil
  | cons x past ih =>
    have later := ih fun y member => posts y (List.mem_cons_of_mem _ member)
    obtain ⟨other, rfl⟩ := posts x (List.mem_cons_self ..)
    refine Finset.mem_insert.mpr ?_
    rcases member with old | posted
    · exact Or.inr (later (Or.inl old))
    · rcases List.mem_cons.mp posted with same | earlier
      · exact Or.inl (Happening.posted.inj same)
      · exact Or.inr (later (Or.inr earlier))

/-- What is to come and was not scheduled lately was to come before. -/
theorem pending_before {events : Finset Event} {more past : List Happening} {e : Event}
    (member : e ∈ pendingAfter events (more ++ past)) (unposted : .posted e ∉ more) :
    e ∈ pendingAfter events past := by
  rw [pendingAfter_append] at member
  exact (posted_of_pending member).resolve_right unposted

theorem postedIds_append (more past : List Happening) :
    postedIds (more ++ past) = postedIds more ++ postedIds past :=
  List.filterMap_append

theorem mem_postedIds {past : List Happening} {e : Event} (member : .posted e ∈ past) :
    e.id ∈ postedIds past :=
  List.mem_filterMap.mpr ⟨_, member, rfl⟩

/-- A number that is given out once stands for one event. -/
theorem posted_eq {past : List Happening} (nodup : (postedIds past).Nodup) {a b : Event}
    (left : .posted a ∈ past) (right : .posted b ∈ past) (same : a.id = b.id) : a = b := by
  induction past with
  | nil => cases left
  | cons x past ih =>
    have rest : (postedIds past).Nodup := nodup.sublist ((List.sublist_cons_self x past).filterMap _)
    have first {e other : Event} (head : x = .posted e) (old : .posted other ∈ past) :
        e.id ≠ other.id := by
      subst head
      exact fun same => (List.nodup_cons.mp nodup).1 (same ▸ mem_postedIds old)
    rcases List.mem_cons.mp left with rfl | oldLeft
    · rcases List.mem_cons.mp right with same' | oldRight
      · exact (Happening.posted.inj same').symm
      · exact absurd same (first rfl oldRight)
    · rcases List.mem_cons.mp right with rfl | oldRight
      · exact absurd same.symm (first rfl oldLeft)
      · exact ih rest oldLeft oldRight

/-- A step of a hub, and what happens in it. The queue of events is only touched by one
caller at a time, so passes, subscribers and operators take their steps in any order.
What a step does to subscribers and registrations does not matter here. -/
inductive Hub.Step : Hub → Option Happening → Hub → Prop
  | postAt {h time m} : Step h (some (.posted ⟨time, h.timeline.nextId, m⟩)) (h.postAt time m).2
  | cancel {h id} : Step h (some (.cancelled id)) (h.cancel id).2
  | fire {h e after} : h.takeDue = (some e, after) → Step h (some (.fired e h.clock)) after
  | rest {h after} : h.takeDue = (none, after) → Step h none after
  | look {h} : Step h none { h with timeline := h.timeline.nextTime.2 }
  | moveClock {h time} : Step h none (h.moveClock time)
  | aside {h after} : after.timeline = h.timeline → after.clock = h.clock → Step h none after

/-- Any number of steps, with what happened in them, the latest first. -/
inductive Hub.Run (start : Hub) : List Happening → Hub → Prop
  | start : Run start [] start
  | next {past h new after} :
      Run start past h → Step h new after → Run start (new.toList ++ past) after

namespace Hub

variable {a b c h after : Hub} {past more : List Happening} {new : Option Happening}

theorem Step.run (step : Step h new after) : Run h new.toList after := by
  simpa using Run.start.next step

theorem Run.trans (run : Run a past b) (later : Run b more c) : Run a (more ++ past) c := by
  induction later with
  | start => exact run
  | next _ step ih =>
    rw [List.append_assoc]
    exact ih.next step

/-- To take the next event that is due changes the timeline only. -/
theorem takeDue_eq {e : Option Event} (taken : h.takeDue = (e, after)) :
    h.timeline.takeDue h.clock = (e, after.timeline) ∧ after.clock = h.clock ∧
      after.journal = h.journal := by
  cases taken
  exact ⟨rfl, rfl, rfl⟩

/-- A step keeps the queue sound, and what happens in it tells which events are still
to come. -/
theorem Step.timeline (step : Step h new after) (sound : h.timeline.Sound) :
    after.timeline.Sound ∧ after.timeline.pending = pendingAfter h.timeline.pending new.toList := by
  cases step with
  | postAt => exact ⟨Timeline.insert_sound sound _ _, Timeline.insert_pending sound _ _⟩
  | cancel => exact ⟨Timeline.cancel_sound sound _, Timeline.cancel_pending _ _⟩
  | fire taken =>
    obtain ⟨_, _, _, kept, rest, _⟩ := Timeline.takeDue_some sound (takeDue_eq taken).1
    exact ⟨kept, rest⟩
  | rest taken =>
    obtain ⟨_, kept, same, _⟩ := Timeline.takeDue_none sound (takeDue_eq taken).1
    exact ⟨kept, same⟩
  | look => exact ⟨Timeline.nextTime_sound sound, Timeline.nextTime_pending sound⟩
  | moveClock => exact ⟨sound, rfl⟩
  | aside same _ => exact ⟨same ▸ sound, by rw [same]; rfl⟩

/-- The clock never goes back. -/
theorem Step.clock_le (step : Step h new after) : h.clock ≤ after.clock := by
  cases step with
  | postAt | cancel | look => exact le_rfl
  | fire taken | rest taken => exact (takeDue_eq taken).2.1.ge
  | moveClock => exact le_max_left _ _
  | aside _ same => exact same.ge

/-- The numbers go on where they stopped. -/
theorem Step.postedIds (step : Step h new after) (sound : h.timeline.Sound) :
    List.range after.timeline.nextId =
      List.range h.timeline.nextId ++ (postedIds new.toList).reverse := by
  cases step with
  | postAt => exact List.range_succ
  | cancel | look | moveClock => exact (List.append_nil _).symm
  | fire taken =>
    obtain ⟨_, _, _, _, _, same⟩ := Timeline.takeDue_some sound (takeDue_eq taken).1
    simp [LiveTiming.postedIds, Happening.postedId?, same]
  | rest taken =>
    obtain ⟨_, _, _, same⟩ := Timeline.takeDue_none sound (takeDue_eq taken).1
    simp [LiveTiming.postedIds, same]
  | aside same _ => simp [LiveTiming.postedIds, same]

/-- What is to come is what the past says. -/
theorem Run.timeline (run : Run a past b) (sound : a.timeline.Sound) :
    b.timeline.Sound ∧ b.timeline.pending = pendingAfter a.timeline.pending past := by
  induction run with
  | start => exact ⟨sound, rfl⟩
  | next _ step ih =>
    obtain ⟨kept, same⟩ := step.timeline ih.1
    exact ⟨kept, by rw [same, ih.2, pendingAfter_append]⟩

theorem Run.clock_le (run : Run a past b) : a.clock ≤ b.clock := by
  induction run with
  | start => exact le_rfl
  | next _ step ih => exact ih.trans step.clock_le

/-- The numbers of what was scheduled are those between the first free one before and the first free one after.
-/
theorem Run.postedIds (run : Run a past b) (sound : a.timeline.Sound) :
    List.range b.timeline.nextId = List.range a.timeline.nextId ++ (postedIds past).reverse := by
  induction run with
  | start => simp [LiveTiming.postedIds]
  | next previous step ih =>
    rw [step.postedIds (previous.timeline sound).1, ih, postedIds_append, List.reverse_append,
      List.append_assoc]

theorem Run.nextId_le (run : Run a past b) (sound : a.timeline.Sound) :
    a.timeline.nextId ≤ b.timeline.nextId := by
  have length := congrArg List.length (run.postedIds sound)
  simp only [List.length_append, List.length_range] at length
  exact length ▸ Nat.le_add_right _ _

/-- No number is given out twice. -/
theorem Run.postedIds_nodup (run : Run a past b) (sound : a.timeline.Sound) :
    (LiveTiming.postedIds past).Nodup := by
  have nodup : (List.range a.timeline.nextId ++ (LiveTiming.postedIds past).reverse).Nodup :=
    run.postedIds sound ▸ List.nodup_range
  exact List.nodup_reverse.mp nodup.of_append_right

/-- What is scheduled in a run has a number that was free before it. -/
theorem Run.nextId_le_of_posted (run : Run a past b) (sound : a.timeline.Sound) {e : Event}
    (member : .posted e ∈ past) : a.timeline.nextId ≤ e.id := by
  have nodup : (List.range a.timeline.nextId ++ (LiveTiming.postedIds past).reverse).Nodup :=
    run.postedIds sound ▸ List.nodup_range
  refine Nat.le_of_not_lt fun old => ?_
  exact List.disjoint_of_nodup_append nodup (List.mem_range.mpr old)
    (List.mem_reverse.mpr (mem_postedIds member))

theorem Run.posted_lt (run : Run a past b) (sound : a.timeline.Sound) {e : Event}
    (member : .posted e ∈ past) : e.id < b.timeline.nextId := by
  refine List.mem_range.mp ?_
  rw [run.postedIds sound]
  exact List.mem_append_right _ (List.mem_reverse.mpr (mem_postedIds member))

/-- An event is only taken when it is to come and due, and before all others that are
to come then. -/
theorem Run.fired (run : Run a past b) (sound : a.timeline.Sound) {later earlier : List Happening}
    {e : Event} {now : Nat} (split : past = later ++ .fired e now :: earlier) :
    e ∈ pendingAfter a.timeline.pending earlier ∧ e.time ≤ now ∧ now ≤ b.clock ∧
      ∀ other ∈ pendingAfter a.timeline.pending earlier, e.le other = true := by
  induction run generalizing later with
  | start => simp at split
  | @next past h new after previous step ih =>
    have older {later : List Happening} (split : past = later ++ .fired e now :: earlier) :
        e ∈ pendingAfter a.timeline.pending earlier ∧ e.time ≤ now ∧ now ≤ after.clock ∧
          ∀ other ∈ pendingAfter a.timeline.pending earlier, e.le other = true := by
      obtain ⟨member, due, clock, least⟩ := ih split
      exact ⟨member, due, clock.trans step.clock_le, least⟩
    cases new with
    | none => exact older split
    | some x =>
      cases later with
      | cons y later => exact older (List.cons.inj split).2
      | nil =>
        obtain ⟨rfl, rfl⟩ := List.cons.inj split
        cases step with
        | fire taken =>
          obtain ⟨kept, pending⟩ := previous.timeline sound
          obtain ⟨member, due, least, _⟩ := Timeline.takeDue_some kept (takeDue_eq taken).1
          rw [pending] at member least
          exact ⟨member, due, (takeDue_eq taken).2.1.ge, least⟩

/-- An event that was known before a run and is to come after it was to come before it. -/
theorem Run.old_pending (run : Run a past b) (sound : a.timeline.Sound) {e : Event}
    (old : e.id < a.timeline.nextId) (member : e ∈ pendingAfter a.timeline.pending past) :
    e ∈ a.timeline.pending :=
  (posted_of_pending member).resolve_right fun posted =>
    absurd old (Nat.not_lt_of_le (run.nextId_le_of_posted sound posted))

/-- Nothing known comes back once it is taken or cancelled. -/
theorem Run.contains_before (run : Run a past b) (sound : a.timeline.Sound) {id : EventId}
    (old : id < a.timeline.nextId) (live : b.timeline.contains id = true) :
    a.timeline.contains id = true := by
  obtain ⟨kept, pending⟩ := run.timeline sound
  obtain ⟨e, member, rfl⟩ := kept.contains_iff.mp live
  rw [pending] at member
  exact sound.contains_iff.mpr ⟨e, run.old_pending sound old member, rfl⟩

end Hub

end LiveTiming
