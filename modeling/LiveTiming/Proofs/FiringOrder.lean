import LiveTiming.Proofs.ServiceRun

namespace LiveTiming.Hub

variable {start h : Hub} {past : List Happening}

theorem Run.posted_before (run : Run { start with timeline := {} } past h) {later moment : List Happening}
    (split : past = later ++ moment) {e : Event} (member : e ∈ pendingAfter ∅ moment) :
    .posted e ∉ later := by
  intro again
  have first : .posted e ∈ moment := (posted_of_pending member).resolve_left (Finset.notMem_empty e)
  have nodup := run.postedIds_nodup Timeline.sound_empty
  rw [split, postedIds_append] at nodup
  exact List.disjoint_of_nodup_append nodup (mem_postedIds again) (mem_postedIds first)

/-- Of two events that are to come at one moment, the one that comes first has fired
when the other one does, if it ever does. -/
theorem Run.fired_first (run : Run { start with timeline := {} } past h) {later moment : List Happening}
    (split : past = later ++ moment) {a b : Event} (left : a ∈ pendingAfter ∅ moment)
    (right : b ∈ pendingAfter ∅ moment) (different : a ≠ b) (order : a.le b = true) {now : Nat}
    (fired : .fired a now ∈ later) {newer older : List Happening} {time : Nat}
    (other : later = newer ++ .fired b time :: older) : .fired a now ∈ older := by
  rw [other] at fired
  rcases List.mem_append.mp fired with after | before
  · obtain ⟨last, between, cut⟩ := List.append_of_mem after
    have whole : past = last ++ .fired a now :: (between ++ .fired b time :: (older ++ moment)) := by
      rw [split, other, cut]
      simp
    have unposted : .posted a ∉ between ++ [.fired b time] := fun again =>
      run.posted_before split left (by
        rw [other, cut]
        rcases List.mem_append.mp again with inside | same
        · simp [inside]
        · simp at same)
    have stays : a ∈ pendingAfter ∅ (older ++ moment) := by
      refine pending_before ?_ unposted
      simpa using (run.fired Timeline.sound_empty whole).1
    have earlier : past = newer ++ .fired b time :: (older ++ moment) := by
      rw [split, other]
      simp
    have least := (run.fired Timeline.sound_empty earlier).2.2.2 a stays
    have nodup := run.postedIds_nodup Timeline.sound_empty
    have posted {e : Event} (member : e ∈ pendingAfter ∅ moment) : .posted e ∈ past := by
      rw [split]
      exact List.mem_append_right _ ((posted_of_pending member).resolve_left (Finset.notMem_empty e))
    exact absurd (posted_eq nodup (posted left) (posted right) (Event.id_eq_of_le order least)) different
  · rcases List.mem_cons.mp before with same | older
    · cases same
      exact absurd rfl different
    · exact older

/-- In every run of a hub with an empty timeline, an event fires only when it is to come
and due, and before all others that are to come then. So of two events that are to
come at one moment the first one fires first, if both do. A pass goes on with such a
run, in which it fires as many events as it counts, and gives nobody the frame of an
event before its time. So does everything that a service does by itself. -/
theorem events_fire_in_order (run : Run { start with timeline := {} } past h) :
    (∀ later earlier e now, past = later ++ .fired e now :: earlier →
      e ∈ pendingAfter ∅ earlier ∧ e.time ≤ now ∧ now ≤ h.clock ∧
        ∀ other ∈ pendingAfter ∅ earlier, e.le other = true) ∧
    (∀ later moment a b now, past = later ++ moment → a ∈ pendingAfter ∅ moment →
      b ∈ pendingAfter ∅ moment → a ≠ b → a.le b = true → .fired a now ∈ later →
      ∀ newer older time, later = newer ++ .fired b time :: older → .fired a now ∈ older) ∧
    (∀ fuel count after, h.sendDue fuel = some (count, after) →
      ∃ pass given, Run { start with timeline := {} } (pass ++ past) after ∧
        pass.countP isFiring = count ∧ after.journal.toList = h.journal.toList ++ given ∧
        ∀ d ∈ given, ∃ e now, .fired e now ∈ pass ∧ d.frame = Frame.encode e.message ∧
          e.time ≤ d.time) ∧
    (∀ (s next : Service) (action : Action), s.hub = h → s.step? action = some next →
      ∃ more, Run { start with timeline := {} } (more ++ past) next.hub) := by
  refine ⟨?_, ?_, ?_, ?_⟩
  · intro later earlier e now split
    exact run.fired Timeline.sound_empty split
  · intro later moment a b now split left right different order fired newer older time other
    exact run.fired_first split left right different order fired other
  · intro fuel count after sends
    obtain ⟨pass, given, passRun, counted, grown, frames⟩ := sendDue_run sends
    have whole := run.trans passRun
    refine ⟨pass, given, whole, counted, grown, fun d member => ?_⟩
    obtain ⟨e, now, fired, frame, given⟩ := frames d member
    obtain ⟨later, earlier, split⟩ := List.append_of_mem (List.mem_append_left past fired)
    have due := (whole.fired Timeline.sound_empty split).2.1
    exact ⟨e, now, fired, frame, due.trans given⟩
  · intro s next action same steps
    obtain ⟨more, later⟩ := Service.step_run steps
    exact ⟨more, run.trans (same ▸ later)⟩

/-- An event for a time that is past fires before one that was scheduled earlier and is
due later. -/
theorem past_event_fires_first :
    let waiting : Event := ⟨20, 0, .raw "waiting"⟩
    let past : Event := ⟨10, 1, .raw "past"⟩
    let h := (((({} : Hub).postAt 20 (.raw "waiting")).2.moveClock 30).postAt 10 (.raw "past")).2
    Run { ({} : Hub) with timeline := {} } [.fired past 30, .posted past, .posted waiting] h.takeDue.2 ∧
      past ∈ pendingAfter ∅ [.posted past, .posted waiting] ∧
      ∀ other ∈ pendingAfter ∅ [.posted past, .posted waiting], past.le other = true := by
  intro waiting past h
  have run : Run { ({} : Hub) with timeline := {} } [.posted past, .posted waiting] h :=
    ((Run.start.next .postAt).next .moveClock).next .postAt
  have fires : Run { ({} : Hub) with timeline := {} } [.fired past 30, .posted past, .posted waiting]
      h.takeDue.2 := run.next (.fire (Prod.ext rfl rfl))
  obtain ⟨member, _, _, least⟩ := (events_fire_in_order fires).1 [] _ past 30 rfl
  exact ⟨fires, member, least⟩

end LiveTiming.Hub
