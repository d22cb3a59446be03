import LiveTiming.Proofs.HubRun

namespace LiveTiming

/-- Only a final refusal puts a number on the list of those to be evicted. -/
theorem Tally.count_evicted (tally : Tally) (id : SubscriberId) (answer : Option Refusal) :
    (tally.count id answer).evicted =
      if answer.any (·.isFinal) then tally.evicted ++ [id] else tally.evicted := by
  cases answer with
  | none => rfl
  | some refusal => cases final : refusal.isFinal <;> simp [count, final]

namespace Hub

variable {a b c h after : Hub}

/-- From one hub to the other time passes and events are scheduled. None is cancelled
and none is sent. -/
def Grows (h after : Hub) : Prop :=
  ∃ more, Run h more after ∧ ∀ x ∈ more, ∃ e, x = .posted e

theorem Grows.refl (h : Hub) : Grows h h :=
  ⟨[], .start, by simp⟩

theorem Grows.trans (first : Grows a b) (second : Grows b c) : Grows a c := by
  obtain ⟨past, run, posts⟩ := first
  obtain ⟨more, later, morePosts⟩ := second
  refine ⟨more ++ past, run.trans later, fun x member => ?_⟩
  exact (List.mem_append.mp member).elim (morePosts x) (posts x)

theorem Grows.postAt (h : Hub) (time : Nat) (m : Message) : Grows h (h.postAt time m).2 :=
  ⟨_, Step.run .postAt, by simp⟩

theorem Grows.moveClock (h : Hub) (time : Nat) : Grows h (h.moveClock time) :=
  ⟨_, Step.run .moveClock, by simp⟩

/-- What leaves the timeline and the clock alone schedules nothing. -/
theorem Grows.aside (same : after.timeline = h.timeline) (clock : after.clock = h.clock) :
    Grows h after :=
  ⟨_, Step.run (.aside same clock), by simp⟩

theorem Grows.sound (grows : Grows a b) (sound : a.timeline.Sound) : b.timeline.Sound := by
  obtain ⟨more, run, _⟩ := grows
  exact (run.timeline sound).1

/-- What was known before is to come after it if and only if it was to come before. -/
theorem Grows.old_pending_iff (grows : Grows a b) (sound : a.timeline.Sound) {e : Event}
    (old : e.id < a.timeline.nextId) : e ∈ b.timeline.pending ↔ e ∈ a.timeline.pending := by
  obtain ⟨more, run, posts⟩ := grows
  rw [(run.timeline sound).2, mem_pendingAfter_posts posts]
  refine or_iff_left fun posted => ?_
  exact absurd old (Nat.not_lt_of_le (run.nextId_le_of_posted sound posted))

/-- A relation between a hub and what it comes to when time passes and subscribers are given frames. -/
structure Course (R : Hub → Hub → Prop) : Prop where
  refl : ∀ h, R h h
  trans : ∀ {a b c}, R a b → R b c → R a c
  post : ∀ h delay m, R h (h.post delay m).2
  moveClock : ∀ h time, R h (h.moveClock time)
  aside : ∀ {h after}, after.timeline = h.timeline → after.clock = h.clock → R h after

namespace Course

variable {R : Hub → Hub → Prop}

theorem postAll (course : Course R) (h : Hub) (followUps : List (Nat × Message)) : R h (h.postAll followUps) := by
  induction followUps generalizing h with
  | nil => exact course.refl h
  | cons followUp rest ih => exact course.trans (course.post h followUp.1 followUp.2) (ih _)

/-- What a subscriber schedules when it is given a frame is a stretch of the course. -/
theorem take (course : Course R) (h : Hub) (subscriber : Nat) (frame : Bytes) :
    R h (h.take subscriber frame).2 := by
  unfold Hub.take
  dsimp only
  split
  · exact course.aside rfl rfl
  · refine course.trans ?_ (course.postAll _ _)
    exact course.aside rfl rfl

theorem deliver (course : Course R) (frame : Bytes) (t : Tally) (h : Hub) (e : Entry) :
    R h (deliver frame (t, h) e).2 :=
  course.trans (course.moveClock h _) (course.take _ _ _)

theorem deliverAll (course : Course R) (frame : Bytes) (entries : List Entry) (t : Tally) (h : Hub) :
    R h (entries.foldl (Hub.deliver frame) (t, h)).2 := by
  induction entries generalizing t h with
  | nil => exact course.refl h
  | cons e rest ih => exact course.trans (course.deliver frame t h e) (ih _ _)

/-- A broadcast is a walk from subscriber to subscriber, and an eviction. -/
theorem broadcast (course : Course R) (h : Hub) (m : Message) : R h (h.broadcast m).2 :=
  course.trans (course.deliverAll _ _ _ h) (course.aside rfl rfl)

end Course

theorem grows_course : Course Grows where
  refl := .refl
  trans := .trans
  post h _ m := .postAt h _ m
  moveClock := .moveClock
  aside := .aside

/-- A broadcast schedules events and lets time pass, and cancels and takes none. -/
theorem broadcast_grows (h : Hub) (m : Message) : Grows h (h.broadcast m).2 :=
  grows_course.broadcast h m

theorem postAll_clock (h : Hub) (followUps : List (Nat × Message)) :
    (h.postAll followUps).clock = h.clock := by
  induction followUps generalizing h with
  | nil => rfl
  | cons followUp rest ih => exact ih _

theorem postAll_journal (h : Hub) (followUps : List (Nat × Message)) :
    (h.postAll followUps).journal = h.journal := by
  induction followUps generalizing h with
  | nil => rfl
  | cons followUp rest ih => exact ih _

theorem take_clock (h : Hub) (subscriber : Nat) (frame : Bytes) :
    (h.take subscriber frame).2.clock = h.clock := by
  unfold take
  dsimp only
  split
  · rfl
  · exact postAll_clock _ _

theorem postAll_roster (h : Hub) (followUps : List (Nat × Message)) :
    (h.postAll followUps).roster = h.roster := by
  induction followUps generalizing h with
  | nil => rfl
  | cons followUp rest ih => exact ih _

theorem take_roster (h : Hub) (subscriber : Nat) (frame : Bytes) :
    (h.take subscriber frame).2.roster = h.roster := by
  unfold take
  dsimp only
  split
  · rfl
  · exact postAll_roster _ _

/-- Whoever is given a frame stands in the journal, whatever the answer is. -/
theorem take_journal (h : Hub) (subscriber : Nat) (frame : Bytes) :
    (h.take subscriber frame).2.journal = h.journal.push ⟨subscriber, h.clock, frame⟩ := by
  unfold take
  dsimp only
  split
  · rfl
  · exact postAll_journal _ _

theorem deliverAll_roster (frame : Bytes) (entries : List Entry) (t : Tally) (h : Hub) :
    (entries.foldl (deliver frame) (t, h)).2.roster = h.roster := by
  induction entries generalizing t h with
  | nil => rfl
  | cons e rest ih => exact (ih _ _).trans (take_roster _ _ _)

/-- The journal grows by deliveries of this frame, none of them earlier than now. -/
theorem deliverAll_journal (frame : Bytes) (entries : List Entry) (t : Tally) (h : Hub) :
    ∃ given, (entries.foldl (deliver frame) (t, h)).2.journal.toList = h.journal.toList ++ given ∧
      ∀ d ∈ given, d.frame = frame ∧ h.clock ≤ d.time := by
  induction entries generalizing t h with
  | nil => exact ⟨[], by simp, by simp⟩
  | cons e rest ih =>
    obtain ⟨given, grown, frames⟩ := ih (deliver frame (t, h) e).1 (deliver frame (t, h) e).2
    have journal : (deliver frame (t, h) e).2.journal =
        h.journal.push ⟨e.subscriber, (h.moveClock (h.clock + h.hold e.subscriber)).clock, frame⟩ :=
      take_journal _ _ _
    have clock : h.clock ≤ (h.moveClock (h.clock + h.hold e.subscriber)).clock := le_max_left _ _
    have later : h.clock ≤ (deliver frame (t, h) e).2.clock :=
      clock.trans (take_clock _ _ _).ge
    rw [journal, Array.toList_push, List.append_assoc] at grown
    refine ⟨_, grown, fun d member => ?_⟩
    rcases List.mem_append.mp member with first | others
    · cases List.mem_singleton.mp first
      exact ⟨rfl, clock⟩
    · exact ⟨(frames d others).1, later.trans (frames d others).2⟩

theorem broadcast_journal (h : Hub) (m : Message) :
    ∃ given, (h.broadcast m).2.journal.toList = h.journal.toList ++ given ∧
      ∀ d ∈ given, d.frame = Frame.encode m ∧ h.clock ≤ d.time :=
  deliverAll_journal _ _ _ h

/-- Whether an event is taken to be sent. -/
def isFiring : Happening → Bool
  | .fired _ _ => true
  | _ => false

/-- A pass that sends what is due takes its events one by one, as many as it counts, and
gives nobody a frame but of an event that it took before. -/
theorem sendDue_run {fuel count : Nat} (sends : h.sendDue fuel = some (count, after)) :
    ∃ pass given, Run h pass after ∧ pass.countP isFiring = count ∧
      after.journal.toList = h.journal.toList ++ given ∧
      ∀ d ∈ given, ∃ e now, .fired e now ∈ pass ∧ d.frame = Frame.encode e.message ∧ now ≤ d.time := by
  induction fuel generalizing h count with
  | zero => simp [sendDue] at sends
  | succ fuel ih =>
    unfold sendDue at sends
    split at sends
    · rename_i rested taken
      cases sends
      refine ⟨[], [], Step.run (.rest taken), rfl, ?_, by simp⟩
      simp [(takeDue_eq taken).2.2]
    · rename_i e rest taken
      obtain ⟨⟨others, final⟩, sendsRest, same⟩ := Option.map_eq_some_iff.mp sends
      cases same
      obtain ⟨pass, given, run, counted, grown, frames⟩ := ih sendsRest
      obtain ⟨posts, broadcastRun, onlyPosts⟩ := broadcast_grows rest e.message
      obtain ⟨given₀, grown₀, frames₀⟩ := broadcast_journal rest e.message
      have none : posts.countP isFiring = 0 := by
        refine List.countP_eq_zero.mpr fun x member => ?_
        obtain ⟨e, rfl⟩ := onlyPosts x member
        simp [isFiring]
      refine ⟨pass ++ posts ++ [.fired e h.clock], given₀ ++ given,
        ?_, ?_, ?_, ?_⟩
      · exact List.append_assoc .. ▸ ((Step.run (.fire taken)).trans broadcastRun).trans run
      · simp [List.countP_append, counted, none, isFiring]
      · rw [grown, grown₀, (takeDue_eq taken).2.2, List.append_assoc]
      · intro d member
        rcases List.mem_append.mp member with own | others
        · refine ⟨e, h.clock, by simp, (frames₀ d own).1, ?_⟩
          exact (takeDue_eq taken).2.1.ge.trans (frames₀ d own).2
        · obtain ⟨e', now, fired, rest⟩ := frames d others
          exact ⟨e', now, by simp [fired], rest⟩

end Hub

end LiveTiming
