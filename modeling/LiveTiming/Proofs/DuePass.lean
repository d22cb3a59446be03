import LiveTiming.Proofs.Agenda
import LiveTiming.Proofs.HubAgreement
import LiveTiming.Proofs.PromptTasks

namespace LiveTiming

namespace Timeline

/-- The events that are still to come and due by now, in their order. -/
def due (t : Timeline) (now : Nat) : List Event :=
  (t.heap.toList.filter fun e => t.live.contains e.id && decide (e.time ≤ now)).insertionSort
    fun a b => a.le b = true

/-- Adds events for some times in turn. -/
def insertAll (t : Timeline) (posts : List (Nat × Message)) : Timeline :=
  posts.foldl (fun t post => (t.insert post.1 post.2).2) t

variable {t u : Timeline} {e : Event} {now : Nat}

theorem mem_due : e ∈ t.due now ↔ e ∈ t.pending ∧ e.time ≤ now := by
  simp only [due, List.mem_insertionSort, List.mem_filter, Bool.and_eq_true, decide_eq_true_eq, mem_pending,
    and_assoc]

/-- The events due are listed in the order in which they go out. -/
theorem due_ordered (t : Timeline) (now : Nat) : (t.due now).Pairwise (·.le · = true) :=
  List.pairwise_insertionSort _ _

/-- No event is due twice. -/
theorem Sound.due_nodup (sound : t.Sound) (now : Nat) : (t.due now).Nodup :=
  (List.perm_insertionSort _ _).nodup_iff.mpr ((List.Nodup.of_map _ sound.distinct).filter _)

theorem insertAll_append (t : Timeline) (posts more : List (Nat × Message)) :
    t.insertAll (posts ++ more) = (t.insertAll posts).insertAll more :=
  List.foldl_append

/-- Every event scheduled uses up one identifier. -/
theorem insertAll_nextId (t : Timeline) (posts : List (Nat × Message)) :
    (t.insertAll posts).nextId = t.nextId + posts.length := by
  induction posts generalizing t with
  | nil => rfl
  | cons post posts ih =>
    have first : (t.insert post.1 post.2).2.nextId = t.nextId + 1 := rfl
    have rest := ih (t.insert post.1 post.2).2
    rw [first, Nat.add_assoc, Nat.add_comm 1] at rest
    exact rest

/-- Scheduling changes the timeline unless there is nothing to schedule. -/
theorem nothing_added {posts : List (Nat × Message)} (same : t.insertAll posts = t) : posts = [] := by
  have numbers := congrArg Timeline.nextId same
  rw [insertAll_nextId] at numbers
  exact List.length_eq_zero_iff.mp (Nat.add_eq_left.mp numbers)

/-- From a timeline an event is taken that was still to come. -/
structure Lacks (u : Timeline) (e : Event) (t : Timeline) : Prop where
  left : t.Sound
  right : u.Sound
  member : e ∈ t.pending
  pending : u.pending = t.pending.erase e
  nextId : u.nextId = t.nextId

theorem takeDue_lacks (sound : t.Sound) (taken : t.takeDue now = (some e, u)) : u.Lacks e t := by
  obtain ⟨member, _, _, kept, rest, number⟩ := takeDue_some sound taken
  exact ⟨sound, kept, member, rest, number⟩

/-- The same events scheduled on both leave the same one missing. -/
theorem Lacks.insertAll (lacks : u.Lacks e t) (posts : List (Nat × Message)) :
    (u.insertAll posts).Lacks e (t.insertAll posts) := by
  induction posts generalizing t u with
  | nil => exact lacks
  | cons post posts ih =>
    obtain ⟨left, right, member, pending, nextId⟩ := lacks
    refine ih ⟨insert_sound left _ _, insert_sound right _ _, ?_, ?_, congrArg (· + 1) nextId⟩
    · rw [insert_pending left]
      exact Finset.mem_insert_of_mem member
    · have different : (⟨post.1, t.nextId, post.2⟩ : Event) ≠ e := fun same =>
        absurd (congrArg Event.id same) (Nat.ne_of_gt (left.pending_issued member))
      rw [insert_pending left, insert_pending right, pending, nextId, Finset.erase_insert_of_ne different]

end Timeline

namespace Hub

/-- The same hub with another timeline. -/
def withTimeline (h : Hub) (timeline : Timeline) : Hub :=
  { h with timeline }

/-- Sends the messages of some events in turn, while nobody else uses the hub. The events
are not taken out of the timeline. -/
def sendAll (h : Hub) (events : List Event) : Hub :=
  events.foldl (fun h e => (h.broadcast e.message).2) h

variable {h after rest : Hub} {e : Event} {events : List Event} {fired : List (Nat × Event)} {fuel : Nat}

/-- What is scheduled does not depend on what was scheduled before. -/
theorem postAll_withTimeline (h : Hub) (followUps : List (Nat × Message)) :
    ∃ posts, ∀ t,
      (h.withTimeline t).postAll followUps = (h.postAll followUps).withTimeline (t.insertAll posts) := by
  induction followUps generalizing h with
  | nil => exact ⟨[], fun t => rfl⟩
  | cons followUp followUps ih =>
    obtain ⟨posts, same⟩ := ih (h.post followUp.1 followUp.2).2
    exact ⟨(h.clock + min followUp.1 longestDelay, followUp.2) :: posts, fun t => same _⟩

/-- A delivery schedules the same events whatever is pending, and does nothing else with it. -/
theorem take_withTimeline (h : Hub) (i : Nat) (frame : Bytes) : ∃ posts, ∀ t,
    (h.withTimeline t).take i frame =
      ((h.take i frame).1, (h.take i frame).2.withTimeline (t.insertAll posts)) := by
  cases known : h.subscribers[i]? with
  | none =>
    refine ⟨[], fun t => ?_⟩
    have same : (h.withTimeline t).subscribers[i]? = none := known
    rw [take_unknown known, take_unknown same]
    rfl
  | some s =>
    obtain ⟨posts, posted⟩ := postAll_withTimeline
      { h.note i frame with subscribers := h.subscribers.setIfInBounds i (s.take frame).2 } (s.followUps frame)
    refine ⟨posts, fun t => ?_⟩
    have same : (h.withTimeline t).subscribers[i]? = some s := known
    rw [take_known known, take_known same]
    exact Prod.ext rfl (posted t)

theorem deliverAll_withTimeline (frame : Bytes) (entries : List Entry) (tally : Tally) (h : Hub) : ∃ posts, ∀ t,
    entries.foldl (deliver frame) (tally, h.withTimeline t) =
      ((entries.foldl (deliver frame) (tally, h)).1,
        (entries.foldl (deliver frame) (tally, h)).2.withTimeline (t.insertAll posts)) := by
  induction entries generalizing tally h with
  | nil => exact ⟨[], fun t => rfl⟩
  | cons entry entries ih =>
    obtain ⟨first, taken⟩ :=
      take_withTimeline (h.moveClock (h.clock + h.hold entry.subscriber)) entry.subscriber frame
    have delivered (t : Timeline) : deliver frame (tally, h.withTimeline t) entry =
        ((deliver frame (tally, h) entry).1,
          (deliver frame (tally, h) entry).2.withTimeline (t.insertAll first)) := by
      have moved : (h.withTimeline t).moveClock
          ((h.withTimeline t).clock + (h.withTimeline t).hold entry.subscriber) =
          (h.moveClock (h.clock + h.hold entry.subscriber)).withTimeline t := rfl
      rw [deliver_eq, deliver_eq, moved, taken]
    obtain ⟨later, others⟩ := ih (deliver frame (tally, h) entry).1 (deliver frame (tally, h) entry).2
    refine ⟨first ++ later, fun t => ?_⟩
    rw [List.foldl_cons, delivered, others, List.foldl_cons, Timeline.insertAll_append]

/-- A broadcast schedules the same events whatever is pending. -/
theorem broadcast_withTimeline (h : Hub) (m : Message) : ∃ posts, ∀ t,
    (h.withTimeline t).broadcast m = ((h.broadcast m).1, (h.broadcast m).2.withTimeline (t.insertAll posts)) := by
  obtain ⟨posts, delivered⟩ := deliverAll_withTimeline (Frame.encode m) h.roster.entries {} h
  refine ⟨posts, fun t => ?_⟩
  have same : (h.withTimeline t).roster.entries = h.roster.entries := rfl
  unfold broadcast
  rw [same, delivered]
  rfl

/-- Broadcasts one after the other schedule the same events whatever is pending. -/
theorem sendAll_withTimeline (h : Hub) (events : List Event) :
    ∃ posts, ∀ t, (h.withTimeline t).sendAll events = (h.sendAll events).withTimeline (t.insertAll posts) := by
  induction events generalizing h with
  | nil => exact ⟨[], fun t => rfl⟩
  | cons e events ih =>
    obtain ⟨first, sent⟩ := broadcast_withTimeline h e.message
    obtain ⟨later, others⟩ := ih (h.broadcast e.message).2
    refine ⟨first ++ later, fun t => ?_⟩
    have next : (h.withTimeline t).sendAll (e :: events) =
        ((h.withTimeline t).broadcast e.message).2.sendAll events := rfl
    rw [next, sent, others, ← Timeline.insertAll_append]
    rfl

theorem sendAll_grows (h : Hub) (events : List Event) : h.Grows (h.sendAll events) := by
  induction events generalizing h with
  | nil => exact .refl h
  | cons e events ih => exact (h.broadcast_grows e.message).trans (ih _)

theorem sendAll_clock_le (h : Hub) (events : List Event) : h.clock ≤ (h.sendAll events).clock := by
  obtain ⟨_, run, _⟩ := h.sendAll_grows events
  exact run.clock_le

theorem takeDue_withTimeline {found : Option Event} (taken : h.takeDue = (found, rest)) :
    h.withTimeline rest.timeline = rest := by
  obtain rfl : h.takeDue.2 = rest := congrArg Prod.snd taken
  rfl

/-- After an event is taken, its message and others are sent as before, but the event is
lacking. -/
theorem sendAll_taken (sound : h.timeline.Sound) (taken : h.takeDue = (some e, rest)) (events : List Event) :
    ∃ u, u.Lacks e (h.sendAll (e :: events)).timeline ∧
      (rest.broadcast e.message).2.sendAll events = (h.sendAll (e :: events)).withTimeline u := by
  obtain ⟨posts, sent⟩ := h.sendAll_withTimeline (e :: events)
  have lacks := (Timeline.takeDue_lacks sound (takeDue_eq taken).1).insertAll posts
  have whole : (h.sendAll (e :: events)).timeline = h.timeline.insertAll posts :=
    congrArg Hub.timeline (sent h.timeline)
  rw [← whole] at lacks
  refine ⟨_, lacks, ?_⟩
  rw [← sent, takeDue_withTimeline taken]
  rfl

/-- What a pass comes to that sends some events. All is as if their messages were sent in turn, but
for the timeline. Each event is still to come and due when it is sent, and the first of those
that are. Whatever is to come at the end, scheduled in the pass or before, was sent if it is
due and stays if it is not. -/
structure Passes (h : Hub) (events : List Event) (after : Hub) : Prop where
  rest : after = (h.sendAll events).withTimeline after.timeline
  first : ∀ before e later, events = before ++ e :: later →
    e ∈ (h.sendAll before).timeline.pending ∧ e ∉ before ∧ e.time ≤ (h.sendAll before).clock ∧
      ∀ other ∈ (h.sendAll before).timeline.pending, other ∉ before → e.le other = true
  sent : ∀ e, e ∈ events ↔ e ∈ (h.sendAll events).timeline.pending ∧ e.time ≤ after.clock
  left : after.timeline.pending = (h.sendAll events).timeline.pending.filter (after.clock < ·.time)

/-- The clock does not go back during a pass. -/
theorem Passes.clock_le (passes : h.Passes events after) : h.clock ≤ after.clock := by
  rw [passes.rest]
  exact h.sendAll_clock_le events

/-- A pass ends where nothing is due. -/
theorem passes_rest (sound : h.timeline.Sound) (rested : h.takeDue = (none, after)) : h.Passes [] after := by
  obtain ⟨early, _, same, _⟩ := Timeline.takeDue_none sound (takeDue_eq rested).1
  have clock := (takeDue_eq rested).2.1
  refine ⟨(takeDue_withTimeline rested).symm, by simp, fun e => ?_, ?_⟩
  · rw [clock]
    exact iff_of_false List.not_mem_nil fun ⟨member, due⟩ => absurd due (Nat.not_le_of_lt (early e member))
  · rw [same, clock]
    exact (Finset.filter_true_of_mem early).symm

/-- A pass starts with an event taken and broadcast. -/
theorem Passes.send (sound : h.timeline.Sound) (taken : h.takeDue = (some e, rest))
    (passes : (rest.broadcast e.message).2.Passes events after) : h.Passes (e :: events) after := by
  obtain ⟨member, due, least, _⟩ := Timeline.takeDue_some sound (takeDue_eq taken).1
  obtain ⟨u, lacks, same⟩ := sendAll_taken sound taken events
  have later : h.clock ≤ after.clock := by
    have waits : rest.clock ≤ (rest.broadcast e.message).2.clock := rest.sendAll_clock_le [e]
    rw [← (takeDue_eq taken).2.1]
    exact waits.trans passes.clock_le
  have pending : ((rest.broadcast e.message).2.sendAll events).timeline.pending =
      (h.sendAll (e :: events)).timeline.pending.erase e := by
    rw [same]
    exact lacks.pending
  obtain ⟨others, first, sent, left⟩ := passes
  rw [pending] at left
  simp only [pending] at sent
  refine ⟨?_, ?_, fun other => ?_, ?_⟩
  · rw [same] at others
    exact others
  · intro before other behind split
    rcases before with _ | ⟨front, before⟩
    · obtain ⟨rfl, rfl⟩ := List.cons.inj split
      exact ⟨member, List.not_mem_nil, due, fun other waiting _ => least other waiting⟩
    · obtain ⟨rfl, cut⟩ := List.cons.inj split
      obtain ⟨v, without, sameBefore⟩ := sendAll_taken sound taken before
      obtain ⟨waits, fresh, dueThen, leastThen⟩ := first before other behind cut
      rw [sameBefore] at waits dueThen leastThen
      have kept : ∀ x, x ∈ v.pending ↔ x ≠ e ∧ x ∈ (h.sendAll (e :: before)).timeline.pending := fun x => by
        rw [without.pending, Finset.mem_erase]
      obtain ⟨different, waits⟩ := (kept other).mp waits
      refine ⟨waits, mt List.mem_cons.mp (not_or.mpr ⟨different, fresh⟩), dueThen, fun x waiting unsent => ?_⟩
      obtain ⟨apart, unsentLater⟩ := not_or.mp (mt List.mem_cons.mpr unsent)
      exact leastThen x ((kept x).mpr ⟨apart, waiting⟩) unsentLater
  · rw [List.mem_cons, sent, Finset.mem_erase]
    constructor
    · rintro (rfl | ⟨⟨_, waiting⟩, dueThen⟩)
      · exact ⟨lacks.member, due.trans later⟩
      · exact ⟨waiting, dueThen⟩
    · rintro ⟨waiting, dueThen⟩
      by_cases front : other = e
      · exact Or.inl front
      · exact Or.inr ⟨⟨front, waiting⟩, dueThen⟩
  · rw [left, Finset.filter_erase, Finset.erase_eq_of_notMem]
    rw [Finset.mem_filter]
    exact fun ⟨_, early⟩ => absurd (due.trans later) (Nat.not_le_of_lt early)

/-- What was sent one by one is a pass. -/
theorem Sends.passes (sends : h.Sends fired after) (sound : h.timeline.Sound) :
    h.Passes (fired.map Prod.snd) after := by
  induction sends with
  | rest rested => exact passes_rest sound rested
  | @send h e rest _ _ taken _ ih =>
    obtain ⟨_, _, _, kept, _⟩ := Timeline.takeDue_some sound (takeDue_eq taken).1
    exact (ih ((rest.broadcast_grows e.message).sound kept)).send sound taken

/-- A pass comes to an end if it may send one more event than it has to. -/
theorem Sends.ends (sends : h.Sends fired after) (enough : fired.length < fuel) :
    h.sendDue fuel = some (fired.length, after) := by
  induction sends generalizing fuel with
  | rest rested =>
    obtain ⟨fuel, rfl⟩ := Nat.exists_eq_add_of_lt enough
    simp [sendDue, rested]
  | @send h e rest fired after taken _ ih =>
    rcases fuel with _ | fuel
    · cases enough
    · simp [sendDue, taken, ih (Nat.lt_of_succ_lt_succ enough)]

/-- Nothing is scheduled while the messages of some events are sent, and nobody waits. -/
structure Quietly (h : Hub) (events : List Event) : Prop where
  timeline : (h.sendAll events).timeline = h.timeline
  clock : (h.sendAll events).clock = h.clock

/-- It does not depend on the timeline then what the messages come to. -/
theorem Quietly.withTimeline (quiet : h.Quietly events) (t : Timeline) :
    (h.withTimeline t).sendAll events = (h.sendAll events).withTimeline t := by
  obtain ⟨posts, sent⟩ := h.sendAll_withTimeline events
  have whole : (h.sendAll events).timeline = h.timeline.insertAll posts :=
    congrArg Hub.timeline (sent h.timeline)
  have none : posts = [] := Timeline.nothing_added (whole.symm.trans quiet.timeline)
  rw [sent, none]
  rfl

theorem Quietly.head (quiet : h.Quietly (e :: events)) : h.Quietly [e] := by
  have more : h.sendAll (e :: events) = (h.sendAll [e]).sendAll events := rfl
  obtain ⟨posts, sent⟩ := (h.sendAll [e]).sendAll_withTimeline events
  obtain ⟨first, sentFirst⟩ := h.sendAll_withTimeline [e]
  have early : (h.sendAll [e]).timeline = h.timeline.insertAll first :=
    congrArg Hub.timeline (sentFirst h.timeline)
  have late : (h.sendAll (e :: events)).timeline = (h.sendAll [e]).timeline.insertAll posts :=
    congrArg Hub.timeline (sent (h.sendAll [e]).timeline)
  have none : first ++ posts = [] := by
    refine @Timeline.nothing_added h.timeline _ ?_
    rw [Timeline.insertAll_append, ← early, ← late, quiet.timeline]
  refine ⟨by rw [early, (List.append_eq_nil_iff.mp none).1]; rfl, le_antisymm ?_ (h.sendAll_clock_le [e])⟩
  rw [← quiet.clock, more]
  exact (h.sendAll [e]).sendAll_clock_le events

/-- An event is taken and its message is sent, and then those of the others. -/
theorem Quietly.tail (quiet : h.Quietly (e :: events)) (taken : h.takeDue = (some e, rest)) :
    (rest.broadcast e.message).2.timeline = rest.timeline ∧ (rest.broadcast e.message).2.clock = h.clock ∧
      (rest.broadcast e.message).2.Quietly events := by
  have one : (rest.broadcast e.message).2 = (h.sendAll [e]).withTimeline rest.timeline := by
    rw [← quiet.head.withTimeline, takeDue_withTimeline taken]
    rfl
  have all : (rest.broadcast e.message).2.sendAll events =
      (h.sendAll (e :: events)).withTimeline rest.timeline := by
    rw [← quiet.withTimeline, takeDue_withTimeline taken]
    rfl
  have timeline : (rest.broadcast e.message).2.timeline = rest.timeline := by
    rw [one]
    rfl
  have clock : (rest.broadcast e.message).2.clock = h.clock := by
    rw [one]
    exact quiet.head.clock
  refine ⟨timeline, clock, ?_, ?_⟩
  · rw [all, timeline]
    rfl
  · rw [all, clock]
    exact quiet.clock

/-- A pass sends the events that are due in their order, and ends, unless something is
scheduled meanwhile or somebody waits. -/
theorem Quietly.sends (quiet : h.Quietly events) (sound : h.timeline.Sound)
    (ordered : events.Pairwise (·.le · = true)) (nodup : events.Nodup)
    (due : ∀ e, e ∈ events ↔ e ∈ h.timeline.pending ∧ e.time ≤ h.clock) :
    ∃ after, h.Sends (events.map (h.clock, ·)) after := by
  induction events generalizing h with
  | nil =>
    rcases taken : h.takeDue with ⟨_ | e, rest⟩
    · exact ⟨rest, .rest taken⟩
    · obtain ⟨member, now, _⟩ := Timeline.takeDue_some sound (takeDue_eq taken).1
      exact absurd ((due e).mpr ⟨member, now⟩) List.not_mem_nil
  | cons e later ih =>
    obtain ⟨before, orderedLater⟩ := List.pairwise_cons.mp ordered
    obtain ⟨fresh, nodupLater⟩ := List.nodup_cons.mp nodup
    obtain ⟨waiting, now⟩ := (due e).mp (List.mem_cons_self ..)
    rcases taken : h.takeDue with ⟨_ | first, rest⟩
    · have early := (Timeline.takeDue_none sound (takeDue_eq taken).1).1 e waiting
      exact absurd now (Nat.not_le_of_lt early)
    · obtain ⟨member, dueFirst, least, kept, pending, _⟩ := Timeline.takeDue_some sound (takeDue_eq taken).1
      obtain rfl : first = e := by
        rcases List.mem_cons.mp ((due first).mpr ⟨member, dueFirst⟩) with front | behind
        · exact front
        · exact sound.pending_eq member waiting (Event.id_eq_of_le (least e waiting) (before first behind))
      obtain ⟨timeline, clock, quietLater⟩ := quiet.tail taken
      have dueLater : ∀ other, other ∈ later ↔ other ∈ (rest.broadcast first.message).2.timeline.pending ∧
          other.time ≤ (rest.broadcast first.message).2.clock := fun other => by
        rw [timeline, clock, pending, Finset.mem_erase, and_assoc, ← due, List.mem_cons]
        constructor
        · exact fun behind => ⟨fun same => fresh (same ▸ behind), Or.inr behind⟩
        · exact fun ⟨different, listed⟩ => listed.resolve_left different
      obtain ⟨after, sends⟩ := ih quietLater (timeline ▸ kept) orderedLater nodupLater dueLater
      rw [clock] at sends
      exact ⟨after, .send taken sends⟩

/-- A sink that schedules nothing leaves the timeline as it was. -/
theorem Meek.take (meek : h.Meek fun _ => true) (i : Nat) (frame : Bytes) :
    (h.take i frame).2.timeline = h.timeline ∧ (h.take i frame).2.Meek fun _ => true := by
  cases known : h.subscribers[i]? with
  | none =>
    rw [take_unknown known]
    exact ⟨rfl, meek⟩
  | some s =>
    obtain ⟨prompt, silent⟩ := meek i s rfl known
    rw [take_known known, silent.followUps frame]
    exact ⟨rfl, meek.set fun _ => ⟨prompt.take frame, silent.take frame⟩⟩

theorem Meek.deliverAll (meek : h.Meek fun _ => true) (frame : Bytes) (entries : List Entry) (tally : Tally) :
    (entries.foldl (deliver frame) (tally, h)).2.timeline = h.timeline ∧
      (entries.foldl (deliver frame) (tally, h)).2.clock = h.clock ∧
      (entries.foldl (deliver frame) (tally, h)).2.Meek fun _ => true := by
  induction entries generalizing h tally with
  | nil => exact ⟨rfl, rfl, meek⟩
  | cons entry entries ih =>
    have free : h.hold entry.subscriber = 0 := by
      unfold hold
      cases known : h.subscribers[entry.subscriber]? with
      | none => rfl
      | some s => exact (meek _ s rfl known).1.hold
    obtain ⟨timeline, still⟩ := meek.take entry.subscriber frame
    obtain ⟨timelineAfter, clockAfter, after⟩ := ih still (tally.count entry.id (h.take entry.subscriber frame).1)
    rw [List.foldl_cons, deliver_at_once free]
    exact ⟨timelineAfter.trans timeline, clockAfter.trans (take_clock _ _ _), after⟩

/-- Subscribers who neither wait nor schedule anything leave the timeline as it is. -/
theorem Meek.quietly (meek : h.Meek fun _ => true) (events : List Event) : h.Quietly events := by
  induction events generalizing h with
  | nil => exact ⟨rfl, rfl⟩
  | cons e events ih =>
    obtain ⟨timeline, clock, after⟩ := meek.deliverAll (Frame.encode e.message) h.roster.entries {}
    have later : (h.broadcast e.message).2.Quietly events := ih after
    exact ⟨later.timeline.trans timeline, later.clock.trans clock⟩

/-- In every run of a hub with an empty timeline, a pass sends what is due, in order, and
leaves what is not, and then it ends, unless something is scheduled while it sends or
somebody waits. If something is, that is sent in its place as far as it is due, and stays
otherwise. Whenever a pass ends nothing is due. -/
theorem pass_sends_what_is_due {start : Hub} {past : List Happening}
    (run : Run { start with timeline := {} } past h) :
    (h.Quietly (h.timeline.due h.clock) → ∀ fuel, (h.timeline.due h.clock).length < fuel → ∃ after,
      h.sendDue fuel = some ((h.timeline.due h.clock).length, after) ∧
        after = (h.sendAll (h.timeline.due h.clock)).withTimeline after.timeline ∧
        after.timeline.pending = h.timeline.pending.filter (h.clock < ·.time)) ∧
    ∀ fuel count after, h.sendDue fuel = some (count, after) →
      (∃ events, count = events.length ∧ h.Passes events after ∧
        ∀ e, e.id < h.timeline.nextId →
          (e ∈ (h.sendAll events).timeline.pending ↔ e ∈ h.timeline.pending)) ∧
      ∀ e ∈ after.timeline.pending, after.clock < e.time := by
  have sound := (run.timeline Timeline.sound_empty).1
  refine ⟨fun quiet fuel enough => ?_, fun fuel count after sends => ?_⟩
  · obtain ⟨after, sends⟩ := quiet.sends sound (h.timeline.due_ordered h.clock) (sound.due_nodup h.clock)
      fun e => Timeline.mem_due
    have ends := sends.ends (by rwa [List.length_map])
    obtain ⟨rest, _, _, left⟩ := sends.passes sound
    have same : ((h.timeline.due h.clock).map (h.clock, ·)).map Prod.snd = h.timeline.due h.clock := by simp
    rw [same] at rest left
    have clock : after.clock = h.clock := (congrArg Hub.clock rest).trans quiet.clock
    rw [quiet.timeline, clock] at left
    rw [List.length_map] at ends
    exact ⟨after, ends, rest, left⟩
  · obtain ⟨fired, sent, rfl⟩ := sendDue_iff.mp ⟨fuel, sends⟩
    have passes := sent.passes sound
    refine ⟨⟨_, (List.length_map _).symm, passes, fun e old => ?_⟩, fun e member => ?_⟩
    · exact (h.sendAll_grows _).old_pending_iff sound old
    · rw [passes.left] at member
      exact (Finset.mem_filter.mp member).2

/-- Of five events three are due, and one of the others was cancelled. They are sent in order, which
is not the one in which they were scheduled. In another hub the first event makes a subscriber
schedule two more, and the one of them that is due at once is sent in the same pass. -/
theorem due_events_are_sent_in_order :
    let start : Hub := { subscribers := #[.log], roster := .ofCount 1 }
    let posted := (((((start.postAt 20 (.raw "c")).2.postAt 10 (.raw "x")).2.postAt 10 (.raw "a")).2.postAt 10
      (.raw "b")).2.postAt 30 (.raw "d")).2
    let h := (posted.cancel 1).2.moveClock 20
    let script : Script := ⟨fun _ => 0, fun n _ => if n = 0 then [(5, .raw "late"), (0, .raw "soon")] else [],
      fun _ => none⟩
    let other : Hub := { subscribers := #[.watcher script 0], roster := .ofCount 1 }
    let chain := (other.postAt 0 (.raw "first")).2
    h.timeline.due h.clock = [⟨10, 2, .raw "a"⟩, ⟨10, 3, .raw "b"⟩, ⟨20, 0, .raw "c"⟩] ∧
      h.Quietly (h.timeline.due h.clock) ∧
      (∃ after, h.sendDue 4 = some (3, after) ∧
        after = (h.sendAll (h.timeline.due h.clock)).withTimeline after.timeline ∧
        after.timeline.pending = h.timeline.pending.filter (h.clock < ·.time)) ∧
      ∃ events after, chain.sendDue 3 = some (2, after) ∧ events.length = 2 ∧ chain.Passes events after ∧
        after.timeline.size = 1 ∧ ∀ e ∈ after.timeline.pending, after.clock < e.time := by
  intro start posted h script other chain
  have run : Run { start with timeline := {} } [.cancelled 1, .posted ⟨30, 4, .raw "d"⟩,
      .posted ⟨10, 3, .raw "b"⟩, .posted ⟨10, 2, .raw "a"⟩, .posted ⟨10, 1, .raw "x"⟩,
      .posted ⟨20, 0, .raw "c"⟩] h :=
    ((((((Run.start.next .postAt).next .postAt).next .postAt).next .postAt).next .postAt).next .cancel).next
      .moveClock
  have due : h.timeline.due h.clock = [⟨10, 2, .raw "a"⟩, ⟨10, 3, .raw "b"⟩, ⟨20, 0, .raw "c"⟩] := by
    decide +kernel
  have meek : h.Meek fun _ => true := by
    intro i s _ known
    have only : h.subscribers = #[.log] := rfl
    obtain rfl : s = .log := by simpa [only] using Array.mem_of_getElem? known
    exact ⟨trivial, trivial⟩
  have quiet := meek.quietly (h.timeline.due h.clock)
  have three : (h.timeline.due h.clock).length = 3 := by rw [due]; rfl
  have sends := (pass_sends_what_is_due run).1 quiet 4
  rw [three] at sends
  have chainRun : Run { other with timeline := {} } [.posted ⟨0, 0, .raw "first"⟩] chain := Run.start.next .postAt
  have came : (chain.sendDue 3).map (fun p => (p.1, p.2.timeline.size)) = some (2, 1) := by decide +kernel
  obtain ⟨⟨count, after⟩, sent, same⟩ := Option.map_eq_some_iff.mp came
  obtain ⟨rfl, size⟩ := Prod.mk.inj same
  obtain ⟨⟨events, two, passes, _⟩, rested⟩ := (pass_sends_what_is_due chainRun).2 3 2 after sent
  exact ⟨due, quiet, sends (by decide), events, after, sent, two.symm, passes, size, rested⟩

end Hub

end LiveTiming
