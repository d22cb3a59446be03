import LiveTiming.Proofs.Agreement
import LiveTiming.Proofs.PromptHub

namespace LiveTiming

/-- Whoever is set apart neither waits before he takes a frame nor schedules anything. -/
def Hub.Meek (apart : Nat → Bool) (h : Hub) : Prop :=
  ∀ i s, apart i = true → h.subscribers[i]? = some s → s.Prompt ∧ s.Silent

/-- Two hubs that agree on everything but the subscribers that are set apart: their answers, their
registrations and what they were given. Where `alert` holds somebody asked for both timelines to be
looked at again, or for neither. -/
structure Hub.Agree (apart : Nat → Bool) (alert : Prop) (h k : Hub) : Prop where
  clock : k.clock = h.clock
  timeline : h.timeline.Agree k.timeline
  roster : h.roster.Agree apart k.roster
  wake : alert → k.wake = h.wake
  others : ∀ i, apart i = false → k.subscribers[i]? = h.subscribers[i]?
  left : h.Meek apart
  right : k.Meek apart
  journal : k.journal.toList.filter (!apart ·.subscriber) = h.journal.toList.filter (!apart ·.subscriber)

namespace Hub

variable {apart : Nat → Bool} {alert : Prop} {h k l : Hub}

/-- A hub stays meek when somebody meek takes another's place. -/
theorem Meek.set (meek : h.Meek apart) {i : Nat} {s : Subscriber}
    (fits : apart i = true → s.Prompt ∧ s.Silent) :
    ({ h with subscribers := h.subscribers.setIfInBounds i s } : Hub).Meek apart := by
  intro j other isApart known
  by_cases same : i = j
  · subst same
    rw [Array.getElem?_setIfInBounds_self] at known
    split at known
    · cases known
      exact fits isApart
    · cases known
  · rw [Array.getElem?_setIfInBounds_ne same] at known
    exact meek j other isApart known

/-- Who is not known is gone, but the delivery is noted. -/
theorem take_unknown {i : Nat} (unknown : h.subscribers[i]? = none) (frame : Bytes) :
    h.take i frame = (some .closed, h.note i frame) := by
  have noted : (h.note i frame).subscribers[i]? = none := unknown
  unfold Hub.take
  simp only [noted]

theorem take_known {i : Nat} {s : Subscriber} (known : h.subscribers[i]? = some s) (frame : Bytes) :
    h.take i frame = ((s.take frame).1,
      ({ h.note i frame with subscribers := h.subscribers.setIfInBounds i (s.take frame).2 } : Hub).postAll
        (s.followUps frame)) := by
  have noted : (h.note i frame).subscribers[i]? = some s := known
  unfold Hub.take
  simp only [noted]
  rfl

namespace Agree

theorem refl (sound : h.timeline.Sound) (distinct : h.roster.Distinct) (meek : h.Meek apart) :
    h.Agree apart alert h :=
  ⟨rfl, .refl sound, .refl distinct, fun _ => rfl, fun _ _ => rfl, meek, meek, rfl⟩

theorem symm (agree : h.Agree apart alert k) : k.Agree apart alert h where
  clock := agree.clock.symm
  timeline := agree.timeline.symm
  roster := agree.roster.symm
  wake matters := (agree.wake matters).symm
  others i ordinary := (agree.others i ordinary).symm
  left := agree.right
  right := agree.left
  journal := agree.journal.symm

theorem trans (first : h.Agree apart alert k) (second : k.Agree apart alert l) : h.Agree apart alert l where
  clock := second.clock.trans first.clock
  timeline := first.timeline.trans second.timeline
  roster := first.roster.trans second.roster
  wake matters := (second.wake matters).trans (first.wake matters)
  others i ordinary := (second.others i ordinary).trans (first.others i ordinary)
  left := first.left
  right := second.right
  journal := second.journal.trans first.journal

/-- Both hubs have other events to come, and the same ones. -/
theorem reschedule (agree : h.Agree apart alert k) {t u : Timeline} (same : t.Agree u) {v w : Bool}
    (wake : alert → w = v) :
    ({ h with timeline := t, wake := v } : Hub).Agree apart alert { k with timeline := u, wake := w } :=
  ⟨agree.clock, same, agree.roster, wake, agree.others, agree.left, agree.right, agree.journal⟩

/-- The same number is given out on both when an event is scheduled. -/
theorem postAt (agree : h.Agree apart alert k) (time : Nat) (m : Message) :
    (k.postAt time m).1 = (h.postAt time m).1 ∧
      (h.postAt time m).2.Agree apart alert (k.postAt time m).2 := by
  obtain ⟨number, same⟩ := agree.timeline.insert time m
  exact ⟨number, agree.reschedule same fun _ => rfl⟩

theorem post (agree : h.Agree apart alert k) (delay : Nat) (m : Message) :
    (k.post delay m).1 = (h.post delay m).1 ∧ (h.post delay m).2.Agree apart alert (k.post delay m).2 := by
  unfold Hub.post
  rw [agree.clock]
  exact agree.postAt _ m

theorem postAll (agree : h.Agree apart alert k) (followUps : List (Nat × Message)) :
    (h.postAll followUps).Agree apart alert (k.postAll followUps) := by
  induction followUps generalizing h k with
  | nil => exact agree
  | cons followUp rest ih => exact ih (agree.post followUp.1 followUp.2).2

theorem cancel (agree : h.Agree apart alert k) (id : EventId) :
    (k.cancel id).1 = (h.cancel id).1 ∧ (h.cancel id).2.Agree apart alert (k.cancel id).2 := by
  obtain ⟨answer, same⟩ := agree.timeline.cancel id
  refine ⟨answer, agree.reschedule same fun matters => ?_⟩
  have same : k.timeline.live.contains id = h.timeline.live.contains id := answer
  rw [agree.wake matters, same]

/-- Cancellations in turn count the same events on both. -/
theorem cancelAll (agree : h.Agree apart alert k) (ids : List EventId) :
    (k.cancelAll ids).1 = (h.cancelAll ids).1 ∧ (h.cancelAll ids).2.Agree apart alert (k.cancelAll ids).2 := by
  rw [cancelAll_eq, cancelAll_eq]
  generalize 0 = n
  induction ids generalizing h k n with
  | nil => exact ⟨rfl, agree⟩
  | cons id ids ih =>
    obtain ⟨answer, same⟩ := agree.cancel id
    rw [List.foldl_cons, List.foldl_cons, cancelNext, cancelNext, answer]
    exact ih same _

/-- The same event is due in both hubs, or none is. -/
theorem takeDue (agree : h.Agree apart alert k) {e : Option Event} {rest : Hub} (taken : h.takeDue = (e, rest)) :
    ∃ last, k.takeDue = (e, last) ∧ rest.Agree apart alert last := by
  obtain ⟨event, same⟩ := agree.timeline.takeDue h.clock
  cases taken
  have other : k.takeDue = ((k.timeline.takeDue h.clock).1,
      { k with timeline := (k.timeline.takeDue h.clock).2 }) := by
    rw [← agree.clock]
    rfl
  exact ⟨_, other.trans (Prod.ext event rfl), agree.reschedule same agree.wake⟩

theorem moveClock (agree : h.Agree apart alert k) (time : Nat) :
    (h.moveClock time).Agree apart alert (k.moveClock time) :=
  { agree with clock := congrArg (max · time) agree.clock }

/-- The same number is given out on both when somebody registers. -/
theorem register (agree : h.Agree apart alert k) (subscriber : Nat) :
    k.reserve.1 = h.reserve.1 ∧
      (h.reserve.2.enter h.reserve.1 subscriber).Agree apart alert
        (k.reserve.2.enter k.reserve.1 subscriber) := by
  obtain ⟨number, same⟩ := agree.roster.register subscriber
  exact ⟨number, { agree with roster := same }⟩

theorem remove (agree : h.Agree apart alert k) (id : SubscriberId) :
    (h.remove id).2.Agree apart alert (k.remove id).2 :=
  { agree with roster := agree.roster.remove id }

/-- A subscriber that is not set apart changes in both hubs. -/
theorem setSubscriber (agree : h.Agree apart alert k) {i : Nat} (ordinary : apart i = false) (s : Subscriber) :
    ({ h with subscribers := h.subscribers.setIfInBounds i s } : Hub).Agree apart alert
      { k with subscribers := k.subscribers.setIfInBounds i s } where
  clock := agree.clock
  timeline := agree.timeline
  roster := agree.roster
  wake := agree.wake
  others j other := by
    have size : k.subscribers.size ≤ i ↔ h.subscribers.size ≤ i := by
      rw [← Array.getElem?_eq_none_iff, ← Array.getElem?_eq_none_iff, agree.others i ordinary]
    have room : i < k.subscribers.size ↔ i < h.subscribers.size := by omega
    simp only [Array.getElem?_setIfInBounds, room, agree.others j other]
  left := agree.left.set fun isApart => absurd (ordinary.symm.trans isApart) (by simp)
  right := agree.right.set fun isApart => absurd (ordinary.symm.trans isApart) (by simp)
  journal := agree.journal

/-- A subscriber that is set apart changes in one hub, and may still be set apart. -/
theorem setApart (agree : h.Agree apart alert k) {i : Nat} (isApart : apart i = true) {s : Subscriber}
    (meek : s.Prompt ∧ s.Silent) :
    ({ h with subscribers := h.subscribers.setIfInBounds i s } : Hub).Agree apart alert k := by
  refine { agree with others := fun j other => ?_, left := agree.left.set fun _ => meek }
  have different : i ≠ j := by
    rintro rfl
    exact absurd (other.symm.trans isApart) (by simp)
  rw [Array.getElem?_setIfInBounds_ne different, agree.others j other]

/-- A delivery is noted on both. -/
theorem note (agree : h.Agree apart alert k) (i : Nat) (frame : Bytes) :
    (h.note i frame).Agree apart alert (k.note i frame) := by
  refine { agree with journal := ?_ }
  simp only [Hub.note, Array.toList_push, List.filter_append, agree.journal, agree.clock]

/-- What is given to a subscriber that is set apart does not matter. -/
theorem noteApart (agree : h.Agree apart alert k) {i : Nat} (isApart : apart i = true) (frame : Bytes) :
    (h.note i frame).Agree apart alert k := by
  refine { agree with journal := ?_ }
  simp [Hub.note, agree.journal, isApart]

/-- A subscriber that is not set apart does the same in both hubs when it is given a frame. -/
theorem take (agree : h.Agree apart alert k) {i : Nat} (ordinary : apart i = false) (frame : Bytes) :
    (k.take i frame).1 = (h.take i frame).1 ∧
      (h.take i frame).2.Agree apart alert (k.take i frame).2 := by
  have noted := agree.note i frame
  have same := agree.others i ordinary
  cases known : h.subscribers[i]? with
  | none =>
    rw [take_unknown known, take_unknown (same.trans known)]
    exact ⟨rfl, noted⟩
  | some s =>
    rw [take_known known, take_known (same.trans known)]
    exact ⟨rfl, (noted.setSubscriber ordinary _).postAll _⟩

/-- A subscriber that is set apart changes nothing that matters when it is given a frame. -/
theorem takeApart (agree : h.Agree apart alert k) {i : Nat} (isApart : apart i = true) (frame : Bytes) :
    (h.take i frame).2.Agree apart alert k := by
  have noted := agree.noteApart isApart frame
  cases known : h.subscribers[i]? with
  | none =>
    rw [take_unknown known]
    exact noted
  | some s =>
    obtain ⟨prompt, silent⟩ := agree.left i s isApart known
    rw [take_known known, silent.followUps]
    exact noted.setApart isApart ⟨prompt.take frame, silent.take frame⟩

/-- Who is not apart waits as long on both. -/
theorem hold (agree : h.Agree apart alert k) {i : Nat} (ordinary : apart i = false) : k.hold i = h.hold i := by
  unfold Hub.hold
  rw [agree.others i ordinary]

/-- Who is apart does not wait at all. -/
theorem holdApart (agree : h.Agree apart alert k) {i : Nat} (isApart : apart i = true) : h.hold i = 0 := by
  unfold Hub.hold
  cases known : h.subscribers[i]? with
  | none => rfl
  | some s => exact (agree.left i s isApart known).1.hold

/-- A frame goes to a list of entries in one hub, and in the other one to those of them that are
not set apart. The same of these are evicted. -/
theorem deliverAll (agree : h.Agree apart alert k) {ids : List SubscriberId} {entries : List Entry}
    (foreign : ∀ e ∈ entries, apart e.subscriber = true → e.id ∉ ids) (frame : Bytes) {t u : Tally}
    (same : ∀ id ∈ ids, id ∈ u.evicted ↔ id ∈ t.evicted) :
    let told := entries.foldl (deliver frame) (t, h)
    let others := (entries.filter (!apart ·.subscriber)).foldl (deliver frame) (u, k)
    (∀ id ∈ ids, id ∈ others.1.evicted ↔ id ∈ told.1.evicted) ∧ told.2.Agree apart alert others.2 := by
  induction entries generalizing h k t u with
  | nil => exact ⟨same, agree⟩
  | cons e rest ih =>
    have later : ∀ e ∈ rest, apart e.subscriber = true → e.id ∉ ids :=
      fun e member => foreign e (List.mem_cons_of_mem _ member)
    cases isApart : apart e.subscriber with
    | true =>
      rw [List.foldl_cons, deliver_at_once (agree.holdApart isApart),
        List.filter_cons_of_neg (by simp [isApart])]
      refine ih (agree.takeApart isApart frame) later fun id member => ?_
      rw [same id member, Tally.count_evicted]
      have different : id ≠ e.id := by
        rintro rfl
        exact foreign e (List.mem_cons_self ..) isApart member
      split <;> simp [different]
    | false =>
      rw [List.filter_cons_of_pos (by simp [isApart]), List.foldl_cons, List.foldl_cons]
      obtain ⟨answer, taken⟩ := (agree.moveClock (h.clock + h.hold e.subscriber)).take isApart frame
      rw [deliver_eq, deliver_eq, agree.clock, agree.hold isApart, answer]
      refine ih taken later fun id member => ?_
      rw [Tally.count_evicted, Tally.count_evicted]
      split <;> simp [same id member]

/-- A broadcast leaves both in agreement, whoever is apart. -/
theorem broadcast (agree : h.Agree apart alert k) (m : Message) :
    (h.broadcast m).2.Agree apart alert (k.broadcast m).2 := by
  let frame := Frame.encode m
  let others := h.roster.entries.filter (!apart ·.subscriber)
  -- Each hub is compared with one that leaves out those who are set apart.
  have first := agree.deliverAll (agree.roster.left.foreign apart) frame (t := {}) (u := {}) fun _ _ => .rfl
  have alone : k.Agree apart alert k := .refl agree.timeline.right agree.roster.right agree.right
  have second := alone.deliverAll (agree.roster.right.foreign apart) frame (t := {}) (u := {})
    fun _ _ => .rfl
  rw [agree.roster.entries] at second
  have told := first.2.trans second.2.symm
  refine { told with roster := told.roster.keep fun e member ordinary => ?_ }
  have registered : e ∈ h.roster.entries := by
    rwa [deliverAll_roster] at member
  have known : e.id ∈ others.map (·.id) :=
    List.mem_map_of_mem (List.mem_filter.mpr ⟨registered, by simp [ordinary]⟩)
  have evicted := (second.1 e.id known).symm.trans (first.1 e.id known)
  simpa [List.contains_iff_mem] using evicted

theorem mailbox (agree : h.Agree apart alert k) {i : Nat} (ordinary : apart i = false) :
    k.mailbox? i = h.mailbox? i := by
  unfold mailbox?
  rw [agree.others i ordinary]

/-- The queue of somebody apart may change on one side only. -/
theorem adjustApart (agree : h.Agree apart alert k) {i : Nat} (isApart : apart i = true)
    (change : Mailbox → Mailbox) : (h.adjust i change).Agree apart alert k := by
  unfold adjust
  split
  · exact agree
  · exact agree.setApart isApart ⟨trivial, trivial⟩

theorem adjust (agree : h.Agree apart alert k) (i : Nat) (change : Mailbox → Mailbox) :
    (h.adjust i change).Agree apart alert (k.adjust i change) := by
  cases isApart : apart i with
  | true => exact ((agree.adjustApart isApart change).symm.adjustApart isApart change).symm
  | false =>
    unfold Hub.adjust
    rw [agree.mailbox isApart]
    split
    · exact agree
    · exact agree.setSubscriber isApart _

/-- A reader gets the same frames on both, unless it is apart. -/
theorem receive (agree : h.Agree apart alert k) (i count : Nat) :
    (apart i = false → (k.receive i count).1 = (h.receive i count).1) ∧
      (h.receive i count).2.Agree apart alert (k.receive i count).2 := by
  refine ⟨fun ordinary => ?_, ?_⟩
  · unfold Hub.receive
    rw [agree.mailbox ordinary]
    split <;> rfl
  · rw [receive_adjusts, receive_adjusts]
    exact agree.adjust i _

theorem closeMailbox (agree : h.Agree apart alert k) (i : Nat) :
    (h.closeMailbox i).Agree apart alert (k.closeMailbox i) :=
  agree.adjust i Mailbox.close

end Agree

end Hub

/-- Two feeds that differ in their hubs at most, which agree. -/
structure Feed.Agree (apart : Nat → Bool) (alert : Prop) (f g : Feed) : Prop where
  rest : g = { f with hub := g.hub }
  hub : f.hub.Agree apart alert g.hub

/-- What an outcome says apart from the report of a broadcast and the number of subscribers. -/
def Outcome.plain : Outcome → Outcome
  | .broadcast kind _ => .broadcast kind {}
  | .status _ pending races => .status 0 pending races
  | o => o

/-- What a reaction says apart from the number of subscribers. -/
def Reaction.plain : Reaction → Reaction
  | .answer result => .answer (result.map Outcome.plain)
  | .send m => .send m

namespace Feed.Agree

variable {apart : Nat → Bool} {alert : Prop} {f g : Feed}

theorem symm (agree : f.Agree apart alert g) : g.Agree apart alert f := by
  refine ⟨?_, agree.hub.symm⟩
  rw [agree.rest]

theorem contains (agree : f.Agree apart alert g) : g.hub.timeline.contains = f.hub.timeline.contains :=
  funext agree.hub.timeline.contains

/-- Cues are booked under the same numbers on both. -/
theorem bookAll {h k : Hub} (agree : h.Agree apart alert k) (unit : Duration) (base : Nat) (cues : List Cue)
    (ids : Array EventId) :
    (cues.foldl (Hub.bookNext unit base) (ids, k)).1 = (cues.foldl (Hub.bookNext unit base) (ids, h)).1 ∧
      (cues.foldl (Hub.bookNext unit base) (ids, h)).2.Agree apart alert
        (cues.foldl (Hub.bookNext unit base) (ids, k)).2 := by
  induction cues generalizing h k ids with
  | nil => exact ⟨rfl, agree⟩
  | cons cue cues ih =>
    obtain ⟨number, booked⟩ := agree.postAt (base + (cue.offset.realTime unit).toNanos) cue.message
    have other : Hub.bookNext unit base (ids, k) cue =
        (ids.push (h.postAt (base + (cue.offset.realTime unit).toNanos) cue.message).1,
          (k.postAt (base + (cue.offset.realTime unit).toNanos) cue.message).2) := by
      rw [← number]
      rfl
    rw [List.foldl_cons, List.foldl_cons, other]
    exact ih booked _

theorem book (agree : f.Agree apart alert g) (rundown : Rundown) :
    (g.book rundown).1 = (f.book rundown).1 ∧ (f.book rundown).2.Agree apart alert (g.book rundown).2 := by
  obtain ⟨ids, hub⟩ := bookAll agree.hub f.config.timeUnit f.hub.clock rundown.cues #[]
  have other : g.book rundown =
      ((rundown.cues.foldl (Hub.bookNext f.config.timeUnit f.hub.clock) (#[], g.hub)).1.toList,
        { f with hub := (rundown.cues.foldl (Hub.bookNext f.config.timeUnit f.hub.clock) (#[], g.hub)).2 }) := by
    have clock := agree.hub.clock
    rw [agree.rest]
    unfold Feed.book
    dsimp only
    rw [clock]
    rfl
  rw [other, ids]
  exact ⟨rfl, rfl, hub⟩

theorem keep (agree : f.Agree apart alert g) (race : BookedRace) :
    (f.keep race).Agree apart alert (g.keep race) := by
  refine ⟨?_, agree.hub⟩
  have same : g.races.prune g.hub.timeline = f.races.prune f.hub.timeline := by
    unfold RaceBook.prune
    rw [agree.contains, agree.rest]
  unfold Feed.keep
  rw [same, agree.rest]

theorem abort (agree : f.Agree apart alert g) (component : String) :
    (g.abort component).1 = (f.abort component).1 ∧
      (f.abort component).2.Agree apart alert (g.abort component).2 := by
  obtain ⟨answer, hub⟩ := agree.hub.cancelAll (f.races.eventsOf component)
  have other : g.abort component = ((g.hub.cancelAll (f.races.eventsOf component)).1,
      { f with
        hub := (g.hub.cancelAll (f.races.eventsOf component)).2
        races := f.races.forget component }) := by
    rw [agree.rest]
    rfl
  rw [other, answer]
  exact ⟨rfl, rfl, hub⟩

/-- A race is accepted or refused on both, and booked under the same numbers. -/
theorem launch (agree : f.Agree apart alert g) (r : RaceRequest) :
    (g.launch r).1 = (f.launch r).1 ∧ (f.launch r).2.Agree apart alert (g.launch r).2 := by
  have plans : g.plan r = ((f.plan r).1, { (f.plan r).2 with hub := g.hub }) := by
    rw [agree.rest]
    unfold Feed.plan
    dsimp only
    split <;> rfl
  unfold Feed.launch
  rcases plan_cases f r with ⟨reason, refused⟩ | ⟨rundown, generator, planned⟩
  · rw [plans, refused]
    exact ⟨rfl, rfl, agree.hub⟩
  · rw [plans, planned]
    have drawn : ({ f with generator } : Feed).Agree apart alert { f with generator, hub := g.hub } :=
      ⟨rfl, agree.hub⟩
    obtain ⟨events, booked⟩ := drawn.book rundown
    refine ⟨?_, booked⟩
    dsimp only
    rw [events, book_config, book_config]

/-- A command has the same answer on both, up to the numbers of those who are apart. -/
theorem react (agree : f.Agree apart alert g) (c : Command) :
    (g.react c).1.plain = (f.react c).1.plain ∧ (f.react c).2.Agree apart alert (g.react c).2 := by
  cases c with
  | raw | announce | help => exact ⟨rfl, agree⟩
  | randomSplit component participant split =>
    have same : g.generator = f.generator := by rw [agree.rest]
    unfold Feed.react
    dsimp only
    rw [same]
    -- Evaluating the draw would mean to run the generator.
    rcases SplitRecord.random component participant split f.generator with ⟨record, generator⟩
    exact ⟨rfl, by rw [agree.rest], agree.hub⟩
  | race request =>
    obtain ⟨result, launched⟩ := agree.launch request
    unfold Feed.react
    dsimp only
    rcases first : f.launch request with ⟨reason | race, f'⟩ <;>
      rcases other : g.launch request with ⟨reason' | race', g'⟩ <;>
      rw [first, other] at result launched <;> cases result
    · exact ⟨rfl, launched⟩
    · exact ⟨rfl, launched.keep _⟩
  | abort component =>
    obtain ⟨answer, aborted⟩ := agree.abort component
    unfold Feed.react
    dsimp only
    exact ⟨by rw [answer], aborted⟩
  | report =>
    have races : g.races = f.races := by rw [agree.rest]
    refine ⟨?_, agree⟩
    unfold Feed.react
    dsimp only [Reaction.plain, Except.map, Outcome.plain]
    rw [agree.hub.timeline.size, races]
    unfold RaceBook.active
    rw [agree.contains]
  | quit => exact ⟨rfl, by rw [Feed.react, Feed.react, agree.rest], agree.hub⟩

/-- So it has with what is sent. -/
theorem perform (agree : f.Agree apart alert g) (c : Command) :
    (g.perform c).1.map Outcome.plain = (f.perform c).1.map Outcome.plain ∧
      (f.perform c).2.Agree apart alert (g.perform c).2 := by
  obtain ⟨reaction, reacted⟩ := agree.react c
  unfold Feed.perform
  rcases first : f.react c with ⟨result | m, f'⟩ <;> rcases other : g.react c with ⟨result' | m', g'⟩ <;>
    rw [first, other] at reaction reacted
  · exact ⟨Reaction.answer.inj reaction, reacted⟩
  · cases reaction
  · cases reaction
  · cases reaction
    have rest : g' = { f' with hub := g'.hub } := reacted.rest
    refine ⟨rfl, ?_, reacted.hub.broadcast m⟩
    dsimp only
    rw [rest]

end Feed.Agree

end LiveTiming
