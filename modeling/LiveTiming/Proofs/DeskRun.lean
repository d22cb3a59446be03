import LiveTiming.Proofs.Passes

namespace LiveTiming

/-- A subscriber is given a frame: the delivery is noted, and it answers. It has yet to schedule what it
has to. -/
def Hub.give (h : Hub) (subscriber : Nat) (frame : Bytes) : Option Refusal × Hub :=
  match h.subscribers[subscriber]? with
  | none => (some .closed, h.note subscriber frame)
  | some s =>
    ((s.take frame).1, { h.note subscriber frame with
      subscribers := h.subscribers.setIfInBounds subscriber (s.take frame).2 })

/-- What a subscriber has to schedule when it is given a frame. -/
def Hub.followUps (h : Hub) (subscriber : Nat) (frame : Bytes) : List (Nat × Message) :=
  match h.subscribers[subscriber]? with
  | none => []
  | some s => s.followUps frame

/-- How far somebody who sends what is due has come: he looks for the next event, he has
taken one, or he gives its frame to those who are left. -/
inductive Sending
  | looking
  | taken (e : Event)
  | telling (e : Event) (left : List Entry) (tally : Tally)

/-- Somebody who sends what is due, with the number of events that he has sent. -/
structure Sender where
  count : Nat := 0
  stage : Sending := .looking

/-- A hub, and those who send what is due from it. -/
structure Desk where
  hub : Hub
  senders : List Sender := []

/-- What can be noticed at a hub: an event is scheduled, a cancellation is answered, an event is taken at
some time to be sent, its broadcast begins for those who are registered, one of them is given the frame at
some time, the broadcast ends and those who are gone are evicted, somebody is given a frame that is not an
event's, it changes who is registered, and somebody returns with the number of those that he has sent. -/
inductive Notice
  | posted (e : Event)
  | cancelled (id : EventId) (answer : Bool)
  | taken (e : Event) (time : Nat)
  | began (e : Event) (audience : List Entry)
  | told (e : Event) (entry : Entry) (time : Nat)
  | ended (e : Event) (evicted : List SubscriberId)
  | given (d : Delivery)
  | enrolled (entries : List Entry)
  | returned (count : Nat)

/-- A step of somebody who sends what is due. A broadcast goes to those who are registered when
it begins. What they schedule when they are given the frame are steps of their own. -/
inductive Sender.Step : Sender → Hub → Notice → Sender → Hub → Prop
  | take {n h e after} : h.takeDue = (some e, after) →
      Step ⟨n, .looking⟩ h (.taken e h.clock) ⟨n, .taken e⟩ after
  | begin {n h e} :
      Step ⟨n, .taken e⟩ h (.began e h.roster.entries) ⟨n, .telling e h.roster.entries {}⟩ h
  | tell {n h e entry later tally} :
      Step ⟨n, .telling e (entry :: later) tally⟩ h (.told e entry h.clock)
        ⟨n, .telling e later (tally.count entry.id (h.give entry.subscriber (Frame.encode e.message)).1)⟩
        (h.give entry.subscriber (Frame.encode e.message)).2
  | finish {n h e tally} :
      Step ⟨n, .telling e [] tally⟩ h (.ended e tally.evicted) ⟨n + 1, .looking⟩
        { h with roster := h.roster.evict tally.evicted }

/-- A step that anybody takes at a hub. Events are scheduled and cancelled at any time, those who
send what is due come at any time and take their steps in any order, and one of them leaves when
he finds nothing due. Others may be given the frames of other messages, and registered, at any time. -/
inductive Desk.Step : Desk → Option Notice → Desk → Prop
  | post {h senders time m} :
      Step ⟨h, senders⟩ (some (.posted ⟨time, (h.postAt time m).1, m⟩)) ⟨(h.postAt time m).2, senders⟩
  | cancel {h senders id} :
      Step ⟨h, senders⟩ (some (.cancelled id (h.cancel id).1)) ⟨(h.cancel id).2, senders⟩
  | moveClock {h senders time} : Step ⟨h, senders⟩ none ⟨h.moveClock time, senders⟩
  | look {h senders} : Step ⟨h, senders⟩ none ⟨{ h with timeline := h.timeline.nextTime.2 }, senders⟩
  | give {h senders subscriber frame} :
      Step ⟨h, senders⟩ (some (.given ⟨subscriber, h.clock, frame⟩)) ⟨(h.give subscriber frame).2, senders⟩
  | enrol {h senders roster} :
      Step ⟨h, senders⟩ (some (.enrolled roster.entries)) ⟨{ h with roster }, senders⟩
  | aside {h senders after} : after.timeline = h.timeline → after.clock = h.clock → after.journal = h.journal →
      after.roster.entries = h.roster.entries → Step ⟨h, senders⟩ none ⟨after, senders⟩
  | call {h first later} : Step ⟨h, first ++ later⟩ none ⟨h, first ++ {} :: later⟩
  | work {h first sender later new next after} : sender.Step h new next after →
      Step ⟨h, first ++ sender :: later⟩ (some new) ⟨after, first ++ next :: later⟩
  | leave {h first n later after} : h.takeDue = (none, after) →
      Step ⟨h, first ++ ⟨n, .looking⟩ :: later⟩ (some (.returned n)) ⟨after, first ++ later⟩

/-- Any number of steps, with what was noticed in them, the latest first. -/
inductive Desk.Run (start : Desk) : List Notice → Desk → Prop
  | start : Run start [] start
  | next {past d new after} : Run start past d → Step d new after → Run start (new.toList ++ past) after

namespace Notice

/-- What a notice says about the events to come. -/
def happening? : Notice → Option Happening
  | .posted e => some (.posted e)
  | .cancelled id _ => some (.cancelled id)
  | .taken e time => some (.fired e time)
  | _ => none

/-- The event that is scheduled, taken or sent. -/
@[simp] def event? : Notice → Option Event
  | .posted e | .taken e _ | .began e _ | .told e _ _ | .ended e _ => some e
  | _ => none

@[simp] def posted? : Notice → Option EventId
  | .posted e => some e.id
  | _ => none

/-- The number of an event that is cancelled before it is taken. -/
@[simp] def cancelled? : Notice → Option EventId
  | .cancelled id true => some id
  | _ => none

@[simp] def taken? : Notice → Option EventId
  | .taken e _ => some e.id
  | _ => none

@[simp] def began? : Notice → Option EventId
  | .began e _ => some e.id
  | _ => none

@[simp] def ended? : Notice → Option EventId
  | .ended e _ => some e.id
  | _ => none

/-- Who is told of the event with the given number. -/
@[simp] def told? (id : EventId) : Notice → Option Entry
  | .told e entry _ => if e.id = id then some entry else none
  | _ => none

/-- What somebody is given, and when. -/
@[simp] def delivery? : Notice → Option Delivery
  | .told e entry time => some ⟨entry.subscriber, time, Frame.encode e.message⟩
  | .given d => some d
  | _ => none

/-- Who was told of an event, in turn. -/
def hearers (id : EventId) (past : List Notice) : List Entry :=
  (past.filterMap (told? id)).reverse

/-- Who was given what, and when, in turn. -/
def deliveries (past : List Notice) : List Delivery :=
  (past.filterMap delivery?).reverse

/-- Who is registered, if the given ones were before. -/
@[simp] def registered (entries : List Entry) : List Notice → List Entry
  | [] => entries
  | .enrolled now :: _ => now
  | .ended _ evicted :: past => (registered entries past).filter fun e => !evicted.contains e.id
  | _ :: past => registered entries past

/-- How many events those have sent who returned. -/
@[simp] def results : List Notice → Nat
  | [] => 0
  | .returned n :: past => n + results past
  | _ :: past => results past

/-- An event is scheduled. -/
def IsPost : Notice → Prop
  | .posted _ => True
  | _ => False

/-- Somebody is told of an event, or schedules one. -/
def IsTelling : Notice → Prop
  | .posted _ | .told _ _ _ => True
  | _ => False

/-- What is noticed of a pass that nobody disturbs: events are taken and sent, and those who are told may
schedule others. -/
def IsOfPass : Notice → Prop
  | .posted _ | .taken _ _ | .began _ _ | .told _ _ _ | .ended _ _ => True
  | _ => False

theorem IsPost.isTelling {x : Notice} (post : x.IsPost) : x.IsTelling := by
  cases x <;> trivial

theorem IsTelling.isOfPass {x : Notice} (telling : x.IsTelling) : x.IsOfPass := by
  cases x <;> trivial

/-- As long as people are told no event is taken, and no broadcast ends. -/
theorem silent_of_telling {past : List Notice} (telling : ∀ x ∈ past, x.IsTelling) :
    past.filterMap taken? = [] ∧ past.filterMap ended? = [] := by
  have silent : ∀ x ∈ past, taken? x = none ∧ ended? x = none := by
    intro x member
    have kind := telling x member
    cases x with
    | posted | told => exact ⟨rfl, rfl⟩
    | cancelled | taken | began | ended | given | enrolled | returned => cases kind
  exact ⟨List.filterMap_eq_nil_iff.mpr fun x member => (silent x member).1,
    List.filterMap_eq_nil_iff.mpr fun x member => (silent x member).2⟩

/-- The results of two stretches of a history are added. -/
theorem results_append (more past : List Notice) : results (more ++ past) = results more + results past := by
  induction more with
  | nil => simp
  | cons x more ih => cases x <;> simp [ih, Nat.add_assoc]

theorem hearers_append (id : EventId) (more past : List Notice) :
    hearers id (more ++ past) = hearers id past ++ hearers id more := by
  simp [hearers]

theorem deliveries_append (more past : List Notice) :
    deliveries (more ++ past) = deliveries past ++ deliveries more := by
  simp [deliveries]

theorem registered_append (entries : List Entry) (more past : List Notice) :
    registered entries (more ++ past) = registered (registered entries past) more := by
  induction more with
  | nil => rfl
  | cons x more ih => cases x <;> simp [ih]

/-- What is noticed once of an event is noticed in one way. -/
theorem eq_of_once {α : Type} {f : Notice → Option α} [DecidableEq α] {past : List Notice} {a : α}
    {x y : Notice} (once : (past.filterMap f).count a ≤ 1) (left : x ∈ past) (right : y ∈ past)
    (first : f x = some a) (second : f y = some a) : x = y := by
  induction past with
  | nil => cases left
  | cons z past ih =>
    have listed {w : Notice} (member : w ∈ past) (shows : f w = some a) : 0 < (past.filterMap f).count a :=
      List.count_pos_iff.mpr (List.mem_filterMap.mpr ⟨w, member, shows⟩)
    have fewer : (past.filterMap f).count a ≤ 1 :=
      (((List.sublist_cons_self z past).filterMap f).count_le a).trans once
    have alone {w : Notice} (member : w ∈ past) (shows : f w = some a) : f z ≠ some a := fun again => by
      have more := listed member shows
      rw [List.filterMap_cons_some again, List.count_cons_self] at once
      omega
    rcases List.mem_cons.mp left with rfl | old
    · rcases List.mem_cons.mp right with same | behind
      · exact same.symm
      · exact absurd first (alone behind second)
    · rcases List.mem_cons.mp right with rfl | behind
      · exact absurd second (alone old first)
      · exact ih fewer old behind

end Notice

/-- The event that somebody has taken and not sent yet. -/
@[simp] def Sender.event? (s : Sender) : Option Event :=
  match s.stage with
  | .looking => none
  | .taken e | .telling e _ _ => some e

/-- The event that was taken and is not being sent yet. -/
@[simp] def Sender.holds? (s : Sender) : Option EventId :=
  match s.stage with
  | .taken e => some e.id
  | _ => none

/-- The event that is being sent. -/
@[simp] def Sender.tells? (s : Sender) : Option EventId :=
  match s.stage with
  | .telling e _ _ => some e.id
  | _ => none

/-- The event that is being sent, and those who have yet to be told. -/
@[simp] def Sender.tells (s : Sender) : Option (Event × List Entry) :=
  match s.stage with
  | .telling e left _ => some (e, left)
  | _ => none

/-- How many events those have sent who still do. -/
@[simp] def Sender.counts : List Sender → Nat
  | [] => 0
  | s :: others => s.count + counts others

/-- The counts that senders hold are added over the senders. -/
theorem Sender.counts_append (first later : List Sender) :
    counts (first ++ later) = counts first + counts later := by
  induction first with
  | nil => simp
  | cons s first ih => simp [ih, Nat.add_assoc]

theorem Sender.mem_middle {α : Type} {f : Sender → Option α} {first later : List Sender} {s : Sender} {a : α} :
    a ∈ (first ++ s :: later).filterMap f ↔ f s = some a ∨ a ∈ (first ++ later).filterMap f := by
  rw [(List.perm_middle.filterMap f).mem_iff, List.mem_filterMap, List.mem_filterMap]
  simp only [List.mem_cons, or_and_right, exists_or, exists_eq_left]

/-- What one of those who send tells of nobody else tells of, if it is told of once. -/
theorem Sender.other_of_once {first later : List Sender} {s : Sender} {e : Event} {left : List Entry} {id : EventId}
    (once : ((first ++ s :: later).filterMap Sender.tells?).count id ≤ 1) (own : s.tells? = some id)
    (member : (e, left) ∈ (first ++ later).filterMap Sender.tells) : id ≠ e.id := by
  rintro rfl
  obtain ⟨⟨n, stage⟩, listed, same⟩ := List.mem_filterMap.mp member
  cases stage <;> cases same
  have more : 0 < ((first ++ later).filterMap Sender.tells?).count e.id :=
    List.count_pos_iff.mpr (List.mem_filterMap.mpr ⟨_, listed, rfl⟩)
  rw [(List.perm_middle.filterMap _).count_eq, List.filterMap_cons_some own, List.count_cons_self] at once
  omega

/-- Whether the past says that an event is still to come: it was scheduled, and neither taken nor
cancelled. -/
def StillToCome (past : List Notice) (id : EventId) : Prop :=
  id ∈ past.filterMap Notice.posted? ∧ id ∉ past.filterMap Notice.taken? ∧
    id ∉ past.filterMap Notice.cancelled?

namespace Timeline

variable {t u : Timeline} {e : Event} {id other now : Nat}

theorem Sound.contains_lt (sound : t.Sound) (live : t.contains id = true) : id < t.nextId := by
  obtain ⟨e, member, rfl⟩ := sound.contains_iff.mp live
  exact sound.pending_issued member

theorem live_count (t : Timeline) (id : EventId) : t.live.toList.count id = (t.contains id).toNat := by
  rw [t.live_nodup.count]
  simp only [Std.TreeSet.mem_toList, ← Std.TreeSet.contains_iff_mem, contains]
  cases t.live.contains id <;> rfl

theorem contains_congr (left : t.Sound) (right : u.Sound) (same : u.pending = t.pending) (id : EventId) :
    u.contains id = t.contains id := by
  rw [Bool.eq_iff_iff, right.contains_iff, left.contains_iff, same]

/-- Scheduling makes the next identifier live and no other. -/
theorem insert_contains (sound : t.Sound) (time : Nat) (m : Message) (id : EventId) :
    ((t.insert time m).2.contains id).toNat = (t.contains id).toNat + [t.nextId].count id := by
  by_cases same : t.nextId = id
  · have unissued : t.contains id = false :=
      Bool.eq_false_of_not_eq_true fun live => absurd (sound.contains_lt live) (same ▸ lt_irrefl _)
    have new : (t.insert time m).2.contains id = true := by
      simp [contains, insert, same]
    simp [unissued, new, same]
  · have old : (t.insert time m).2.contains id = t.contains id := by
      simp [contains, insert, Std.TreeSet.contains_insert, same]
    simp [old, same]

/-- A cancellation ends at most the identifier it is asked for. -/
theorem cancel_contains (t : Timeline) (other id : EventId) :
    ((t.cancel other).2.contains id).toNat + (if (t.cancel other).1 then [other] else []).count id =
      (t.contains id).toNat := by
  have answer : (t.cancel other).1 = t.contains other := rfl
  by_cases same : other = id
  · have gone : (t.cancel other).2.contains id = false := by
      simp [contains, cancel, same]
    rw [answer, gone, same]
    cases t.contains id <;> simp
  · have rest : (t.cancel other).2.contains id = t.contains id := by
      simp [contains, cancel, Std.TreeSet.contains_erase, same]
    rw [answer, rest]
    cases t.contains other <;> simp [same]

/-- The event taken is the only one that is no longer live. -/
theorem takeDue_contains (sound : t.Sound) (taken : t.takeDue now = (some e, u)) (id : EventId) :
    (u.contains id).toNat + [e.id].count id = (t.contains id).toNat := by
  obtain ⟨member, _, _, kept, rest, _⟩ := takeDue_some sound taken
  by_cases same : e.id = id
  · subst same
    have live : t.contains e.id = true := sound.contains_iff.mpr ⟨e, member, rfl⟩
    have gone : u.contains e.id = false := by
      refine Bool.eq_false_of_not_eq_true fun again => ?_
      obtain ⟨other, old, same⟩ := kept.contains_iff.mp again
      rw [rest, Finset.mem_erase] at old
      exact old.1 (sound.pending_eq old.2 member same)
    simp [live, gone]
  · have others : u.contains id = t.contains id := by
      rw [Bool.eq_iff_iff, kept.contains_iff, sound.contains_iff, rest]
      constructor
      · rintro ⟨other, old, rfl⟩
        exact ⟨other, Finset.mem_of_mem_erase old, rfl⟩
      · rintro ⟨other, old, rfl⟩
        exact ⟨other, Finset.mem_erase.mpr ⟨fun equal => same (equal ▸ rfl), old⟩, rfl⟩
    simp [others, same]

end Timeline

namespace Hub

/-- To take a frame is to be given it, and to schedule what has to follow. -/
theorem take_eq_give (h : Hub) (i : Nat) (frame : Bytes) :
    h.take i frame = ((h.give i frame).1, (h.give i frame).2.postAll (h.followUps i frame)) := by
  unfold take give followUps
  dsimp only
  cases known : h.subscribers[i]? with
  | none =>
    rw [show (h.note i frame).subscribers[i]? = none from known]
    rfl
  | some s =>
    rw [show (h.note i frame).subscribers[i]? = some s from known]
    rfl

@[simp] theorem give_timeline (h : Hub) (i : Nat) (frame : Bytes) : (h.give i frame).2.timeline = h.timeline := by
  unfold give
  split <;> rfl

@[simp] theorem give_clock (h : Hub) (i : Nat) (frame : Bytes) : (h.give i frame).2.clock = h.clock := by
  unfold give
  split <;> rfl

@[simp] theorem give_roster (h : Hub) (i : Nat) (frame : Bytes) : (h.give i frame).2.roster = h.roster := by
  unfold give
  split <;> rfl

@[simp] theorem give_journal (h : Hub) (i : Nat) (frame : Bytes) :
    (h.give i frame).2.journal = h.journal.push ⟨i, h.clock, frame⟩ := by
  unfold give
  split <;> rfl

end Hub

namespace Desk

variable {past more later earlier : List Notice} {new : Option Notice} {start d k after : Desk} {x : Notice}
  {senders : List Sender}

theorem Step.run (step : Step d new after) : d.Run new.toList after := by
  simpa using Run.start.next step

/-- What a run reaches can be run on from. -/
theorem Run.trans (run : start.Run past d) (later : d.Run more k) : start.Run (more ++ past) k := by
  induction later with
  | start => exact run
  | next _ step ih =>
    rw [List.append_assoc]
    exact ih.next step

/-- A run is one up to any place of its past, and one from there on. -/
theorem Run.split (run : start.Run past d) (parts : past = later ++ earlier) :
    ∃ middle, start.Run earlier middle ∧ middle.Run later d := by
  induction run generalizing later with
  | start =>
    obtain ⟨rfl, rfl⟩ := List.append_eq_nil_iff.mp parts.symm
    exact ⟨start, .start, .start⟩
  | next previous step ih =>
    rename_i new _
    cases new with
    | none =>
      obtain ⟨middle, first, rest⟩ := ih parts
      exact ⟨middle, first, rest.next step⟩
    | some x =>
      cases later with
      | nil =>
        cases parts
        exact ⟨_, previous.next step, .start⟩
      | cons y later =>
        obtain ⟨same, parts⟩ := List.cons.inj parts
        obtain ⟨middle, first, rest⟩ := ih parts
        exact ⟨middle, first, same ▸ rest.next step⟩

/-- What is noticed at last is noticed in some step. -/
theorem Run.last (run : start.Run (x :: earlier) d) :
    ∃ before after, start.Run earlier before ∧ Step before (some x) after := by
  generalize whole : x :: earlier = past at run
  induction run with
  | start => cases whole
  | next previous step ih =>
    rename_i new _
    cases new with
    | none => exact ih whole
    | some y =>
      obtain ⟨rfl, rfl⟩ := List.cons.inj whole
      exact ⟨_, _, previous, step⟩

/-- A step at the desk is a step of the hub, under the hub's own label. -/
theorem Step.hub (step : Step d new after) : Hub.Step d.hub (new.bind Notice.happening?) after.hub := by
  cases step with
  | post => exact .postAt
  | cancel => exact .cancel
  | moveClock => exact .moveClock
  | look => exact .look
  | give => exact .aside (Hub.give_timeline ..) (Hub.give_clock ..)
  | enrol | call => exact .aside rfl rfl
  | aside same clock => exact .aside same clock
  | work step =>
    cases step with
    | take taken => exact .fire taken
    | begin | finish => exact .aside rfl rfl
    | tell => exact .aside (Hub.give_timeline ..) (Hub.give_clock ..)
  | leave rested => exact .rest rested

/-- What is noticed at a hub are steps of it. -/
theorem Run.hub (run : start.Run past d) : start.hub.Run (past.filterMap Notice.happening?) d.hub := by
  induction run with
  | start => exact .start
  | next _ step ih =>
    have same {new : Option Notice} :
        (new.bind Notice.happening?).toList = new.toList.filterMap Notice.happening? := by
      cases new with
      | none => rfl
      | some x => cases h : x.happening? <;> simp [h]
    rw [List.filterMap_append, ← same]
    exact ih.next step.hub

/-- A number that a step gives out is to come after it, and one that it takes or cancels was to
come before it. -/
theorem Step.balance (step : Step d new after) (sound : d.hub.timeline.Sound) (id : EventId) :
    (after.hub.timeline.contains id).toNat + (new.toList.filterMap Notice.taken?).count id +
        (new.toList.filterMap Notice.cancelled?).count id =
      (d.hub.timeline.contains id).toNat + (new.toList.filterMap Notice.posted?).count id := by
  cases step with
  | @post h _ time m => exact Timeline.insert_contains sound time m id
  | @cancel h _ other =>
    have balance : ((h.cancel other).2.timeline.contains id).toNat +
        (if (h.cancel other).1 then [other] else []).count id = (h.timeline.contains id).toNat :=
      Timeline.cancel_contains h.timeline other id
    cases answer : (h.cancel other).1 <;> rw [answer] at balance <;>
      simpa [List.filterMap_cons] using balance
  | moveClock | call => rfl
  | look =>
    have same := Timeline.contains_congr sound (Timeline.nextTime_sound sound)
      (Timeline.nextTime_pending sound) id
    simp [same]
  | give | enrol => simp [List.filterMap_cons]
  | aside same => simp [same]
  | work step =>
    cases step with
    | take taken =>
      have balance := Timeline.takeDue_contains sound (Hub.takeDue_eq taken).1 id
      simpa [List.filterMap_cons] using balance
    | begin | finish => rfl
    | tell => simp [List.filterMap_cons]
  | leave rested =>
    obtain ⟨_, kept, pending, _⟩ := Timeline.takeDue_none sound (Hub.takeDue_eq rested).1
    have same := Timeline.contains_congr sound kept pending id
    simp [same, List.filterMap_cons]

/-- A step that takes an event, begins its broadcast or ends it moves it on by one stage. -/
theorem Step.stages (step : Step d new after) (id : EventId) :
    (new.toList.filterMap Notice.began?).count id + (after.senders.filterMap Sender.holds?).count id =
        (d.senders.filterMap Sender.holds?).count id + (new.toList.filterMap Notice.taken?).count id ∧
      (new.toList.filterMap Notice.ended?).count id + (after.senders.filterMap Sender.tells?).count id =
        (d.senders.filterMap Sender.tells?).count id + (new.toList.filterMap Notice.began?).count id := by
  cases step with
  | post | cancel | moveClock | look | give | enrol | aside | call | leave => simp [List.filterMap_cons]
  | work step =>
    cases step <;> simp [List.filterMap_cons, List.count_cons] <;> omega

/-- Somebody who sends has counted one event more when a broadcast ends, and he takes his count
along when he leaves. -/
theorem Step.counts (step : Step d new after) :
    Notice.results new.toList + Sender.counts after.senders =
      Sender.counts d.senders + (new.toList.filterMap Notice.ended?).length := by
  cases step with
  | post | cancel | moveClock | look | give | enrol | aside => simp [List.filterMap_cons]
  | call => simp [Sender.counts_append]
  | work step =>
    cases step <;> simp [List.filterMap_cons, Sender.counts_append]
    omega
  | leave =>
    simp [List.filterMap_cons, Sender.counts_append]
    omega

/-- The journal grows by what somebody is given, and by nothing else. -/
theorem Step.journal (step : Step d new after) :
    after.hub.journal.toList = d.hub.journal.toList ++ Notice.deliveries new.toList := by
  cases step with
  | post | cancel | moveClock | look | enrol | call => exact (List.append_nil _).symm
  | give => simp [Notice.deliveries]
  | aside _ _ journal => simp [journal, Notice.deliveries]
  | work step =>
    cases step with
    | take taken => simp [(Hub.takeDue_eq taken).2.2, Notice.deliveries]
    | begin | finish => exact (List.append_nil _).symm
    | tell => simp [Notice.deliveries]
  | leave rested => simp [(Hub.takeDue_eq rested).2.2, Notice.deliveries]

/-- Nobody is registered or evicted but as it is noticed. -/
theorem Step.registered (step : Step d new after) :
    after.hub.roster.entries = Notice.registered d.hub.roster.entries new.toList := by
  cases step with
  | post | cancel | moveClock | look | enrol | call => rfl
  | give => exact congrArg Roster.entries (Hub.give_roster ..)
  | aside _ _ _ same => exact same
  | work step =>
    cases step with
    | take taken => exact (congrArg (·.2.roster.entries) taken).symm
    | begin | finish => rfl
    | tell => exact congrArg Roster.entries (Hub.give_roster ..)
  | leave rested => exact (congrArg (·.2.roster.entries) rested).symm

/-- Who takes an event finds it in the timeline, and who sends one has it in hand. -/
theorem Step.scheduled (step : Step d new after) (sound : d.hub.timeline.Sound) {P : Event → Prop}
    (waiting : ∀ e ∈ d.hub.timeline.pending, P e) (held : ∀ e ∈ d.senders.filterMap Sender.event?, P e) :
    (∀ x ∈ new, ∀ e ∈ x.event?, x = .posted e ∨ P e) ∧ ∀ e ∈ after.senders.filterMap Sender.event?, P e := by
  cases step with
  | post | cancel | moveClock | look | give | enrol | aside => exact ⟨by simp, held⟩
  | call =>
    refine ⟨nofun, fun e member => held e ?_⟩
    exact (Sender.mem_middle.mp member).resolve_left nofun
  | leave => exact ⟨by simp, fun e member => held e (Sender.mem_middle.mpr (.inr member))⟩
  | @work h first sender later x next after step =>
    suffices (∀ e ∈ x.event?, P e) ∧ ∀ e ∈ next.event?, P e by
      refine ⟨fun y same e named => Or.inr ?_, fun e member => ?_⟩
      · obtain rfl : x = y := Option.some.inj same
        exact this.1 e named
      · rcases Sender.mem_middle.mp member with own | other
        · exact this.2 e own
        · exact held e (Sender.mem_middle.mpr (.inr other))
    have own (e : Event) (inHand : sender.event? = some e) : P e := held e (Sender.mem_middle.mpr (.inl inHand))
    cases step with
    | take taken =>
      obtain ⟨member, _⟩ := Timeline.takeDue_some sound (Hub.takeDue_eq taken).1
      simpa using waiting _ member
    | begin | tell | finish =>
      have own := own _ rfl
      simpa using own

/-- An identifier given out is still live, was taken or was cancelled, and only one of these. -/
theorem Run.balance (run : start.Run past d) (empty : start.hub.timeline = {}) (id : EventId) :
    (d.hub.timeline.contains id).toNat + (past.filterMap Notice.taken?).count id +
        (past.filterMap Notice.cancelled?).count id = (past.filterMap Notice.posted?).count id := by
  induction run with
  | start => simp [empty, Timeline.contains]
  | next previous step ih =>
    have sound := (previous.hub.timeline (empty ▸ Timeline.sound_empty)).1
    have balance := step.balance sound id
    simp only [List.filterMap_append, List.count_append]
    omega

theorem Run.stages (run : start.Run past d) (idle : start.senders = []) (id : EventId) :
    (past.filterMap Notice.began?).count id + (d.senders.filterMap Sender.holds?).count id =
        (past.filterMap Notice.taken?).count id ∧
      (past.filterMap Notice.ended?).count id + (d.senders.filterMap Sender.tells?).count id =
        (past.filterMap Notice.began?).count id := by
  induction run with
  | start => simp [idle]
  | next _ step ih =>
    have moved := step.stages id
    simp only [List.filterMap_append, List.count_append]
    omega

theorem Run.counts (run : start.Run past d) (idle : start.senders = []) :
    Notice.results past + Sender.counts d.senders = (past.filterMap Notice.ended?).length := by
  induction run with
  | start => simp [idle]
  | next _ step ih =>
    have counted := step.counts
    simp only [Notice.results_append, List.filterMap_append, List.length_append]
    omega

/-- The journal grows by the deliveries of the history, in their order. -/
theorem Run.journal (run : start.Run past d) :
    d.hub.journal.toList = start.hub.journal.toList ++ Notice.deliveries past := by
  induction run with
  | start => exact (List.append_nil _).symm
  | next _ step ih => rw [step.journal, ih, Notice.deliveries_append, List.append_assoc]

/-- The roster is what the registrations and removals of the history leave of it. -/
theorem Run.registered (run : start.Run past d) :
    d.hub.roster.entries = Notice.registered start.hub.roster.entries past := by
  induction run with
  | start => rfl
  | next _ step ih => rw [step.registered, ih, Notice.registered_append]

/-- Identifiers are given out in order from zero on. -/
theorem Run.issued (run : start.Run past d) (empty : start.hub.timeline = {}) :
    (past.filterMap Notice.posted?).reverse = List.range d.hub.timeline.nextId := by
  have numbers : postedIds (past.filterMap Notice.happening?) = past.filterMap Notice.posted? := by
    unfold postedIds
    rw [List.filterMap_filterMap]
    refine congrArg (List.filterMap · past) (funext fun x => ?_)
    cases x <;> rfl
  have issued := run.hub.postedIds (empty ▸ Timeline.sound_empty)
  rw [empty, numbers] at issued
  exact issued.symm

/-- An identifier below the next one was given out once. -/
theorem Run.posted_count (run : start.Run past d) (empty : start.hub.timeline = {}) (id : EventId) :
    (past.filterMap Notice.posted?).count id = if id < d.hub.timeline.nextId then 1 else 0 := by
  rw [← List.count_reverse, run.issued empty, List.nodup_range.count]
  simp only [List.mem_range]

/-- An event is taken once at most. -/
theorem Run.taken_le (run : start.Run past d) (empty : start.hub.timeline = {}) (id : EventId) :
    (past.filterMap Notice.taken?).count id ≤ 1 := by
  have balance := run.balance empty id
  have posted := run.posted_count empty id
  split at posted <;> omega

/-- The broadcast of an event that somebody has taken has not begun. -/
theorem Run.unbegun {id : EventId} (run : start.Run past d) (empty : start.hub.timeline = {})
    (idle : start.senders = []) (held : id ∈ d.senders.filterMap Sender.holds?) :
    id ∉ past.filterMap Notice.began? := by
  have taken := run.taken_le empty id
  have began := (run.stages idle id).1
  have holds := List.count_pos_iff.mpr held
  rw [← List.count_eq_zero]
  omega

/-- Nobody else tells of an event that somebody tells of, and that broadcast has not ended. -/
theorem Run.unended {id : EventId} (run : start.Run past d) (empty : start.hub.timeline = {})
    (idle : start.senders = []) (told : id ∈ d.senders.filterMap Sender.tells?) :
    (d.senders.filterMap Sender.tells?).count id ≤ 1 ∧ (past.filterMap Notice.began?).count id ≤ 1 ∧
      id ∉ past.filterMap Notice.ended? := by
  have taken := run.taken_le empty id
  obtain ⟨began, ended⟩ := run.stages idle id
  have tells := List.count_pos_iff.mpr told
  rw [← List.count_eq_zero]
  omega

theorem Run.awaited (run : start.Run past d) (empty : start.hub.timeline = {}) (id : EventId) :
    d.hub.timeline.contains id = true ↔ StillToCome past id := by
  have balance := run.balance empty id
  have posted := run.posted_count empty id
  rw [StillToCome, ← List.count_pos_iff, ← List.count_eq_zero, ← List.count_eq_zero, ← Bool.toNat_eq_one]
  have once : (past.filterMap Notice.posted?).count id ≤ 1 := by
    split at posted <;> omega
  omega

/-- The answer to a cancellation tells whether the event was to come at that time. -/
theorem Run.cancelled {id : EventId} {answer : Bool} (run : start.Run past d)
    (parts : past = later ++ .cancelled id answer :: earlier) :
    ∃ before, start.Run earlier before ∧ before.hub.timeline.contains id = answer := by
  obtain ⟨_, first, _⟩ := run.split parts
  obtain ⟨before, _, previous, step⟩ := first.last
  refine ⟨before, previous, ?_⟩
  cases step with
  | cancel => rfl
  | work step => cases step

/-- Whatever is to come, in somebody's hands, taken or sent was scheduled. -/
theorem Run.scheduled (run : start.Run past d) (empty : start.hub.timeline = {}) (idle : start.senders = []) :
    (∀ x ∈ past, ∀ e ∈ x.event?, .posted e ∈ past) ∧
      ∀ e ∈ d.senders.filterMap Sender.event?, .posted e ∈ past := by
  induction run with
  | start => simp [idle]
  | @next past d new after previous step ih =>
    obtain ⟨sound, pending⟩ := previous.hub.timeline (empty ▸ Timeline.sound_empty)
    have waiting : ∀ e ∈ d.hub.timeline.pending, Notice.posted e ∈ past := fun e member => by
      rw [pending, empty, Timeline.pending_empty] at member
      obtain ⟨x, listed, same⟩ := List.mem_filterMap.mp ((posted_of_pending member).resolve_left (by simp))
      cases x <;> cases same
      exact listed
    obtain ⟨now, held⟩ := step.scheduled sound waiting ih.2
    refine ⟨fun x member e named => ?_, fun e inHand => List.mem_append_right _ (held e inHand)⟩
    rcases List.mem_append.mp member with new | old
    · exact (now x (Option.mem_toList.mp new) e named).elim (fun same => same ▸ member) (List.mem_append_right _)
    · exact List.mem_append_right _ (ih.1 x old e named)

end Desk

end LiveTiming
