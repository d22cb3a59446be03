import LiveTiming.Proofs.Timeline
import Mathlib.Data.List.Sort

namespace LiveTiming

instance : Std.Total fun a b : Event => a.le b = true :=
  ⟨Event.le_total⟩

instance : IsTrans Event fun a b => a.le b = true :=
  ⟨Event.le_trans⟩

/-- The events that are still to come, the first of them in front, and nothing else but the
next number. -/
structure Agenda where
  events : List Event := []
  nextId : EventId := 0

namespace Agenda

/-- Adds an event where it belongs, and gives its number. -/
def insert (a : Agenda) (time : Nat) (m : Message) : EventId × Agenda :=
  (a.nextId, {
    events := a.events.orderedInsert (fun a b => a.le b = true) ⟨time, a.nextId, m⟩
    nextId := a.nextId + 1 })

/-- Strikes an event out, and tells whether it was still to come. -/
def cancel (a : Agenda) (id : EventId) : Bool × Agenda :=
  (a.events.any (·.id == id), { a with events := a.events.filter (·.id != id) })

/-- The time at which the next event is due. -/
def nextTime (a : Agenda) : Option Nat :=
  a.events.head?.map (·.time)

/-- Takes the next event, if it is due by now. -/
def takeDue (a : Agenda) (now : Nat) : Option Event × Agenda :=
  match a.events with
  | [] => (none, a)
  | e :: later => if now < e.time then (none, a) else (some e, { a with events := later })

end Agenda

/-- What can be asked of those who keep events. -/
inductive Request
  | insert (time : Nat) (m : Message)
  | cancel (id : EventId)
  | nextTime
  | takeDue (now : Nat)

/-- What is answered to a request: the number of a new event, whether an event was still to
come, a time, or an event that is due. -/
inductive Answer
  | number (id : EventId)
  | cancelled (wasToCome : Bool)
  | time (time : Option Nat)
  | event (e : Option Event)
deriving DecidableEq

/-- A timeline does what it is asked to. -/
def Timeline.serve (t : Timeline) : Request → Answer × Timeline
  | .insert time m => (.number (t.insert time m).1, (t.insert time m).2)
  | .cancel id => (.cancelled (t.cancel id).1, (t.cancel id).2)
  | .nextTime => (.time t.nextTime.1, t.nextTime.2)
  | .takeDue now => (.event (t.takeDue now).1, (t.takeDue now).2)

/-- An agenda does what it is asked to. -/
def Agenda.serve (a : Agenda) : Request → Answer × Agenda
  | .insert time m => (.number (a.insert time m).1, (a.insert time m).2)
  | .cancel id => (.cancelled (a.cancel id).1, (a.cancel id).2)
  | .nextTime => (.time a.nextTime, a)
  | .takeDue now => (.event (a.takeDue now).1, (a.takeDue now).2)

/-- The answers to some requests, of which the latest stands first, and what is kept then. -/
def served {α : Type} (serve : α → Request → Answer × α) (start : α) : List Request → List Answer × α
  | [] => ([], start)
  | request :: past =>
    let (answers, kept) := served serve start past
    let (answer, kept) := serve kept request
    (answer :: answers, kept)

namespace Timeline

variable {t : Timeline} {a : Agenda} {e : Event} {now time : Nat}

theorem nextTime_eq_some_iff (sound : t.Sound) : t.nextTime.1 = some time ↔
    (∃ e ∈ t.pending, e.time = time) ∧ ∀ e ∈ t.pending, time ≤ e.time := by
  cases top : t.settleTop.heap.peek? with
  | none =>
    simp [nextTime, top, settleTop_peek_none sound top]
  | some first =>
    obtain ⟨member, least⟩ := settleTop_peek sound top
    have soonest : ∀ e ∈ t.pending, first.time ≤ e.time := fun e other => by
      have := Event.le_iff.mp (least e other)
      omega
    simp only [nextTime, top, Option.map_some, Option.some.injEq]
    constructor
    · rintro rfl
      exact ⟨⟨first, member, rfl⟩, soonest⟩
    · rintro ⟨⟨e, other, rfl⟩, before⟩
      exact le_antisymm (soonest e other) (before first member)

theorem nextTime_eq_none_iff (sound : t.Sound) : t.nextTime.1 = none ↔ t.pending = ∅ := by
  cases top : t.settleTop.heap.peek? with
  | none => simp [nextTime, top, settleTop_peek_none sound top]
  | some first =>
    have member := (settleTop_peek sound top).1
    simp only [nextTime, top, Option.map_some, reduceCtorEq, false_iff]
    exact Finset.ne_empty_of_mem member

theorem takeDue_eq_none_iff (sound : t.Sound) : (t.takeDue now).1 = none ↔ ∀ e ∈ t.pending, now < e.time := by
  rcases taken : t.takeDue now with ⟨_ | e, u⟩
  · exact iff_of_true rfl (takeDue_none sound taken).1
  · obtain ⟨member, due, _⟩ := takeDue_some sound taken
    exact iff_of_false (by simp) fun early => absurd due (Nat.not_le_of_lt (early e member))

/-- The event that is taken is the first of those that are due. -/
theorem takeDue_eq_some_iff (sound : t.Sound) : (t.takeDue now).1 = some e ↔
    e ∈ t.pending ∧ e.time ≤ now ∧ ∀ other ∈ t.pending, other.time ≤ now → e.le other = true := by
  rcases taken : t.takeDue now with ⟨_ | first, u⟩
  · have early := (takeDue_none sound taken).1
    exact iff_of_false (by simp) fun ⟨member, due, _⟩ => absurd due (Nat.not_le_of_lt (early e member))
  · obtain ⟨member, due, least, _⟩ := takeDue_some sound taken
    rw [Option.some.injEq]
    constructor
    · rintro rfl
      exact ⟨member, due, fun other later _ => least other later⟩
    · rintro ⟨later, dueToo, leastToo⟩
      exact sound.pending_eq member later (Event.id_eq_of_le (least e later) (leastToo first member due))

/-- An agenda of the events that are still to come in a timeline. -/
structure Shows (t : Timeline) (a : Agenda) : Prop where
  sound : t.Sound
  ordered : a.events.Pairwise (·.le · = true)
  nodup : a.events.Nodup
  mem_iff : ∀ e, e ∈ a.events ↔ e ∈ t.pending
  nextId : a.nextId = t.nextId

namespace Shows

theorem start : Shows {} {} :=
  ⟨sound_empty, .nil, .nil, by simp, rfl⟩

theorem insert (shows : t.Shows a) (time : Nat) (m : Message) : (t.insert time m).2.Shows (a.insert time m).2 where
  sound := insert_sound shows.sound time m
  ordered := shows.ordered.orderedInsert _ _
  nodup := by
    refine (List.perm_orderedInsert _ _ _).nodup_iff.mpr (List.nodup_cons.mpr ⟨fun member => ?_, shows.nodup⟩)
    have issued := shows.sound.pending_issued ((shows.mem_iff _).mp member)
    exact absurd shows.nextId (Nat.ne_of_lt issued)
  mem_iff e := by
    rw [insert_pending shows.sound, Finset.mem_insert, ← shows.mem_iff, ← shows.nextId]
    exact List.mem_orderedInsert _
  nextId := congrArg (· + 1) shows.nextId

theorem any_eq (shows : t.Shows a) (id : EventId) : a.events.any (·.id == id) = t.contains id := by
  rw [Bool.eq_iff_iff, shows.sound.contains_iff, List.any_eq_true]
  simp only [shows.mem_iff, beq_iff_eq]

theorem cancel (shows : t.Shows a) (id : EventId) : (t.cancel id).2.Shows (a.cancel id).2 where
  sound := cancel_sound shows.sound id
  ordered := shows.ordered.filter _
  nodup := shows.nodup.filter _
  mem_iff e := by
    rw [cancel_pending, Finset.mem_filter, ← shows.mem_iff]
    simp [Agenda.cancel]
  nextId := shows.nextId

theorem nextTime_eq (shows : t.Shows a) : t.nextTime.1 = a.nextTime := by
  unfold Agenda.nextTime
  have members := shows.mem_iff
  cases listed : a.events with
  | nil =>
    rw [listed] at members
    rw [List.head?_nil, Option.map_none, nextTime_eq_none_iff shows.sound]
    exact Finset.eq_empty_of_forall_notMem fun e member => List.not_mem_nil ((members e).mpr member)
  | cons first later =>
    have ordered := shows.ordered
    rw [listed] at members ordered
    rw [List.head?_cons, Option.map_some, nextTime_eq_some_iff shows.sound]
    refine ⟨⟨first, (members first).mp (List.mem_cons_self ..), rfl⟩, fun e member => ?_⟩
    rcases List.mem_cons.mp ((members e).mpr member) with rfl | behind
    · exact le_rfl
    · have before := Event.le_iff.mp ((List.pairwise_cons.mp ordered).1 e behind)
      omega

theorem look (shows : t.Shows a) : t.nextTime.2.Shows a where
  sound := nextTime_sound shows.sound
  ordered := shows.ordered
  nodup := shows.nodup
  mem_iff e := by rw [nextTime_pending shows.sound, shows.mem_iff]
  nextId := shows.nextId

theorem takeDue (shows : t.Shows a) (now : Nat) :
    (t.takeDue now).1 = (a.takeDue now).1 ∧ (t.takeDue now).2.Shows (a.takeDue now).2 := by
  obtain ⟨sound, ordered, nodup, members, nextId⟩ := shows
  rcases a with ⟨events, number⟩
  rcases taken : t.takeDue now with ⟨_ | e, u⟩
  · obtain ⟨early, kept, same, numbers⟩ := takeDue_none sound taken
    have rests : Agenda.takeDue ⟨events, number⟩ now = (none, ⟨events, number⟩) := by
      cases events with
      | nil => rfl
      | cons first later => exact if_pos (early first ((members first).mp (List.mem_cons_self ..)))
    rw [rests]
    exact ⟨rfl, kept, ordered, nodup, fun e => by rw [same, members], nextId.trans numbers.symm⟩
  · obtain ⟨member, due, least, kept, same, numbers⟩ := takeDue_some sound taken
    cases events with
    | nil => exact absurd ((members e).mpr member) List.not_mem_nil
    | cons first later =>
      obtain ⟨before, orderedLater⟩ := List.pairwise_cons.mp ordered
      obtain ⟨fresh, nodupLater⟩ := List.nodup_cons.mp nodup
      have head : first ∈ t.pending := (members first).mp (List.mem_cons_self ..)
      obtain rfl : e = first := by
        rcases List.mem_cons.mp ((members e).mpr member) with front | behind
        · exact front
        · exact sound.pending_eq member head (Event.id_eq_of_le (least first head) (before e behind))
      have takes : Agenda.takeDue ⟨e :: later, number⟩ now = (some e, ⟨later, number⟩) :=
        if_neg (Nat.not_lt_of_le due)
      rw [takes]
      refine ⟨rfl, kept, orderedLater, nodupLater, fun other => ?_, nextId.trans numbers.symm⟩
      rw [same, Finset.mem_erase, ← members, List.mem_cons]
      constructor
      · exact fun behind => ⟨fun again => fresh (again ▸ behind), Or.inr behind⟩
      · rintro ⟨different, front | behind⟩
        · exact absurd front different
        · exact behind

/-- A timeline answers every request as its agenda does. -/
theorem serve (shows : t.Shows a) (request : Request) :
    (t.serve request).1 = (a.serve request).1 ∧ (t.serve request).2.Shows (a.serve request).2 := by
  cases request with
  | insert time m => exact ⟨congrArg _ shows.nextId.symm, shows.insert time m⟩
  | cancel id => exact ⟨congrArg _ (shows.any_eq id).symm, shows.cancel id⟩
  | nextTime => exact ⟨congrArg _ shows.nextTime_eq, shows.look⟩
  | takeDue now =>
    obtain ⟨same, kept⟩ := shows.takeDue now
    exact ⟨congrArg _ same, kept⟩

end Shows

theorem served_shows (past : List Request) :
    (served serve {} past).1 = (served Agenda.serve {} past).1 ∧
      Shows (served serve {} past).2 (served Agenda.serve {} past).2 := by
  induction past with
  | nil => exact ⟨rfl, .start⟩
  | cons request past ih =>
    obtain ⟨same, kept⟩ := ih.2.serve request
    exact ⟨congrArg₂ _ same ih.1, kept⟩

/-- The heap holds each event that is still to come once. -/
theorem Sound.count_eq_one (sound : t.Sound) {id : EventId} (live : t.live.contains id = true) :
    (t.heap.toList.map Event.id).count id = 1 := by
  obtain ⟨e, stored, rfl⟩ := sound.stored id live
  exact List.count_eq_one_of_mem sound.distinct (List.mem_map_of_mem stored)

/-- That a timeline keeps cancelled events for a while does not show. Whatever it is asked, it
answers like an agenda, from which they are struck out at once: the next time is the earliest
one of the events that are still to come, and the event that is taken is the first of those
that are due. What is discarded is never still to come, the heap holds what is still to come
once, and the number that is given out next is above all others. -/
theorem cancelled_events_do_not_show (past : List Request) :
    let t := (served serve {} past).2
    let a := (served Agenda.serve {} past).2
    (served serve {} past).1 = (served Agenda.serve {} past).1 ∧
    (∀ e, e ∈ a.events ↔ e ∈ t.heap.toList ∧ t.live.contains e.id = true) ∧
    (∀ time, t.nextTime.1 = some time ↔
      (∃ e ∈ a.events, e.time = time) ∧ ∀ e ∈ a.events, time ≤ e.time) ∧
    (t.nextTime.1 = none ↔ a.events = []) ∧
    (∀ now e, (t.takeDue now).1 = some e ↔
      e ∈ a.events ∧ e.time ≤ now ∧ ∀ other ∈ a.events, other.time ≤ now → e.le other = true) ∧
    (∀ now, (t.takeDue now).1 = none ↔ ∀ e ∈ a.events, now < e.time) ∧
    (∃ gone, t.heap.toList.Perm (gone ++ t.settleTop.heap.toList) ∧ ∀ e ∈ gone, t.live.contains e.id = false) ∧
    (∀ id, t.live.contains id = true → (t.heap.toList.map Event.id).count id = 1) ∧
    ∀ e ∈ t.heap.toList, e.id < t.nextId := by
  intro t a
  obtain ⟨same, shows⟩ := served_shows past
  have sound : t.Sound := shows.sound
  have members : ∀ e, e ∈ a.events ↔ e ∈ t.pending := shows.mem_iff
  refine ⟨same, fun e => (members e).trans mem_pending, fun time => ?_, ?_, fun now e => ?_, fun now => ?_,
    (discardCancelled_spec t.live sound.ordered t.nextId).2.1, fun id => sound.count_eq_one, sound.issued⟩
  · simp only [nextTime_eq_some_iff sound, members]
  · rw [nextTime_eq_none_iff sound, Finset.eq_empty_iff_forall_notMem, List.eq_nil_iff_forall_not_mem]
    simp only [members]
  · simp only [takeDue_eq_some_iff sound, members]
  · simp only [takeDue_eq_none_iff sound, members]

/-- Of two events the first one is cancelled. It is still in the heap, but the other one is
next, and is taken when it is due. -/
theorem cancelled_head_does_not_show :
    let start : List Request := [.cancel 0, .insert 20 (.raw "tail"), .insert 10 (.raw "head")]
    let past : List Request := .takeDue 20 :: .takeDue 15 :: .nextTime :: start
    (served serve {} past).1 = [.event (some ⟨20, 1, .raw "tail"⟩), .event none, .time (some 20),
      .cancelled true, .number 1, .number 0] ∧
    (served serve {} start).2.heap.toList.map Event.id = [0, 1] ∧
    (served serve {} start).2.live.contains 1 = true ∧
    ((served serve {} start).2.heap.toList.map Event.id).count 1 = 1 := by
  intro start past
  obtain ⟨answers, _⟩ := cancelled_events_do_not_show past
  obtain ⟨_, _, _, _, _, _, _, once, _⟩ := cancelled_events_do_not_show start
  have live : (served serve {} start).2.live.contains 1 = true := by decide +kernel
  exact ⟨answers.trans (by decide), by decide, live, once 1 live⟩

end Timeline

end LiveTiming
