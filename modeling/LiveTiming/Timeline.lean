import LiveTiming.Message
import LiveTiming.Timeline.Heap
import Std.Data.TreeSet

namespace LiveTiming

/-- The number of an event, which is how it is cancelled. Events are numbered in the
order in which they are scheduled. -/
abbrev EventId := Nat

/-- A message that is due at some time, in nanoseconds. -/
structure Event where
  time : Nat
  id : EventId
  message : Message
deriving DecidableEq

/-- Whether an event comes no later than another one. Of two events that are due at
the same time, the one that was scheduled first comes first. -/
def Event.le (a b : Event) : Bool :=
  a.time < b.time || (a.time == b.time && a.id ≤ b.id)

/-- The events that are still to come. A cancelled event stays in the heap until it
comes to the top, but is no longer among the live ones. -/
structure Timeline where
  heap : Heap Event := .nil
  live : Std.TreeSet EventId := ∅
  nextId : EventId := 0

namespace Timeline

/-- Adds an event, and gives its number. -/
def insert (t : Timeline) (time : Nat) (m : Message) : EventId × Timeline :=
  (t.nextId, {
    heap := t.heap.push Event.le ⟨time, t.nextId, m⟩
    live := t.live.insert t.nextId
    nextId := t.nextId + 1 })

/-- Whether the event is still to come. -/
def contains (t : Timeline) (id : EventId) : Bool :=
  t.live.contains id

/-- The number of events that are still to come. -/
def size (t : Timeline) : Nat :=
  t.live.size

/-- Cancels an event, and tells whether it was still to come. -/
def cancel (t : Timeline) (id : EventId) : Bool × Timeline :=
  (t.live.contains id, { t with live := t.live.erase id })

/-- The heap without the cancelled events on its top. One of them is discarded in each
step. -/
def discardCancelled (live : Std.TreeSet EventId) : (steps : Nat) → Heap Event → Heap Event
  | 0, h => h
  | steps + 1, h =>
    match h.peek? with
    | none => h
    | some e => if live.contains e.id then h else discardCancelled live steps (h.pop Event.le)

/-- The same events, with a live one on top if there is any. No more events can be
discarded than were ever scheduled. -/
def settleTop (t : Timeline) : Timeline :=
  { t with heap := discardCancelled t.live t.nextId t.heap }

/-- The time at which the next event is due. -/
def nextTime (t : Timeline) : Option Nat × Timeline :=
  let t := t.settleTop
  (t.heap.peek?.map (·.time), t)

/-- Takes the next event, if it is due by now. -/
def takeDue (t : Timeline) (now : Nat) : Option Event × Timeline :=
  let t := t.settleTop
  match t.heap.peek? with
  | none => (none, t)
  | some e =>
    if now < e.time then (none, t)
    else (some e, { t with heap := t.heap.pop Event.le, live := t.live.erase e.id })

end Timeline

end LiveTiming
