import LiveTiming.Roster
import LiveTiming.Timeline

namespace LiveTiming

/-- The longest that an event can be put off, 30 years of 365 days. -/
def longestDelay : Nat := 30 * 365 * 24 * 60 * 60 * 1000000000

/-- A frame that a subscriber was given, and when. -/
structure Delivery where
  subscriber : Nat
  time : Nat
  frame : Bytes
deriving DecidableEq

/-- The place where the timeline and the subscribers meet: the clock, in nanoseconds,
the subscribers by their index, who is registered, what is still to come, whether
somebody asked for the timeline to be looked at again, and what was delivered. -/
structure Hub where
  clock : Nat := 0
  subscribers : Array Subscriber := #[]
  roster : Roster := {}
  timeline : Timeline := {}
  wake : Bool := false
  journal : Array Delivery := #[]

namespace Hub

/-- Schedules a message for a point in time, which may be past. -/
def postAt (h : Hub) (time : Nat) (m : Message) : EventId × Hub :=
  let (id, timeline) := h.timeline.insert time m
  (id, { h with timeline, wake := true })

/-- Schedules a message after a delay. -/
def post (h : Hub) (delay : Nat) (m : Message) : EventId × Hub :=
  h.postAt (h.clock + min delay longestDelay) m

/-- Schedules messages in turn, each after its delay. -/
def postAll (h : Hub) (followUps : List (Nat × Message)) : Hub :=
  followUps.foldl (fun h (delay, m) => (h.post delay m).2) h

/-- Cancels an event, and tells whether it was still to come. -/
def cancel (h : Hub) (id : EventId) : Bool × Hub :=
  let (cancelled, timeline) := h.timeline.cancel id
  (cancelled, { h with timeline, wake := h.wake || cancelled })

/-- Cancels events in turn, and counts those that were still to come. -/
def cancelAll (h : Hub) (ids : List EventId) : Nat × Hub :=
  ids.foldl (fun (n, h) id =>
    let (cancelled, h) := h.cancel id
    (if cancelled then n + 1 else n, h)) (0, h)

/-- Takes the next event that is due. -/
def takeDue (h : Hub) : Option Event × Hub :=
  let (event, timeline) := h.timeline.takeDue h.clock
  (event, { h with timeline })

/-- The clock moves on to a time, unless that is past. -/
def moveClock (h : Hub) (time : Nat) : Hub :=
  { h with clock := max h.clock time }

/-- Makes a subscriber known, who is not registered yet, and gives the index. -/
def introduce (h : Hub) (s : Subscriber) : Nat × Hub :=
  (h.subscribers.size, { h with subscribers := h.subscribers.push s })

/-- Gives out a number to register a subscriber under. -/
def reserve (h : Hub) : SubscriberId × Hub :=
  let (id, roster) := h.roster.reserve
  (id, { h with roster })

/-- Registers a subscriber under a number that was given out. -/
def enter (h : Hub) (id : SubscriberId) (subscriber : Nat) : Hub :=
  { h with roster := h.roster.enter id subscriber }

/-- Ends a registration, and tells whether there was one. -/
def remove (h : Hub) (id : SubscriberId) : Bool × Hub :=
  let (removed, roster) := h.roster.remove id
  (removed, { h with roster })

/-- The queue of a subscriber that has one. -/
def mailbox? (h : Hub) (subscriber : Nat) : Option Mailbox :=
  match h.subscribers[subscriber]? with
  | some (.mailbox b) => some b
  | _ => none

/-- The hub with another queue of a subscriber. -/
def setMailbox (h : Hub) (subscriber : Nat) (b : Mailbox) : Hub :=
  { h with subscribers := h.subscribers.setIfInBounds subscriber (.mailbox b) }

/-- The reader of a subscriber's queue takes up to `count` frames out of it. -/
def receive (h : Hub) (subscriber count : Nat) : List Bytes × Hub :=
  match h.mailbox? subscriber with
  | none => ([], h)
  | some b => let (frames, b) := b.receive count; (frames, h.setMailbox subscriber b)

/-- The reader of a subscriber's queue leaves. -/
def closeMailbox (h : Hub) (subscriber : Nat) : Hub :=
  match h.mailbox? subscriber with
  | none => h
  | some b => h.setMailbox subscriber b.close

/-- How long the subscriber waits before it takes the next frame. -/
def hold (h : Hub) (subscriber : Nat) : Nat :=
  (h.subscribers[subscriber]?.map (·.hold)).getD 0

/-- Notes that a subscriber is given a frame. -/
def note (h : Hub) (subscriber : Nat) (frame : Bytes) : Hub :=
  { h with journal := h.journal.push ⟨subscriber, h.clock, frame⟩ }

/-- A subscriber is given a frame: the delivery is noted, the subscriber schedules what
it has to, and answers. One who is not known is gone. -/
def take (h : Hub) (subscriber : Nat) (frame : Bytes) : Option Refusal × Hub :=
  let h := h.note subscriber frame
  match h.subscribers[subscriber]? with
  | none => (some .closed, h)
  | some s =>
    let (answer, after) := s.take frame
    let h := { h with subscribers := h.subscribers.setIfInBounds subscriber after }
    (answer, h.postAll (s.followUps frame))

/-- Gives a frame to a registered subscriber, once that has waited, and counts the
answer. -/
def deliver (frame : Bytes) : Tally × Hub → Entry → Tally × Hub
  | (tally, h), e =>
    let (answer, h) := (h.moveClock (h.clock + h.hold e.subscriber)).take e.subscriber frame
    (tally.count e.id answer, h)

/-- Sends a message to everybody who is registered, in turn, while nobody else uses
the hub. Those who are gone are evicted afterwards. -/
def broadcast (h : Hub) (m : Message) : Tally × Hub :=
  let (tally, h) := h.roster.entries.foldl (deliver (Frame.encode m)) ({}, h)
  (tally, { h with roster := h.roster.evict tally.evicted })

/-- Sends every event that is due, one after the other, and counts them, while nobody
else uses the hub. There is no answer if `fuel` events are not enough. -/
def sendDue (h : Hub) : (fuel : Nat) → Option (Nat × Hub)
  | 0 => none
  | fuel + 1 =>
    match h.takeDue with
    | (none, h) => some (0, h)
    | (some e, h) => (sendDue (h.broadcast e.message).2 fuel).map fun (n, h) => (n + 1, h)

end Hub

end LiveTiming
