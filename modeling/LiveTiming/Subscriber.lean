import LiveTiming.Frame

namespace LiveTiming

/-- Why a subscriber does not take a frame: its reader is gone, its queue is full, or
the frame cannot be written. -/
inductive Refusal
  | closed
  | full
  | failed (source : String)
deriving DecidableEq

namespace Refusal

/-- The reason in one word. -/
def label : Refusal → String
  | .closed => "sink_closed"
  | .full => "sink_full"
  | .failed _ => "sink_io"

/-- The reason in words. -/
def message : Refusal → String
  | .closed => "sink closed"
  | .full => "sink queue full"
  | .failed source => s!"sink write failed: {source}"

/-- Whether the subscriber is gone for good. -/
def isFinal : Refusal → Bool
  | .full => false
  | _ => true

end Refusal

/-- A queue of frames between the feed and a reader, who may leave. -/
structure Mailbox where
  name : String
  capacity : Nat
  queue : Array Bytes := #[]
  isOpen : Bool := true

namespace Mailbox

/-- An empty queue, with room for one frame at least. -/
def ofCapacity (name : String) (capacity : Nat) : Mailbox :=
  { name, capacity := max capacity 1 }

/-- Offers a frame to the queue. -/
def offer (b : Mailbox) (frame : Bytes) : Option Refusal × Mailbox :=
  if !b.isOpen then (some .closed, b)
  else if b.capacity ≤ b.queue.size then (some .full, b)
  else (none, { b with queue := b.queue.push frame })

/-- Takes up to `count` frames out of the queue. -/
def receive (b : Mailbox) (count : Nat) : List Bytes × Mailbox :=
  ((b.queue.extract 0 count).toList, { b with queue := b.queue.extract count b.queue.size })

/-- The reader leaves, and the frames in the queue are lost. -/
def close (b : Mailbox) : Mailbox :=
  { b with queue := #[], isOpen := false }

end Mailbox

/-- What a watching subscriber does with its deliveries, by their number: how long it
waits, in nanoseconds, what it schedules then, after which delay, and what it
answers. -/
structure Script where
  wait : Nat → Nat
  followUps : Nat → Bytes → List (Nat × Message)
  answer : Nat → Option Refusal

/-- A subscriber: a queue for a reader, a log, or a watcher that follows a script. -/
inductive Subscriber where
  | mailbox (b : Mailbox)
  | log
  | watcher (script : Script) (deliveries : Nat)

namespace Subscriber

/-- The name of a subscriber. -/
def name : Subscriber → String
  | .mailbox b => b.name
  | .log => "LogSink"
  | .watcher .. => "Watcher"

/-- How long the subscriber waits before it takes the next frame. -/
def hold : Subscriber → Nat
  | .watcher script deliveries => script.wait deliveries
  | _ => 0

/-- What the subscriber schedules when it takes the next frame. -/
def followUps : Subscriber → Bytes → List (Nat × Message)
  | .watcher script deliveries, frame => script.followUps deliveries frame
  | _, _ => []

/-- The subscriber takes a frame or refuses it. -/
def take : Subscriber → Bytes → Option Refusal × Subscriber
  | .mailbox b, frame => let (answer, b) := b.offer frame; (answer, .mailbox b)
  | .log, _ => (none, .log)
  | .watcher script deliveries, _ => (script.answer deliveries, .watcher script (deliveries + 1))

end Subscriber

end LiveTiming
